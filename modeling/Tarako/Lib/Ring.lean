import Mathlib.Data.List.Basic
import Mathlib.Data.Nat.ModEq

/-!
# Rings of slots

A ring has `n` slots, numbered modulo `n`, and a window of them in use: it begins at
`start` and ends before `stop`. One slot always stays outside the window, so that
`start = stop` means that nothing is in use. `Holds get n start l` says that the
window that begins at `start` has the elements of `l`, one in each slot; `get` reads
a slot. `walk` takes the window out slot by slot and tests for its end after each of
them, as a `do … while` loop does.
-/

namespace Ring

variable {α : Type*}

/-- The slots from `start` on hold the elements of `l`. -/
def Holds (get : ℕ → Option α) (n start : ℕ) (l : List α) : Prop :=
  ∀ j (h : j < l.length), get ((start + j) % n) = some l[j]

/-- The last `k` elements. -/
def lastN (k : ℕ) (l : List α) : List α := l.drop (l.length - k)

@[simp] theorem lastN_nil (k : ℕ) : lastN k ([] : List α) = [] := List.drop_nil

theorem length_lastN (k : ℕ) (l : List α) : (lastN k l).length = min l.length k := by
  rw [lastN, List.length_drop]
  omega

theorem lastN_of_length_le {k : ℕ} {l : List α} (h : l.length ≤ k) : lastN k l = l := by
  rw [lastN, Nat.sub_eq_zero_of_le h, List.drop_zero]

theorem lastN_append_singleton (k : ℕ) (l : List α) (a : α) :
    lastN (k + 1) (l ++ [a]) = lastN k l ++ [a] := by
  have hlen : (l ++ [a]).length - (k + 1) = l.length - k := by
    rw [List.length_append, List.length_singleton]
    omega
  rw [lastN, hlen, List.drop_append_of_le_length (Nat.sub_le _ _), lastN]

theorem lastN_append_of_le {k : ℕ} {l : List α} (hk : 0 < k) (h : k ≤ l.length) (a : α) :
    lastN k (l ++ [a]) = (lastN k l).tail ++ [a] := by
  obtain ⟨m, rfl⟩ := Nat.exists_eq_succ_of_ne_zero (Nat.ne_of_gt hk)
  rw [lastN_append_singleton, lastN, lastN, List.tail_drop]
  congr 2
  omega

theorem holds_nil (get : ℕ → Option α) (n start : ℕ) : Holds get n start [] := by
  intro j h
  exact absurd h (Nat.not_lt_zero j)

theorem slot_ne {n start j k : ℕ} (hjk : j < k) (hk : k < n) :
    (start + j) % n ≠ (start + k) % n := by
  intro h
  have hmod : j ≡ k [MOD n] := Nat.ModEq.add_left_cancel' start h
  have heq := hmod.eq_of_lt_of_lt (Nat.lt_trans hjk hk) hk
  omega

/-- A new element goes behind the window when a slot is left for it. -/
theorem Holds.push {get get' : ℕ → Option α} {n start : ℕ} {l : List α} {a : α}
    (h : Holds get n start l) (hlen : l.length < n)
    (hnew : get' ((start + l.length) % n) = some a)
    (hold : ∀ i, i ≠ (start + l.length) % n → get' i = get i) :
    Holds get' n start (l ++ [a]) := by
  intro j hj
  rw [List.length_append, List.length_singleton] at hj
  rcases Nat.lt_or_ge j l.length with hlt | hge
  · rw [hold _ (slot_ne hlt hlen), h j hlt, List.getElem_append_left hlt]
  · have hlast : j = l.length := by omega
    subst hlast
    simp [hnew]

theorem Holds.tail {get : ℕ → Option α} {n start : ℕ} {l : List α}
    (h : Holds get n start l) : Holds get n ((start + 1) % n) l.tail := by
  intro j hj
  rw [List.length_tail] at hj
  have hslot := h (j + 1) (by omega)
  rw [Nat.mod_add_mod, List.getElem_tail, ← hslot]
  congr 2
  omega

/-- Take slots out from slot `i` on until the next one is `stop`; the elements, and
the slot at which the loop ends. There is no result when a slot was never set or the
loop has not ended after `fuel` slots. -/
def walk (get : ℕ → Option α) (n stop : ℕ) : ℕ → ℕ → Option (List α × ℕ)
  | 0, _ => none
  | fuel + 1, i => do
      let a ← get i
      let next := (i + 1) % n
      if stop = next then return ([a], next)
      let (rest, last) ← walk get n stop fuel next
      return (a :: rest, last)

/-- The loop takes out the whole window, in order, and stops at its end. -/
theorem walk_eq_some {get : ℕ → Option α} {n fuel : ℕ} {l : List α} (hlen : l.length < n)
    (hfuel : l.length ≤ fuel) (hl : l ≠ []) {start : ℕ} (hstart : start < n)
    (h : Holds get n start l) :
    walk get n ((start + l.length) % n) fuel start =
      some (l, (start + l.length) % n) := by
  induction l generalizing fuel start with
  | nil => exact absurd rfl hl
  | cons a l ih =>
      obtain ⟨fuel, rfl⟩ : ∃ m, fuel = m + 1 := ⟨fuel - 1, by
        rw [List.length_cons] at hfuel
        omega⟩
      have hhead : get start = some a := by
        have hzero := h 0 (Nat.zero_lt_succ _)
        rwa [Nat.add_zero, Nat.mod_eq_of_lt hstart] at hzero
      have hstop : (start + (a :: l).length) % n = ((start + 1) % n + l.length) % n := by
        rw [Nat.mod_add_mod, List.length_cons]
        congr 1
        omega
      have hn : 0 < n := by omega
      rw [walk, hhead]
      simp only [Option.bind_eq_bind, Option.bind_some, Option.pure_def]
      by_cases hnil : l = []
      · subst hnil
        simp
      · rw [List.length_cons] at hlen hfuel
        have hne : ¬ (start + (a :: l).length) % n = (start + 1) % n := by
          have hlt : 1 < (a :: l).length := by
            have hpos := List.length_pos_iff.mpr hnil
            rw [List.length_cons]
            omega
          exact (slot_ne hlt (by rw [List.length_cons]; omega)).symm
        rw [if_neg hne, hstop, ih (by omega) (by omega) hnil (Nat.mod_lt _ hn) h.tail]
        rfl

end Ring
