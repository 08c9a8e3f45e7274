import Mathlib.Data.Finset.Range
import Mathlib.Logic.Function.Basic

/-!
# A file behind a buffer

A random-access file is known by the values at its positions, `none` where there is none.
What has been written into a buffer and not yet into the file lies over the file from a base
position on.
-/

namespace WriteBehind

variable {α : Type*}

/-- `f` with values written one behind the other from `pos` on. -/
def write (f : ℕ → Option α) : ℕ → List α → ℕ → Option α
  | _, [] => f
  | pos, a :: d => write (Function.update f pos (some a)) (pos + 1) d

/-- `f` with the stored places of a buffer laid over it from `base` on. -/
def overlay (f : ℕ → Option α) (base : ℕ) (stored : Finset ℕ) (buf : ℕ → α) : ℕ → Option α :=
  fun p => if base ≤ p ∧ p - base ∈ stored then some (buf (p - base)) else f p

@[simp] theorem write_nil (f : ℕ → Option α) (pos : ℕ) : write f pos [] = f := rfl

theorem write_cons (f : ℕ → Option α) (pos : ℕ) (a : α) (d : List α) :
    write f pos (a :: d) = write (write f pos [a]) (pos + 1) d := rfl

theorem write_append (f : ℕ → Option α) (pos : ℕ) (d e : List α) :
    write f pos (d ++ e) = write (write f pos d) (pos + d.length) e := by
  induction d generalizing f pos with
  | nil => rfl
  | cons a d ih =>
      rw [List.cons_append, write_cons, ih, ← write_cons, List.length_cons, Nat.add_assoc,
        Nat.add_comm 1]

@[simp] theorem overlay_empty (f : ℕ → Option α) (base : ℕ) (buf : ℕ → α) :
    overlay f base ∅ buf = f := by
  funext p
  simp [overlay]

theorem overlay_insert (f : ℕ → Option α) (base i : ℕ) (stored : Finset ℕ) (buf : ℕ → α)
    (a : α) : overlay f base (insert i stored) (Function.update buf i a) =
      write (overlay f base stored buf) (base + i) [a] := by
  funext p
  by_cases hp : p = base + i
  · subst hp
    simp [overlay, write]
  · have hne : base ≤ p → p - base ≠ i := by omega
    by_cases hle : base ≤ p
    · simp [overlay, write, hp, hne hle, hle]
    · simp [overlay, write, hp, hle]

/-- Everything before place `n` stored: the file with these values written. -/
theorem overlay_range (f : ℕ → Option α) (base n : ℕ) (buf : ℕ → α) :
    overlay f base (Finset.range n) buf = write f base ((List.range n).map buf) := by
  induction n with
  | zero => simp
  | succ n ih =>
      rw [List.range_succ, List.map_append, write_append, ← ih, List.length_map,
        List.length_range, List.map_singleton, ← overlay_insert, Function.update_eq_self,
        Finset.range_add_one]

end WriteBehind
