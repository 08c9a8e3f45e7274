import Mathlib.Data.List.Basic

/-!
# Byte stuffing

A stuffing code sends a sequence between two flags and keeps the flag out of the
sequence itself: the flag and the escape are each sent as the escape followed by
a substitute. The conditions on the four symbols are fields of the code, so the
separation of flag and contents holds for every `Stuffing.Code`.
-/

namespace Stuffing

/-- The symbols of a stuffing code. -/
structure Code (α : Type*) where
  flag : α
  esc : α
  flagSub : α
  escSub : α
  esc_ne_flag : esc ≠ flag
  flagSub_ne_flag : flagSub ≠ flag
  escSub_ne_flag : escSub ≠ flag

namespace Code

variable {α : Type*} [DecidableEq α] (c : Code α)

def stuffOne (a : α) : List α :=
  if a = c.flag then [c.esc, c.flagSub]
  else if a = c.esc then [c.esc, c.escSub]
  else [a]

/-- What is sent for a sequence, without the flags around it. -/
def stuff (s : List α) : List α := s.flatMap c.stuffOne

/-- A whole frame: the stuffed sequence between two flags. -/
def frame (s : List α) : List α := c.flag :: (c.stuff s ++ [c.flag])

@[simp] theorem stuff_nil : c.stuff [] = [] := rfl

@[simp] theorem stuff_cons (a : α) (s : List α) :
    c.stuff (a :: s) = c.stuffOne a ++ c.stuff s := rfl

theorem stuff_append (s t : List α) : c.stuff (s ++ t) = c.stuff s ++ c.stuff t := by
  simp [stuff]

theorem stuffOne_flag : c.stuffOne c.flag = [c.esc, c.flagSub] := by
  simp [stuffOne]

theorem stuffOne_esc : c.stuffOne c.esc = [c.esc, c.escSub] := by
  simp [stuffOne, c.esc_ne_flag]

theorem stuffOne_of_ne {a : α} (hflag : a ≠ c.flag) (hesc : a ≠ c.esc) :
    c.stuffOne a = [a] := by
  simp [stuffOne, hflag, hesc]

theorem flag_not_mem_stuffOne (a : α) : c.flag ∉ c.stuffOne a := by
  by_cases hflag : a = c.flag
  · rw [hflag, stuffOne_flag]
    simp [c.esc_ne_flag.symm, c.flagSub_ne_flag.symm]
  · by_cases hesc : a = c.esc
    · rw [hesc, stuffOne_esc]
      simp [c.esc_ne_flag.symm, c.escSub_ne_flag.symm]
    · rw [c.stuffOne_of_ne hflag hesc]
      simpa using fun h => hflag h.symm

theorem flag_not_mem_stuff (s : List α) : c.flag ∉ c.stuff s := by
  induction s with
  | nil => simp
  | cons a s ih =>
      rw [stuff_cons, List.mem_append, not_or]
      exact ⟨c.flag_not_mem_stuffOne a, ih⟩

/-- Behind an escape stands a substitute, if no substitute is an escape. -/
theorem sub_of_esc (hflag : c.flagSub ≠ c.esc) (hesc : c.escSub ≠ c.esc) {s : List α} {k : ℕ}
    (hk : (c.stuff s)[k]? = some c.esc) :
    (c.stuff s)[k + 1]? = some c.flagSub ∨ (c.stuff s)[k + 1]? = some c.escSub := by
  induction s generalizing k with
  | nil => simp at hk
  | cons a s ih =>
      have hpair {b : α} (hb : b = c.flagSub ∨ b = c.escSub)
          (h : ([c.esc, b] ++ c.stuff s)[k]? = some c.esc) :
          ([c.esc, b] ++ c.stuff s)[k + 1]? = some c.flagSub ∨
            ([c.esc, b] ++ c.stuff s)[k + 1]? = some c.escSub := by
        match k with
        | 0 => exact hb.imp (congrArg some) (congrArg some)
        | 1 =>
            have heq : b = c.esc := Option.some.inj h
            rcases hb with rfl | rfl
            · exact absurd heq hflag
            · exact absurd heq hesc
        | k + 2 => exact ih h
      rw [stuff_cons] at hk ⊢
      by_cases hisFlag : a = c.flag
      · rw [hisFlag, stuffOne_flag] at hk ⊢
        exact hpair (.inl rfl) hk
      · by_cases hisEsc : a = c.esc
        · rw [hisEsc, stuffOne_esc] at hk ⊢
          exact hpair (.inr rfl) hk
        · rw [c.stuffOne_of_ne hisFlag hisEsc] at hk ⊢
          match k with
          | 0 => exact absurd (Option.some.inj hk) hisEsc
          | k + 1 => exact ih hk

theorem stuffOne_ne_nil (a : α) : c.stuffOne a ≠ [] := by
  unfold stuffOne
  split_ifs <;> simp

theorem stuff_ne_nil {s : List α} (h : s ≠ []) : c.stuff s ≠ [] := by
  cases s with
  | nil => exact absurd rfl h
  | cons a s => simp [c.stuffOne_ne_nil a]

theorem length_le_length_stuff (s : List α) : s.length ≤ (c.stuff s).length := by
  induction s with
  | nil => exact Nat.le_refl _
  | cons a s ih =>
      have hpos := List.length_pos_iff.mpr (c.stuffOne_ne_nil a)
      rw [stuff_cons, List.length_append, List.length_cons]
      omega

theorem length_stuff_le (s : List α) : (c.stuff s).length ≤ 2 * s.length := by
  induction s with
  | nil => exact Nat.le_refl _
  | cons a s ih =>
      have hone : (c.stuffOne a).length ≤ 2 := by
        unfold stuffOne
        split_ifs
        · exact Nat.le_refl 2
        · exact Nat.le_refl 2
        · exact Nat.le_succ 1
      rw [stuff_cons, List.length_append, List.length_cons]
      omega

end Code

end Stuffing
