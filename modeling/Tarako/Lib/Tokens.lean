import Mathlib.Data.List.Basic

/-!
# Tokens in a table

How many entries of a table have a property, when one entry changes: the threads of a
system that hold a token, or that stand at some point of their program.
-/

namespace Tokens

variable {β : Type*} (p : β → Bool) {l : List β} {t : ℕ} {x : β}

theorem countP_set_add (h : l[t]? = some x) (y : β) :
    (l.set t y).countP p + (p x).toNat = l.countP p + (p y).toNat := by
  obtain ⟨ht, hx⟩ := List.getElem?_eq_some_iff.mp h
  have hpos : p l[t] = true → 0 < l.countP p := fun hp =>
    List.countP_pos_iff.mpr ⟨l[t], List.getElem_mem ht, hp⟩
  rw [List.countP_set ht, hx]
  rw [hx] at hpos
  cases hpx : p x with
  | true =>
      have hlt := hpos hpx
      cases p y <;> simp <;> omega
  | false => cases p y <;> simp

theorem countP_pos (h : l[t]? = some x) (hp : p x = true) : 0 < l.countP p :=
  List.countP_pos_iff.mpr ⟨x, List.mem_of_getElem? h, hp⟩

theorem not_of_countP_eq_zero (hzero : l.countP p = 0) (h : l[t]? = some x) : p x = false := by
  cases hp : p x with
  | false => rfl
  | true => exact absurd (countP_pos p h hp) (by omega)

end Tokens
