import Mathlib.Data.List.Basic
import Mathlib.Data.List.Infix
import Mathlib.Data.Nat.Basic

/-!
# Blocks of a stream

`block d l j` is block `j` of the list `l` cut into pieces of `d` elements; the last
piece may be shorter.
-/

namespace Blocks

variable {α : Type*} {d : ℕ} {l : List α}

def block (d : ℕ) (l : List α) (j : ℕ) : List α := (l.drop (j * d)).take d

theorem length_block_le (d : ℕ) (l : List α) (j : ℕ) : (block d l j).length ≤ d := by
  rw [block, List.length_take]
  exact Nat.min_le_left _ _

theorem block_append_of_le {j : ℕ} (h : (j + 1) * d ≤ l.length) (m : List α) :
    block d (l ++ m) j = block d l j := by
  rw [Nat.add_mul, Nat.one_mul] at h
  rw [block, block, List.drop_append_of_le_length (by omega), List.take_append_of_le_length]
  rw [List.length_drop]
  omega

theorem block_append_of_room {j : ℕ} (hj : j * d ≤ l.length) {m : List α}
    (h : l.length + m.length ≤ (j + 1) * d) : block d (l ++ m) j = block d l j ++ m := by
  rw [Nat.add_mul, Nat.one_mul] at h
  rw [block, block, List.drop_append_of_le_length hj, List.take_of_length_le,
    List.take_of_length_le]
  · rw [List.length_drop]
    omega
  · rw [List.length_append, List.length_drop]
    omega

theorem block_of_length_le {j : ℕ} (h : l.length ≤ j * d) : block d l j = [] := by
  rw [block, List.drop_eq_nil_of_le h, List.take_nil]

theorem flatMap_block (d : ℕ) (l : List α) (j k : ℕ) :
    (List.range' j k).flatMap (block d l) = (l.drop (j * d)).take (k * d) := by
  induction k generalizing j with
  | zero => simp
  | succ k ih =>
      have hlen : (k + 1) * d = d + k * d := by rw [Nat.add_mul, Nat.one_mul, Nat.add_comm]
      rw [List.range'_succ, List.flatMap_cons, ih, hlen, List.take_add, List.drop_drop,
        Nat.add_mul, Nat.one_mul]
      rfl

/-- The blocks from block `j` on, up to one in which the list ends, are a suffix. -/
theorem flatMap_block_of_length_le {j k : ℕ} (h : l.length ≤ (j + k) * d) :
    (List.range' j k).flatMap (block d l) = l.drop (j * d) := by
  rw [flatMap_block, List.take_of_length_le]
  rw [Nat.add_mul] at h
  rw [List.length_drop]
  omega

end Blocks
