import Tarako.Lib.Words

/-!
# Memory from a pointer on

A `Memory` is what a pointer points at: the bytes at and behind its address, at
offsets from it. `copy` is a `memcpy` into such memory, `shift` a pointer moved on,
and 32-bit words are read and written at word offsets, little-endian.
-/

open Words

/-- The bytes at and behind an address. -/
abbrev Memory : Type := ℕ → UInt8

namespace Memory

/-- The memory from `off` bytes further on. -/
def shift (m : Memory) (off : ℕ) : Memory := fun i => m (off + i)

/-- The first `len` bytes of `src` copied to offset `off`. -/
def copy (m : Memory) (off : ℕ) (src : Memory) (len : ℕ) : Memory :=
  fun i => if off ≤ i ∧ i < off + len then src (i - off) else m i

/-- The `n` bytes from offset `off` on. -/
def bytes (m : Memory) (off n : ℕ) : List UInt8 := (List.range n).map fun i => m (off + i)

/-- Word `w` of the memory. -/
def load32 (m : Memory) (w : ℕ) : UInt32 :=
  word32 (m (4 * w)) (m (4 * w + 1)) (m (4 * w + 2)) (m (4 * w + 3))

/-- Word `w` of the memory set. -/
def store32 (m : Memory) (w : ℕ) (v : UInt32) : Memory :=
  m.copy (4 * w) (fun i => (bytes32 v).getD i 0) 4

@[simp] theorem shift_apply (m : Memory) (off i : ℕ) : m.shift off i = m (off + i) := rfl

@[simp] theorem length_bytes (m : Memory) (off n : ℕ) : (m.bytes off n).length = n := by
  rw [bytes, List.length_map, List.length_range]

@[simp] theorem bytes_zero (m : Memory) (off : ℕ) : m.bytes off 0 = [] := rfl

theorem bytes_succ (m : Memory) (off n : ℕ) :
    m.bytes off (n + 1) = m off :: m.bytes (off + 1) n := by
  rw [bytes, List.range_succ_eq_map, List.map_cons, List.map_map, Nat.add_zero]
  refine congrArg (m off :: ·) (List.map_congr_left fun i _ => ?_)
  exact congrArg m (by rw [Nat.succ_eq_add_one]; omega)

theorem bytes_add (m : Memory) (off n k : ℕ) :
    m.bytes off (n + k) = m.bytes off n ++ m.bytes (off + n) k := by
  rw [bytes, List.range_add, List.map_append, List.map_map]
  refine congrArg (m.bytes off n ++ ·) (List.map_congr_left fun i _ => ?_)
  exact congrArg m (Nat.add_assoc off n i).symm

theorem bytes_congr {m m' : Memory} {off off' n : ℕ}
    (h : ∀ i < n, m (off + i) = m' (off' + i)) : m.bytes off n = m'.bytes off' n :=
  List.map_congr_left fun i hi => h i (List.mem_range.mp hi)

theorem load32_shift (m : Memory) (v w : ℕ) : (m.shift (4 * v)).load32 w = m.load32 (v + w) := by
  simp only [load32, shift_apply, Nat.mul_add, Nat.add_assoc]

theorem copy_apply_of_mem {m src : Memory} {off len i : ℕ} (h : off ≤ i) (h' : i < off + len) :
    m.copy off src len i = src (i - off) := if_pos ⟨h, h'⟩

theorem copy_apply_of_lt {m src : Memory} {off len i : ℕ} (h : i < off) :
    m.copy off src len i = m i := if_neg fun hi => absurd hi.1 (Nat.not_le.mpr h)

theorem copy_apply_of_le {m src : Memory} {off len i : ℕ} (h : off + len ≤ i) :
    m.copy off src len i = m i := if_neg fun hi => absurd hi.2 (Nat.not_lt.mpr h)

@[simp] theorem copy_zero (m src : Memory) (off : ℕ) : m.copy off src 0 = m := by
  funext i
  exact if_neg fun hi => absurd hi.2 (by omega)

/-- Two memories hold the same words where they hold the same bytes. -/
theorem load32_congr {m n : Memory} {v w : ℕ} (h : ∀ j < 4, m (4 * v + j) = n (4 * w + j)) :
    m.load32 v = n.load32 w := by
  have h0 := h 0 (by omega)
  have h1 := h 1 (by omega)
  have h2 := h 2 (by omega)
  have h3 := h 3 (by omega)
  rw [Nat.add_zero, Nat.add_zero] at h0
  rw [load32, load32, h0, h1, h2, h3]

theorem load32_store32 (m : Memory) (w : ℕ) (v : UInt32) : (m.store32 w v).load32 w = v := by
  have h : ∀ j < 4, m.store32 w v (4 * w + j) = (bytes32 v).getD j 0 := by
    intro j hj
    rw [store32, copy_apply_of_mem (by omega) (by omega), Nat.add_sub_cancel_left]
  have h0 := h 0 (by omega)
  rw [Nat.add_zero] at h0
  rw [load32, h0, h 1 (by omega), h 2 (by omega), h 3 (by omega)]
  exact word32_bytes32 v

theorem store32_apply_of_lt {m : Memory} {w : ℕ} {v : UInt32} {i : ℕ} (h : i < 4 * w) :
    m.store32 w v i = m i := copy_apply_of_lt h

theorem store32_apply_of_le {m : Memory} {w : ℕ} {v : UInt32} {i : ℕ} (h : 4 * w + 4 ≤ i) :
    m.store32 w v i = m i := copy_apply_of_le h

theorem load32_store32_of_ne {m : Memory} {u w : ℕ} {v : UInt32} (h : u ≠ w) :
    (m.store32 w v).load32 u = m.load32 u := by
  refine load32_congr fun j hj => ?_
  obtain h | h := Nat.lt_or_gt_of_ne h
  · exact store32_apply_of_lt (by omega)
  · exact store32_apply_of_le (by omega)

theorem load32_copy_of_lt {m src : Memory} {off len w : ℕ} (h : 4 * w + 4 ≤ off) :
    (m.copy off src len).load32 w = m.load32 w :=
  load32_congr fun _ hj => copy_apply_of_lt (by omega)

end Memory
