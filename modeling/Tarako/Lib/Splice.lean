import Mathlib.Data.List.Basic
import Mathlib.Data.Nat.Basic

/-!
# Writing over a list at an offset

`splice m off d` is the list `m` after `d` has been copied over it from position
`off` on, the effect of a `memcpy` on an array or of a positioned write on a
file. A `Buffer α n` is an array of fixed size `n`: the size is carried as a
field, so a copy that would run past the end has no result (`Buffer.write?`).
-/

namespace Splice

/-- `m` with `d` copied over it from position `off` on. -/
def splice {α : Type*} (m : List α) (off : ℕ) (d : List α) : List α :=
  m.take off ++ (d ++ m.drop (off + d.length))

@[simp] theorem splice_nil {α : Type*} (m : List α) (off : ℕ) :
    splice m off [] = m := by
  simp [splice]

theorem length_splice {α : Type*} {m d : List α} {off : ℕ}
    (h : off + d.length ≤ m.length) : (splice m off d).length = m.length := by
  simp only [splice, List.length_append, List.length_take, List.length_drop]
  omega

theorem take_splice {α : Type*} {m d : List α} {off : ℕ} (h : off ≤ m.length) :
    (splice m off d).take (off + d.length) = m.take off ++ d := by
  have hlen : (m.take off ++ d).length = off + d.length := by
    rw [List.length_append, List.length_take, Nat.min_eq_left h]
  rw [splice, ← List.append_assoc, ← hlen, List.take_left]

theorem getElem?_splice_of_le {α : Type*} {m d : List α} {off i : ℕ}
    (h : off + d.length ≤ m.length) (hi : off + d.length ≤ i) :
    (splice m off d)[i]? = m[i]? := by
  have htake : (m.take off).length = off := by
    rw [List.length_take]
    omega
  rw [splice, List.getElem?_append_right (by omega), List.getElem?_append_right (by omega),
    List.getElem?_drop, htake]
  congr 1
  omega

theorem take_splice_of_le {α : Type*} {m d : List α} {off n : ℕ} (hn : n ≤ off)
    (h : off ≤ m.length) : (splice m off d).take n = m.take n := by
  have hlen : n ≤ (m.take off).length := by
    rw [List.length_take]
    omega
  rw [splice, List.take_append_of_le_length hlen, List.take_take, Nat.min_eq_left hn]

theorem getElem?_splice_of_lt {α : Type*} {m d : List α} {off i : ℕ} (hi : i < off)
    (h : off ≤ m.length) : (splice m off d)[i]? = m[i]? := by
  rw [← List.getElem?_take_of_lt (Nat.lt_succ_self i), take_splice_of_le hi h,
    List.getElem?_take_of_lt (Nat.lt_succ_self i)]

theorem take_drop_splice {α : Type*} {m d : List α} {off : ℕ} (h : off ≤ m.length) :
    ((splice m off d).drop off).take d.length = d := by
  have hlen : (m.take off).length = off := List.length_take_of_le h
  rw [splice, List.drop_left' hlen, List.take_left]

theorem take_drop_splice_add {α : Type*} {m d : List α} {k off n : ℕ}
    (hd : off + d.length ≤ n) (hm : k + n ≤ m.length) :
    ((splice m (off + k) d).drop k).take n = splice ((m.drop k).take n) off d := by
  have hhead : ((m.take (off + k)).drop k).length = off := by
    rw [List.length_drop, List.length_take]
    omega
  have hk : k ≤ (m.take (off + k)).length := by
    rw [List.length_take]
    omega
  have htake : (m.take (off + k)).drop k = ((m.drop k).take n).take off := by
    rw [List.drop_take, Nat.add_sub_cancel, List.take_take, Nat.min_eq_left (by omega)]
  have hdrop : (m.drop (off + k + d.length)).take (n - off - d.length) =
      ((m.drop k).take n).drop (off + d.length) := by
    rw [List.drop_take, List.drop_drop, Nat.sub_sub]
    congr 2
    omega
  have hsplit : (splice m (off + k) d).drop k =
      (m.take (off + k)).drop k ++ (d ++ m.drop (off + k + d.length)) := by
    rw [splice, List.drop_append_of_le_length hk]
  have hwhole : d.take (n - off) = d := List.take_of_length_le (by omega)
  rw [hsplit, List.take_append, List.take_of_length_le (by omega), hhead, List.take_append,
    hwhole, hdrop, htake, splice]

/-- A copy right behind the known part of an array, into the rest of it. -/
theorem splice_append_replicate {α : Type*} {p d : List α} {a : α} {k : ℕ} :
    splice (p ++ List.replicate (d.length + k) a) p.length d =
      p ++ d ++ List.replicate k a := by
  rw [splice, List.take_left, List.drop_append, List.drop_replicate]
  simp

/-- Two copies next to each other are one copy of the two pieces together. -/
theorem splice_append_of_le {α : Type*} {m a b : List α} {off : ℕ} (h : off ≤ m.length) :
    splice (splice m off a) (off + a.length) b = splice m off (a ++ b) := by
  have hlen : (m.take off ++ a).length = off + a.length := by
    simp only [List.length_append, List.length_take]
    omega
  have hleft : (splice m off a).take (off + a.length) = m.take off ++ a := by
    rw [splice, ← List.append_assoc, ← hlen, List.take_left]
  have hright : (splice m off a).drop (off + a.length + b.length) =
      m.drop (off + a.length + b.length) := by
    rw [splice, ← List.append_assoc, ← List.drop_drop, ← hlen, List.drop_left, hlen,
      List.drop_drop]
  rw [splice, hleft, hright, splice]
  simp only [List.append_assoc, List.length_append, Nat.add_assoc]

theorem splice_append {α : Type*} {m a b : List α} {off : ℕ}
    (h : off + a.length ≤ m.length) :
    splice (splice m off a) (off + a.length) b = splice m off (a ++ b) :=
  splice_append_of_le (Nat.le_of_add_right_le h)

theorem splice_zero_of_length_le {α : Type*} {m d : List α}
    (h : m.length ≤ d.length) : splice m 0 d = d := by
  simp [splice, List.drop_eq_nil_of_le h]

/-- `splice` for a copy that must stay inside the list. -/
def store? {α : Type*} (m : List α) (off : ℕ) (d : List α) : Option (List α) :=
  if off + d.length ≤ m.length then some (splice m off d) else none

theorem store?_eq_some_iff {α : Type*} {m d m' : List α} {off : ℕ} :
    store? m off d = some m' ↔ off + d.length ≤ m.length ∧ splice m off d = m' := by
  by_cases h : off + d.length ≤ m.length
  · simp [store?, h]
  · simp [store?, h]

/-- A write to a file at position `pos`: the file grows as it must, and a gap before
`pos` is filled with `pad`. -/
def writeAt {α : Type*} (pad : α) (m : List α) (pos : ℕ) (d : List α) : List α :=
  if d = [] then m else splice (m ++ List.replicate (pos - m.length) pad) pos d

@[simp] theorem writeAt_nil {α : Type*} (pad : α) (m : List α) (pos : ℕ) :
    writeAt pad m pos [] = m := by
  simp [writeAt]

theorem writeAt_append {α : Type*} (pad : α) (m a b : List α) (pos : ℕ) :
    writeAt pad (writeAt pad m pos a) (pos + a.length) b = writeAt pad m pos (a ++ b) := by
  by_cases ha : a = []
  · rw [ha, writeAt_nil, List.length_nil, Nat.add_zero, List.nil_append]
  · by_cases hb : b = []
    · rw [hb, writeAt_nil, List.append_nil]
    · have hle : pos ≤ (m ++ List.replicate (pos - m.length) pad).length := by
        rw [List.length_append, List.length_replicate]
        omega
      have hlen : pos + a.length ≤
          (splice (m ++ List.replicate (pos - m.length) pad) pos a).length := by
        rw [splice, List.length_append, List.length_append, List.length_take,
          Nat.min_eq_left hle]
        omega
      have hne : a ++ b ≠ [] := fun h => ha (List.append_eq_nil_iff.mp h).1
      rw [writeAt, if_neg hb, writeAt, if_neg ha, writeAt, if_neg hne, Nat.sub_eq_zero_of_le hlen,
        List.replicate_zero, List.append_nil]
      exact splice_append_of_le hle

/-- A write that starts where the known part `r` of a file ends makes that part
longer. -/
theorem take_drop_writeAt {α : Type*} (pad : α) {m r : List α} {off : ℕ}
    (h : (m.drop off).take r.length = r) (d : List α) :
    ((writeAt pad m (off + r.length) d).drop off).take (r ++ d).length = r ++ d := by
  by_cases hd : d = []
  · simpa [hd] using h
  · have hlen : r.length ≤ m.length - off := by
      have hle := congrArg List.length h
      rw [List.length_take, List.length_drop] at hle
      omega
    have hhead : ((m ++ List.replicate (off + r.length - m.length) pad).take
        (off + r.length)).drop off = r := by
      rw [List.drop_take, Nat.add_sub_cancel_left]
      by_cases hr : r = []
      · simp [hr]
      · have hpos := List.length_pos_iff.mpr hr
        rw [List.drop_append_of_le_length (by omega),
          List.take_append_of_le_length (by rw [List.length_drop]; exact hlen), h]
    have hsize : off ≤ ((m ++ List.replicate (off + r.length - m.length) pad).take
        (off + r.length)).length := by
      simp only [List.length_take, List.length_append, List.length_replicate]
      omega
    rw [writeAt, if_neg hd, splice, List.drop_append_of_le_length hsize, hhead,
      ← List.append_assoc, List.take_left]

theorem writeAt_zero_of_length_le {α : Type*} (pad : α) {m d : List α} (h : m.length ≤ d.length) :
    writeAt pad m 0 d = d := by
  by_cases hd : d = []
  · rw [hd] at h ⊢
    rw [writeAt_nil]
    exact List.length_eq_zero_iff.mp (Nat.le_zero.mp h)
  · rw [writeAt, if_neg hd, Nat.zero_sub, List.replicate_zero, List.append_nil]
    exact splice_zero_of_length_le h

theorem prefix_writeAt_zero {α : Type*} (pad : α) (m d : List α) :
    d <+: writeAt pad m 0 d := by
  by_cases hd : d = []
  · rw [hd]
    exact List.nil_prefix
  · rw [writeAt, if_neg hd, splice, List.take_zero, List.nil_append]
    exact List.prefix_append _ _

end Splice

/-! # Arrays of a fixed size -/

/-- An array of `n` elements, as the list of its elements. -/
structure Buffer (α : Type*) (n : ℕ) where
  bytes : List α
  size_eq : bytes.length = n

namespace Buffer

open Splice

variable {α : Type*} {n : ℕ}

@[ext] theorem ext {a b : Buffer α n} (h : a.bytes = b.bytes) : a = b := by
  cases a
  cases b
  cases h
  rfl

/-- Every element set to `a`, as `memset` leaves an array. -/
def fill (n : ℕ) (a : α) : Buffer α n := ⟨List.replicate n a, List.length_replicate⟩

/-- Copy `d` to a position where it is known to fit. -/
def write (b : Buffer α n) (off : ℕ) (d : List α) (h : off + d.length ≤ n) : Buffer α n :=
  ⟨splice b.bytes off d, by rw [length_splice (by rw [b.size_eq]; exact h), b.size_eq]⟩

/-- Copy `d` to position `off`; no result when the copy leaves the array. -/
def write? (b : Buffer α n) (off : ℕ) (d : List α) : Option (Buffer α n) :=
  if h : off + d.length ≤ n then some (b.write off d h) else none

/-- The first `n` elements of `d` copied to the start, the rest unchanged. -/
def load (b : Buffer α n) (d : List α) : Buffer α n :=
  ⟨splice b.bytes 0 (d.take n), by
    rw [length_splice, b.size_eq]
    rw [b.size_eq, List.length_take]
    omega⟩

/-- One element replaced. -/
def set (b : Buffer α n) (i : ℕ) (a : α) : Buffer α n :=
  ⟨b.bytes.set i a, by rw [List.length_set, b.size_eq]⟩

theorem write?_eq_none_iff (b : Buffer α n) (off : ℕ) (d : List α) :
    b.write? off d = none ↔ n < off + d.length := by
  by_cases h : off + d.length ≤ n
  · simp [write?, h]
  · simp [write?, h]
    omega

theorem write?_eq_some_iff (b c : Buffer α n) (off : ℕ) (d : List α) :
    b.write? off d = some c ↔
      off + d.length ≤ n ∧ c.bytes = splice b.bytes off d := by
  by_cases h : off + d.length ≤ n
  · simp only [write?, h, dite_true, Option.some.injEq, true_and]
    constructor
    · rintro rfl
      rfl
    · intro hc
      exact ext hc.symm
  · simp [write?, h]

theorem take_write_of_le {b : Buffer α n} {off k : ℕ} {d : List α} (h : off + d.length ≤ n)
    (hk : k ≤ off) : (b.write off d h).bytes.take k = b.bytes.take k :=
  take_splice_of_le hk (by rw [b.size_eq]; omega)

theorem load_take (b : Buffer α n) (d : List α) : b.load (d.take n) = b.load d := by
  simp only [load, List.take_take, Nat.min_self]

theorem load_bytes_of_length {b : Buffer α n} {d : List α} (h : n ≤ d.length) :
    (b.load d).bytes = d.take n := by
  have hlen : (d.take n).length = n := by
    simp only [List.length_take]
    omega
  exact splice_zero_of_length_le (Nat.le_of_eq (b.size_eq.trans hlen.symm))

end Buffer

namespace Splice

abbrev Bytes (n : ℕ) := Buffer UInt8 n

end Splice
