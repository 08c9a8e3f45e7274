import Mathlib.Data.List.Basic

/-!
# Cyclic redundancy checks, highest bit first

The register of a check is a vector of `w` bits. A bit of the message is compared with the
bit that leaves the register at the top, and when they differ the polynomial is added. The
contents of the register and the message enter linearly, which is what a table of the
effect of whole bytes rests on, and the register fed with its own bits is empty.
-/

namespace Crc

/-- The bits of a vector, the highest first. -/
def msbFirst {n : ℕ} (x : BitVec n) : List Bool := (List.range n).map x.getMsbD

variable {w : ℕ} (p : BitVec w)

def bit (r : BitVec w) (b : Bool) : BitVec w :=
  if (r.msb ^^ b) = true then (r <<< 1) ^^^ p else r <<< 1

def bits (r : BitVec w) (message : List Bool) : BitVec w := message.foldl (bit p) r

/-- The check of a message of bytes. -/
def bytes (r : BitVec w) (message : List UInt8) : BitVec w :=
  message.foldl (fun r b => bits p r (msbFirst b.toBitVec)) r

/-- What the register shifts out only counts against the message. -/
theorem bit_xor (z s : BitVec w) (b : Bool) :
    bit p (z ^^^ s) b = bit p z (s.msb ^^ b) ^^^ (s <<< 1) := by
  unfold bit
  rw [BitVec.msb_xor, Bool.xor_assoc, BitVec.shiftLeft_xor_distrib]
  split_ifs
  · rw [BitVec.xor_assoc, BitVec.xor_comm (s <<< 1), BitVec.xor_assoc]
  · rfl

theorem bits_append (r : BitVec w) (as bs : List Bool) :
    bits p r (as ++ bs) = bits p (bits p r as) bs := List.foldl_append

theorem bytes_append (r : BitVec w) (as bs : List UInt8) :
    bytes p r (as ++ bs) = bytes p (bytes p r as) bs := List.foldl_append

theorem bytes_eq_bits (r : BitVec w) (message : List UInt8) :
    bytes p r message = bits p r (message.flatMap fun b => msbFirst b.toBitVec) := by
  induction message generalizing r with
  | nil => rfl
  | cons b message ih =>
      rw [List.flatMap_cons, bits_append]
      exact ih _

/-- A stretch of message no longer than the register: the register is moved up, and the
message is met by the bits that leave it. -/
theorem bits_eq_xor (r : BitVec w) {k : ℕ} {f g : ℕ → Bool}
    (h : ∀ j < k, g j = (r.getMsbD j ^^ f j)) :
    bits p r ((List.range k).map f) = bits p 0 ((List.range k).map g) ^^^ (r <<< k) := by
  induction k with
  | zero =>
      rw [BitVec.shiftLeft_zero]
      exact (BitVec.zero_xor).symm
  | succ k ih =>
      have hk := ih fun j hj => h j (Nat.lt_succ_of_lt hj)
      rw [List.range_succ, List.map_append, List.map_append, bits_append, bits_append, hk]
      change bit p _ (f k) = bit p _ (g k) ^^^ _
      rw [bit_xor, BitVec.msb_shiftLeft, h k (Nat.lt_succ_self k), BitVec.shiftLeft_add]

theorem bits_zero (k : ℕ) : bits p 0 ((List.range k).map fun _ => false) = 0 := by
  induction k with
  | zero => rfl
  | succ k ih =>
      rw [List.range_succ, List.map_append, bits_append, ih]
      simp [bits, bit]

theorem bits_msbFirst_self (r : BitVec w) : bits p r (msbFirst r) = 0 := by
  rw [msbFirst, bits_eq_xor p r (g := fun _ => false) fun j _ => (Bool.xor_self _).symm,
    BitVec.shiftLeft_eq_zero (Nat.le_refl w), BitVec.xor_zero, bits_zero]

/-- A message and the check behind it, if the check is sent with its highest bit first. -/
theorem bytes_append_self (r : BitVec w) {message check : List UInt8}
    (h : (check.flatMap fun b => msbFirst b.toBitVec) = msbFirst (bytes p r message)) :
    bytes p r (message ++ check) = 0 := by
  rw [bytes_append, bytes_eq_bits p _ check, h, bits_msbFirst_self]

end Crc
