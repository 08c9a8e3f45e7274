import Mathlib.Data.List.Basic

/-!
# Words in little-endian memory

The bytes of 16-bit and 32-bit words in the order a little-endian machine stores
them, and the words read back from them.
-/

namespace Words

/-- The two bytes of a 16-bit word, low byte first. -/
def bytes16 (v : UInt16) : List UInt8 :=
  [UInt8.ofNat v.toNat, UInt8.ofNat (v.toNat / 256)]

/-- The four bytes of a 32-bit word, low byte first. -/
def bytes32 (v : UInt32) : List UInt8 :=
  [UInt8.ofNat v.toNat, UInt8.ofNat (v.toNat / 256), UInt8.ofNat (v.toNat / 65536),
    UInt8.ofNat (v.toNat / 16777216)]

/-- The 16-bit word stored as `a`, `b`. -/
def word16 (a b : UInt8) : UInt16 := UInt16.ofNat (a.toNat + 256 * b.toNat)

/-- The 32-bit word stored as `a`, `b`, `c`, `d`. -/
def word32 (a b c d : UInt8) : UInt32 :=
  UInt32.ofNat (a.toNat + 256 * b.toNat + 65536 * c.toNat + 16777216 * d.toNat)

@[simp] theorem length_bytes16 (v : UInt16) : (bytes16 v).length = 2 := rfl

@[simp] theorem length_bytes32 (v : UInt32) : (bytes32 v).length = 4 := rfl

theorem word16_bytes16 (v : UInt16) :
    word16 (UInt8.ofNat v.toNat) (UInt8.ofNat (v.toNat / 256)) = v := by
  apply UInt16.toNat_inj.mp
  have hv := v.toNat_lt
  simp only [word16, UInt16.toNat_ofNat', UInt8.toNat_ofNat']
  omega

theorem word32_bytes32 (v : UInt32) :
    word32 (UInt8.ofNat v.toNat) (UInt8.ofNat (v.toNat / 256))
      (UInt8.ofNat (v.toNat / 65536)) (UInt8.ofNat (v.toNat / 16777216)) = v := by
  apply UInt32.toNat_inj.mp
  have hv := v.toNat_lt
  simp only [word32, UInt32.toNat_ofNat', UInt8.toNat_ofNat']
  omega

end Words
