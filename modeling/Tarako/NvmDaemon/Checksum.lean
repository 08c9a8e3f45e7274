import Tarako.Lib.Words

/-!
# The checksum of the NV images

`calc_checksum` for data at an even address, as the images are: the `short` stores
of the functions that call it need an even address as well.
-/

namespace Tarako

namespace NvmDaemon

open Words

/-- The loop of `calc_checksum` over words, and the odd last byte. -/
def checksumLoop : List UInt8 → UInt32 → UInt32
  | a :: b :: dat, checksum => checksumLoop dat (checksum + (word16 a b).toUInt32)
  | [a], checksum => checksum + a.toUInt32
  | [], checksum => checksum

/-- `calc_checksum(dat, len)`, with the `len` bytes of `dat` as the argument. -/
def calcChecksum (dat : List UInt8) : UInt16 :=
  let checksum := checksumLoop dat 0
  let checksum := (checksum >>> 16) + (checksum &&& 0xFFFF)
  let checksum := checksum + (checksum >>> 16)
  ~~~ checksum.toUInt16

end NvmDaemon

end Tarako
