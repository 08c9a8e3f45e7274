import Tarako.Lib.Words

/-!
# Checksums of the modem loader

The three checks of `crc16.c`: the bitwise CRC of the UART packets
(`crc16LCalc`), the word sum of the switch-mode packet (`frmChk`) and the word
sum of the SPI packets (`bootChecksum`). A check reads `len` bytes from its
buffer; `crc16LCalc?` has no result when the buffer ends before that.
-/

namespace Tarako

namespace ModemControl

open Words

def CRC_16_POLYNOMIAL : UInt16 := 0x1021

def CRC_16_L_POLYNOMIAL : UInt16 := 0x8000

/-- One turn of the inner loop of `crc_16_l_calc`, for the bit `i` of a byte. -/
def crc16LBit (byte : UInt8) (crc : UInt16) (i : UInt8) : UInt16 :=
  let shifted :=
    if crc &&& CRC_16_L_POLYNOMIAL ≠ 0 then (crc <<< 1) ^^^ CRC_16_POLYNOMIAL
    else crc <<< 1
  if byte &&& i ≠ 0 then shifted ^^^ CRC_16_POLYNOMIAL else shifted

/-- The bits `i` of the inner loop: from `CRC_16_L_SEED` down by `i >> 1`. -/
def crc16LBits : List UInt8 := [0x80, 0x40, 0x20, 0x10, 0x08, 0x04, 0x02, 0x01]

def crc16LByte (crc : UInt16) (byte : UInt8) : UInt16 :=
  crc16LBits.foldl (crc16LBit byte) crc

/-- `crc_16_l_calc` over the bytes of its buffer. -/
def crc16LCalc (buf : List UInt8) : UInt16 := buf.foldl crc16LByte 0

/-- `crc_16_l_calc(buf_ptr, len)` with the unsigned 32-bit `len` of the call. -/
def crc16LCalc? (buf : List UInt8) (len : UInt32) : Option UInt16 :=
  if len.toNat ≤ buf.length then some (crc16LCalc (buf.take len.toNat)) else none

/-- The two carries folded in at the end of a word sum, and its complement. -/
def foldSum (sum : UInt32) : UInt16 :=
  let once := (sum >>> 16) + (sum &&& 0xFFFF)
  ~~~ (once + (once >>> 16)).toUInt16

/-- The sum of `frm_chk`: two words a turn, then the one to three bytes left. -/
def frmChkSum : List UInt8 → UInt32 → UInt32
  | a :: b :: c :: d :: rest, sum =>
      frmChkSum rest (sum + (word16 a b).toUInt32 + (word16 c d).toUInt32)
  | [a, b, c], sum => sum + (word16 a b).toUInt32 + c.toUInt32
  | [a, b], sum => sum + (word16 a b).toUInt32
  | [a], sum => sum + a.toUInt32
  | [], sum => sum

def frmChk (src : List UInt8) : UInt16 := foldSum (frmChkSum src 0)

/-- The sum of `boot_checksum`: the words, then the odd last byte. -/
def bootChecksumSum : List UInt8 → UInt32 → UInt32
  | a :: b :: rest, sum => bootChecksumSum rest (sum + (word16 a b).toUInt32)
  | [a], sum => sum + a.toUInt32
  | [], sum => sum

def bootChecksum (src : List UInt8) : UInt16 := foldSum (bootChecksumSum src 0)

end ModemControl

end Tarako
