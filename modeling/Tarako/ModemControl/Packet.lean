import Tarako.Lib.Splice
import Tarako.Lib.Stuffing
import Tarako.ModemControl.Crc16

/-!
# Packets of the modem loader

The framing of `packet.c`: `translatePacket` puts a packet between two `0x7E`
flags and escapes the flags and escapes inside it, `untranslatePacket` is the
decoder run on what the modem sends back, and `setupPacket` lays a packet out in
the caller's buffer. An access outside a buffer gives `none`.
-/

namespace Tarako

namespace ModemControl

open Words Splice

/-! ## Framing -/

/-- The two `if`s of the loop of `translate_packet`. -/
def translateByte (b : UInt8) : List UInt8 :=
  if b = 0x7E then [0x7D, 0x5E]
  else if b = 0x7D then [0x7D, 0x5D]
  else [b]

/-- What `translate_packet` leaves in `dest`; its result is the length. -/
def translatePacket (src : List UInt8) : List UInt8 :=
  0x7E :: (src.flatMap translateByte ++ [0x7E])

/-- The variable `status` of `untranslate_packet`: before the flag (0), after it
(1), inside the packet (2). -/
inductive RxStatus
  | idle
  | flag
  | packet
  deriving DecidableEq, Repr

/-- The loop of `untranslate_packet`, with `dest` and `translated_size`. -/
def untranslateLoop :
    List UInt8 → RxStatus → List UInt8 → ℕ → Option (List UInt8 × ℕ)
  | [], _, dest, size => some (dest, size)
  | b :: src, .idle, dest, size =>
      if b = 0x7E then untranslateLoop src .flag dest size
      else untranslateLoop src .idle dest size
  | b :: src, .flag, dest, size =>
      if b = 0x7E then untranslateLoop src .flag dest size
      else (store? dest size [b]).bind fun dest' =>
        untranslateLoop src .packet dest' (size + 1)
  | b :: src, .packet, dest, size =>
      if b = 0x7E then
        -- the checksum is computed and dropped; its length argument is unsigned
        (crc16LCalc? dest (UInt32.ofNat size - 2)).map fun _ => (dest, size)
      else
        (dest[size - 1]?).bind fun last =>
          if last = 0x7D then
            -- only the last decoded byte tells that an escape is pending
            if b = 0x5E then
              (store? dest (size - 1) [0x7E]).bind fun dest' =>
                untranslateLoop src .packet dest' size
            else if b = 0x5D then
              (store? dest (size - 1) [0x7D]).bind fun dest' =>
                untranslateLoop src .packet dest' size
            else untranslateLoop src .packet dest size
          else (store? dest size [b]).bind fun dest' =>
            untranslateLoop src .packet dest' (size + 1)

def untranslatePacket (dest src : List UInt8) : Option (List UInt8 × ℕ) :=
  untranslateLoop src .idle dest 0

/-! ## Layout -/

inductive CmdType
  | connect
  | startData
  | midstData
  | endData
  | execData
  | normalReset
  | readFlash
  | readChipType
  | lookupNvitem
  | setBaudrate
  | eraseFlash
  | repartition
  | switchMode
  deriving DecidableEq, Repr

def CmdType.code : CmdType → UInt16
  | .connect => 0x0
  | .startData => 0x1
  | .midstData => 0x2
  | .endData => 0x3
  | .execData => 0x4
  | .normalReset => 0x5
  | .readFlash => 0x6
  | .readChipType => 0x7
  | .lookupNvitem => 0x8
  | .setBaudrate => 0x9
  | .eraseFlash => 0xA
  | .repartition => 0xB
  | .switchMode => 0xD

def BSL_REP_ACK : UInt16 := 0x80

inductive PacketFlag
  | uart
  | spi
  deriving DecidableEq, Repr

def cpu2be16 (w : UInt16) : UInt16 := ((w &&& 0xFF) <<< 8) ||| ((w >>> 8) &&& 0xFF)

def cpu2be32 (w : UInt32) : UInt32 :=
  ((w &&& 0xFF) <<< 24) ||| (((w >>> 8) &&& 0xFF) <<< 16) |||
    (((w >>> 16) &&& 0xFF) <<< 8) ||| (w >>> 24)

/-- The macro `cpu2be32` on an `int`: its last shift keeps the sign. -/
def cpu2be32Int (w : Int32) : UInt32 :=
  ((w.toUInt32 &&& 0xFF) <<< 24) ||| (((w.toUInt32 >>> 8) &&& 0xFF) <<< 16) |||
    (((w.toUInt32 >>> 16) &&& 0xFF) <<< 8) ||| (w >>> 24).toUInt32

def slice (buffer : List UInt8) (off len : ℕ) : Option (List UInt8) :=
  if off + len ≤ buffer.length then some ((buffer.drop off).take len) else none

def pktHeaderSize : ℕ := 4

/-- The UART branch of `setup_packet`, with the check it stores after the data:
none for `connect`, big-endian for the CRC, as it stands for `frm_chk`. -/
def setupUart (msg : CmdType) (check : List UInt8 → UInt16) (buffer : List UInt8)
    (dataSize : ℕ) : Option (List UInt8 × ℕ) := do
  let length := pktHeaderSize + dataSize
  let buffer ← store? buffer 4 (bytes16 (cpu2be16 msg.code))
  let buffer ← store? buffer 6 (bytes16 (cpu2be16 (UInt16.ofNat dataSize)))
  let head ← slice buffer 4 length
  let buffer ← store? buffer (length + 4) (bytes16 (check head))
  return (buffer, length + 2)

/-- The SPI branches of `setup_packet`: the length field, the command, the sum of
the data and the sum of these three, then `tail` from byte 8 on. -/
def setupSpi (msg : CmdType) (lengthField : UInt16) (tail : List UInt8) (totalSize : ℕ)
    (buffer : List UInt8) (offset dataSize : ℕ) : Option (List UInt8 × ℕ) := do
  let buffer ← store? buffer 0 (bytes16 lengthField)
  let buffer ← store? buffer 2 (bytes16 msg.code)
  let data ← slice buffer offset dataSize
  let buffer ← store? buffer 4 (bytes16 (bootChecksum data))
  let head ← slice buffer 0 6
  let buffer ← store? buffer 6 (bytes16 (bootChecksum head))
  let buffer ← store? buffer 8 tail
  return (buffer, totalSize)

/-- `setup_packet`: the buffer after the packet is laid out, and `total_size`. -/
def setupPacket (msg : CmdType) (buffer : List UInt8) (offset dataSize : ℕ) :
    PacketFlag → Option (List UInt8 × ℕ)
  | .uart =>
      match msg with
      | .connect => setupUart msg (fun _ => 0) buffer dataSize
      | .startData | .midstData | .endData | .execData =>
          setupUart msg (fun head => cpu2be16 (crc16LCalc head)) buffer dataSize
      | .switchMode => setupUart msg frmChk buffer dataSize
      | _ => some (buffer, 0)
  | .spi =>
      match msg with
      | .connect => do
          -- bytes 8 and 9 are cleared before the sums are taken
          let buffer ← store? buffer 8 [0, 0]
          setupSpi msg (UInt16.ofNat dataSize) [] 12 buffer offset dataSize
      | .startData | .execData =>
          setupSpi msg (UInt16.ofNat dataSize) [] (dataSize + 8) buffer offset dataSize
      | .midstData =>
          setupSpi msg (if dataSize = 0 then 4 else UInt16.ofNat dataSize) []
            (dataSize + 8) buffer offset dataSize
      | .endData | .switchMode =>
          setupSpi msg 4 [0, 0, 0, 0] 12 buffer offset dataSize
      | _ => some (buffer, 0)

end ModemControl

end Tarako
