import Mathlib.Algebra.Group.Nat.Defs
import Tarako.Camera.IspDown

/-!
# Packets from the ISP

`_ispParserUpHnadle` of `isp_param_tune_com.c` has an inner packet built by the handler of its
command and packs it between a head of three words and an end. Both packets are blocks of
`ispParserAlloc` that know their size and whether every write has stayed within it. The caller
passes a cleared `isp_parser_buf_rtn`.
-/

namespace Tarako

namespace IspParam

/-! ## Blocks -/

/-- Memory of `malloc`, its size, and whether every write so far has been within it. -/
structure Block where
  mem : Memory
  size : ℕ
  within : Bool

namespace Block

def copy (b : Block) (off : ℕ) (src : Memory) (len : ℕ) : Block where
  mem := b.mem.copy off src len
  size := b.size
  within := b.within && off + len ≤ b.size

def store32 (b : Block) (w : ℕ) (v : UInt32) : Block where
  mem := b.mem.store32 w v
  size := b.size
  within := b.within && 4 * w + 4 ≤ b.size

end Block

/-- `ispParserAlloc`, for what `malloc` would return. -/
def ispParserAlloc (m : Option Memory) (size : UInt32) : Option Block :=
  if size ≠ 0 then m.map fun mem => ⟨mem, size.toNat, true⟩ else none

structure BufRtn where
  bufAddr : Option Block
  bufLen : UInt32

def BufRtn.cleared : BufRtn := ⟨none, 0⟩

/-- A new block as `write` leaves it, with its size; `other` without memory for it. -/
def allocated (m : Option Memory) (size : UInt32) (write : Block → Block) (other : BufRtn) :
    BufRtn :=
  match ispParserAlloc m size with
  | some b => ⟨some (write b), size⟩
  | none => other

/-! ## Commands -/

structure UpData where
  format : UInt32
  pattern : UInt32
  width : UInt32
  height : UInt32
  buf : Memory
  bufLen : UInt32

/-- The upload commands with what `in_param_ptr` points at. -/
inductive UpCmd where
  | param
  | prvData (d : UpData)
  | capData (d : UpData)
  | capSize (c : IspParserCmdParam)
  | mainInfo

def SENSOR_MODE_MAX : ℕ := 9

/-- `SENSOR_EXP_INFO_T` of a sensor with `raw_info_ptr`: the characters of its name, the sizes
of its modes. -/
structure ExpInfo where
  name : List UInt8
  modes : Fin SENSOR_MODE_MAX → UInt16 × UInt16
  isLoose : UInt32
  raw : SensorInfo

def ISP_DATA_YUV420_2FRAME : UInt32 := (1 : UInt32) <<< 1

def ISP_DATA_NORMAL_RAW10 : UInt32 := (1 : UInt32) <<< 2

def ISP_DATA_MIPI_RAW10 : UInt32 := (1 : UInt32) <<< 3

def ISP_DATA_JPG : UInt32 := (1 : UInt32) <<< 4

/-- `sizeof(struct isp_main_info)`: `sensor_id`, `version_id`, `preview_format`,
`preview_size`, `capture_format` and `capture_size`. -/
def MAIN_INFO_SIZE : ℕ := sizeofStruct [(1, 32), (4, 4), (4, 4), (4, 4), (4, 4), (4, 4)]

/-- The first of the known sizes with the width and height of a mode. -/
def sizeInfoOf (mode : UInt16 × UInt16) : Option IspSizeInfo :=
  sIspSizeInfo.find? fun info =>
    info.width = mode.1.toUInt32 && info.height = mode.2.toUInt32

def addCaptureSize (b : Block) (mode : UInt16 × UInt16) : Block :=
  match sizeInfoOf mode with
  | some info => b.store32 12 (b.mem.load32 12 ||| info.sizeId)
  | none => b

def previewMode : Fin SENSOR_MODE_MAX := ⟨1, by decide⟩

/-- What `_ispParserUpMainInfo` writes about a sensor. -/
def fillMainInfo (b : Block) (e : ExpInfo) : Block :=
  let b := b.copy 0 (fun i => e.name.getD i 0) (e.name.length + 1)
  let b := b.store32 8 e.raw.versionId
  let b :=
    match sizeInfoOf (e.modes previewMode) with
    | some info => b.store32 10 info.sizeId
    | none => b
  let b := (List.ofFn e.modes).foldl addCaptureSize b
  let b := b.store32 9 ISP_DATA_YUV420_2FRAME
  let b := b.store32 11 (ISP_DATA_YUV420_2FRAME ||| ISP_DATA_JPG)
  b.store32 11 (b.mem.load32 11 |||
    if e.isLoose = 0x00 then ISP_DATA_MIPI_RAW10 else ISP_DATA_NORMAL_RAW10)

/-- `_ispParserUpMainInfo`; none where it clears memory that it has not got. -/
def ispParserUpMainInfo (sensor : Option ExpInfo) (m : Option Memory) : Option (Int × BufRtn) :=
  (ispParserAlloc m (UInt32.ofNat MAIN_INFO_SIZE)).map fun b =>
    match sensor with
    | some e =>
        (0x00, ⟨some (fillMainInfo (b.copy 0 (fun _ => 0) MAIN_INFO_SIZE) e),
          UInt32.ofNat MAIN_INFO_SIZE⟩)
    | none => (0x01, .cleared)

/-- What `ispGetUpParamV0000` writes. -/
def fillParam (raw : SensorInfo) (dataLen : UInt32) (b : Block) : Block :=
  let b := b.store32 0 raw.versionId
  let b := b.store32 1 ISP_PACKET_ALL
  let b := b.store32 2 dataLen
  let b := b.store32 3 0x00
  b.copy (4 * 4) raw.tune dataLen.toNat

/-- `_ispParserUpParam` with `ispGetUpParamV0000`; none without a sensor. -/
def ispParserUpParamOf (sensor : Option ExpInfo) (m : Option Memory) : Option (Int × BufRtn) :=
  sensor.map fun e =>
    if e.raw.versionId = ISP_VERSION_0000_ID then
      let dataLen := UInt32.ofNat ispGetParamSizeV0000
      (0x00, allocated m (dataLen + 0x10) (fillParam e.raw dataLen) .cleared)
    else (0x00, .cleared)

/-- What `_ispParserUpdata` writes. -/
def fillData (d : UpData) (dataLen : UInt32) (b : Block) : Block :=
  let b := b.store32 0 dataLen
  let b := b.store32 1 d.format
  let b := b.store32 2 d.pattern
  let b := b.store32 3 d.width
  let b := b.store32 4 d.height
  b.copy (4 * 5) d.buf d.bufLen.toNat

def ispParserUpdata (d : UpData) (m : Option Memory) : Int × BufRtn :=
  let dataLen := 0x10 + d.bufLen
  (0x00, allocated m dataLen (fillData d dataLen) .cleared)

/-- What `_ispParserCapturesize` writes. -/
def fillCapturesize (c : IspParserCmdParam) (dataLen : UInt32) (b : Block) : Block :=
  let b := b.store32 0 c.cmd
  let b := b.store32 1 dataLen
  b.store32 2 (c.param ⟨0, Nat.succ_pos 15⟩)

def ispParserCapturesize (c : IspParserCmdParam) (m : Option Memory) : Int × BufRtn :=
  let dataLen : UInt32 := 0x0c
  (0x00, allocated m dataLen (fillCapturesize c dataLen) .cleared)

def innerPacket (sensor : Option ExpInfo) (m : Option Memory) : UpCmd → Option (Int × BufRtn)
  | .mainInfo => ispParserUpMainInfo sensor m
  | .param => ispParserUpParamOf sensor m
  | .prvData d => some (ispParserUpdata d m)
  | .capData d => some (ispParserUpdata d m)
  | .capSize c => some (ispParserCapturesize c m)

def ISP_TYPE_PRV_DATA : UInt32 := 0x0003

def ISP_TYPE_CAP_DATA : UInt32 := 0x0004

def ISP_TYPE_MAIN_INFO : UInt32 := 0x0005

def UpCmd.type : UpCmd → UInt32
  | .param => ISP_TYPE_PARAM
  | .prvData _ => ISP_TYPE_PRV_DATA
  | .capData _ => ISP_TYPE_CAP_DATA
  | .capSize _ => ISP_TYPE_CMD
  | .mainInfo => ISP_TYPE_MAIN_INFO

def packInto (cmd : UpCmd) (inner : BufRtn) (dataLen : UInt32) (b : Block) : Block :=
  let b := b.store32 0 ISP_PACKET_VERIFY_ID
  let b := b.store32 1 cmd.type
  let b := b.store32 2 dataLen
  -- nothing is copied from NULL: the length is then 0
  let b := b.copy (4 * 3) ((inner.bufAddr.map Block.mem).getD b.mem) inner.bufLen.toNat
  b.store32 (dataLen / 4 - 1).toNat ISP_PACKET_END_ID

/-- The packet around an inner one; without memory for it the inner one is left. -/
def outerPacket (cmd : UpCmd) (inner : BufRtn) (p : Option Memory) : BufRtn :=
  let dataLen := 0x10 + inner.bufLen
  allocated p dataLen (packInto cmd inner dataLen) inner

/-- `_ispParserUpHnadle`: `m` and `p` are what `malloc` returns for the inner packet and for
the one around it. -/
def ispParserUp (sensor : Option ExpInfo) (cmd : UpCmd) (m p : Option Memory) :
    Option (Int × BufRtn) :=
  (innerPacket sensor m cmd).map fun r =>
    if r.1 = 0x00 then (r.1, outerPacket cmd r.2 p) else r

/-- A packet that is returned verifies, records its size and has the inner packet unchanged
from byte 12 on. -/
structure Carries (packet : Block) (bufLen : UInt32) (inner : BufRtn) : Prop where
  verified : ispParamVerify packet.mem = 0
  size : packet.mem.load32 2 = bufLen
  room : 12 + inner.bufLen.toNat ≤ bufLen.toNat
  unchanged : ∀ b ∈ inner.bufAddr, ∀ i < inner.bufLen.toNat, packet.mem (12 + i) = b.mem i

/-- The command comes to an end, every write to either packet is within it, and the packet that
is returned carries the inner one. -/
def Intact (sensor : Option ExpInfo) (cmd : UpCmd) (m p : Option Memory) : Prop :=
  ∃ rtn inner, innerPacket sensor m cmd = some (rtn, inner) ∧
    (∀ b ∈ inner.bufAddr, b.within = true) ∧
      ∀ r, ispParserUp sensor cmd m p = some r → r.1 = 0 →
        ∀ packet ∈ r.2.bufAddr, packet.within = true ∧ Carries packet r.2.bufLen inner

/-- The condition: the sensor is there for its parameters, data gets no memory, the memory for
the main information is there and the name of the sensor fits into it, and an inner packet is
packed. -/
def Packs (sensor : Option ExpInfo) (m p : Option Memory) : UpCmd → Prop
  | .param =>
      ∃ e, sensor = some e ∧
        (e.raw.versionId = ISP_VERSION_0000_ID → m.isSome = true → p.isSome = true)
  | .prvData d => m = none ∨ 0x10 + d.bufLen = 0
  | .capData d => m = none ∨ 0x10 + d.bufLen = 0
  | .capSize _ => m.isSome = true → p.isSome = true
  | .mainInfo => m.isSome = true ∧ ∀ e ∈ sensor, e.name.length < MAIN_INFO_SIZE ∧ p.isSome = true

/-! ## The packet around an inner one -/

theorem ispParserAlloc_none (size : UInt32) : ispParserAlloc none size = none := by
  rw [ispParserAlloc, Option.map_none, ite_self]

theorem ispParserAlloc_some (a : Memory) {size : UInt32} (h : size ≠ 0) :
    ispParserAlloc (some a) size = some ⟨a, size.toNat, true⟩ := if_pos h

theorem allocated_none (size : UInt32) (write : Block → Block) (other : BufRtn) :
    allocated none size write other = other := by
  rw [allocated, ispParserAlloc_none]

theorem allocated_some (a : Memory) {size : UInt32} (h : size ≠ 0) (write : Block → Block)
    (other : BufRtn) :
    allocated (some a) size write other = ⟨some (write ⟨a, size.toNat, true⟩), size⟩ := by
  rw [allocated, ispParserAlloc_some a h]

theorem outerPacket_none (cmd : UpCmd) (inner : BufRtn) : outerPacket cmd inner none = inner :=
  allocated_none _ _ _

/-- An inner packet of whole words that leaves room for 16 bytes more, with every write within
it. -/
structure WellBuilt (inner : BufRtn) : Prop where
  within : ∀ b ∈ inner.bufAddr, b.within = true
  words : inner.bufLen.toNat % 4 = 0
  room : 0x10 + inner.bufLen.toNat < 2 ^ 32

theorem wellBuilt_cleared : WellBuilt .cleared where
  within := by
    rintro b ⟨⟩
  words := rfl
  room := by decide

theorem wellBuilt_mk {b : Block} {size : UInt32} (hwithin : b.within = true)
    (hwords : size.toNat % 4 = 0) (hroom : 0x10 + size.toNat < 2 ^ 32) :
    WellBuilt ⟨some b, size⟩ := by
  refine ⟨fun b' hb' => ?_, hwords, hroom⟩
  rwa [← Option.some.inj hb']

section Outer

variable {inner : BufRtn}

theorem toNat_dataLen (h : 0x10 + inner.bufLen.toNat < 2 ^ 32) :
    (0x10 + inner.bufLen).toNat = 0x10 + inner.bufLen.toNat := by
  rw [UInt32.toNat_add]
  exact Nat.mod_eq_of_lt h

/-- The end stands right behind the whole words of the inner packet. -/
theorem endWord_eq (h : 0x10 + inner.bufLen.toNat < 2 ^ 32) :
    4 * ((0x10 + inner.bufLen) / 4 - 1).toNat = 4 * 3 + inner.bufLen.toNat / 4 * 4 := by
  have hlen := toNat_dataLen h
  have hdiv : ((0x10 + inner.bufLen) / 4).toNat = (0x10 + inner.bufLen.toNat) / 4 := by
    rw [UInt32.toNat_div, hlen]
    rfl
  have hone : (1 : UInt32) ≤ (0x10 + inner.bufLen) / 4 := by
    rw [UInt32.le_iff_toNat_le, hdiv, UInt32.toNat_one]
    omega
  rw [UInt32.toNat_sub_of_le _ _ hone, hdiv, UInt32.toNat_one]
  omega

variable (h : WellBuilt inner)
include h

theorem packInto_within (cmd : UpCmd) (a : Memory) :
    (packInto cmd inner (0x10 + inner.bufLen)
      ⟨a, (0x10 + inner.bufLen).toNat, true⟩).within = true := by
  have hend := endWord_eq h.room
  have hlen := toNat_dataLen h.room
  have hwords := h.words
  simp only [packInto, Block.store32, Block.copy, Bool.true_and, Bool.and_eq_true,
    decide_eq_true_eq, hlen]
  omega

theorem carries_packInto (cmd : UpCmd) (b : Block) :
    Carries (packInto cmd inner (0x10 + inner.bufLen) b) (0x10 + inner.bufLen) inner := by
  have hend := endWord_eq h.room
  have hlen := toNat_dataLen h.room
  have hwords := h.words
  have hsize : (packInto cmd inner (0x10 + inner.bufLen) b).mem.load32 2 =
      0x10 + inner.bufLen := by
    simp only [packInto, Block.store32, Block.copy]
    rw [Memory.load32_store32_of_ne (by omega), Memory.load32_copy_of_lt (by omega),
      Memory.load32_store32]
  constructor
  · have hverify : (packInto cmd inner (0x10 + inner.bufLen) b).mem.load32 0 =
        ISP_PACKET_VERIFY_ID := by
      simp only [packInto, Block.store32, Block.copy]
      rw [Memory.load32_store32_of_ne (by omega), Memory.load32_copy_of_lt (by omega),
        Memory.load32_store32_of_ne (by omega), Memory.load32_store32_of_ne (by omega),
        Memory.load32_store32]
    have hmark : (packInto cmd inner (0x10 + inner.bufLen) b).mem.load32
        ((0x10 + inner.bufLen) / 4 - 1).toNat = ISP_PACKET_END_ID :=
      Memory.load32_store32 _ _ _
    rw [ispParamVerify, hsize, hverify, hmark]
    rfl
  · exact hsize
  · rw [hlen]
    omega
  · intro c hc i hi
    have hsrc : inner.bufAddr = some c := hc
    simp only [packInto, Block.store32, Block.copy]
    rw [Memory.store32_apply_of_lt (by omega),
      Memory.copy_apply_of_mem (by omega) (by omega), hsrc, Nat.add_sub_cancel_left]
    rfl

theorem outerPacket_some (cmd : UpCmd) (q : Memory) :
    outerPacket cmd inner (some q) =
      ⟨some (packInto cmd inner (0x10 + inner.bufLen) ⟨q, (0x10 + inner.bufLen).toNat, true⟩),
        0x10 + inner.bufLen⟩ := by
  have hne : 0x10 + inner.bufLen ≠ 0 := by
    intro h0
    have hlen := toNat_dataLen h.room
    rw [h0, UInt32.toNat_zero] at hlen
    omega
  exact allocated_some q hne _ _

end Outer

section Handler

variable {sensor : Option ExpInfo} {cmd : UpCmd} {m p : Option Memory} {inner : BufRtn}

theorem intact_of_wellBuilt (heq : innerPacket sensor m cmd = some (0, inner))
    (h : WellBuilt inner) (hp : inner.bufAddr.isSome = true → p.isSome = true) :
    Intact sensor cmd m p := by
  refine ⟨0, inner, heq, h.within, fun r hr _ packet hpacket => ?_⟩
  rw [ispParserUp, heq, Option.map_some, if_pos rfl] at hr
  obtain rfl := Option.some.inj hr
  cases p with
  | none =>
      change packet ∈ (outerPacket cmd inner none).bufAddr at hpacket
      rw [outerPacket_none] at hpacket
      exact absurd (hp (Option.isSome_of_mem hpacket)) (by decide)
  | some q =>
      change packet ∈ (outerPacket cmd inner (some q)).bufAddr at hpacket
      rw [outerPacket_some h] at hpacket
      obtain rfl := Option.some.inj hpacket
      change _ ∧ Carries _ (outerPacket cmd inner (some q)).bufLen inner
      rw [outerPacket_some h]
      exact ⟨packInto_within h cmd q, carries_packInto h cmd _⟩

theorem isSome_of_intact (heq : innerPacket sensor m cmd = some (0, inner))
    (hinner : inner.bufAddr.isSome = true) (h : Intact sensor cmd m p) : p.isSome = true := by
  cases p with
  | some q => rfl
  | none =>
      obtain ⟨rtn, inner', heq', -, hall⟩ := h
      rw [heq] at heq'
      obtain ⟨rfl, rfl⟩ := Prod.mk.inj (Option.some.inj heq')
      obtain ⟨b, hb⟩ := Option.isSome_iff_exists.mp hinner
      have hup : ispParserUp sensor cmd m none = some (0, inner) := by
        rw [ispParserUp, heq, Option.map_some, if_pos rfl, outerPacket_none]
      have hroom := (hall (0, inner) hup rfl b hb).2.room
      change 12 + inner.bufLen.toNat ≤ inner.bufLen.toNat at hroom
      omega

theorem within_of_intact {rtn : Int} (heq : innerPacket sensor m cmd = some (rtn, inner))
    (h : Intact sensor cmd m p) {b : Block} (hb : inner.bufAddr = some b) : b.within = true := by
  obtain ⟨rtn', inner', heq', hwithin, -⟩ := h
  rw [heq] at heq'
  obtain ⟨rfl, rfl⟩ := Prod.mk.inj (Option.some.inj heq')
  exact hwithin b hb

end Handler

/-! ## The inner packets -/

/-- No write has left the block that did not leave it before. -/
def Stays (b b' : Block) : Prop := b'.size = b.size ∧ b'.within = b.within

theorem Stays.trans {b b' b'' : Block} (h : Stays b b') (h' : Stays b' b'') : Stays b b'' :=
  ⟨h'.1.trans h.1, h'.2.trans h.2⟩

theorem stays_store32 {b : Block} {w : ℕ} (v : UInt32) (h : 4 * w + 4 ≤ b.size) :
    Stays b (b.store32 w v) :=
  ⟨rfl, (congrArg (b.within && ·) (decide_eq_true h)).trans (Bool.and_true _)⟩

theorem stays_addCaptureSize {b : Block} (h : b.size = MAIN_INFO_SIZE) (mode : UInt16 × UInt16) :
    Stays b (addCaptureSize b mode) := by
  rw [addCaptureSize]
  cases sizeInfoOf mode with
  | none => exact ⟨rfl, rfl⟩
  | some info => exact stays_store32 _ (h ▸ by decide)

theorem stays_foldl_addCaptureSize (modes : List (UInt16 × UInt16)) {b : Block}
    (h : b.size = MAIN_INFO_SIZE) : Stays b (modes.foldl addCaptureSize b) := by
  induction modes generalizing b with
  | nil => exact ⟨rfl, rfl⟩
  | cons mode modes ih =>
      have hstep := stays_addCaptureSize h mode
      exact hstep.trans (ih (hstep.1.trans h))

theorem stays_fillMainInfo {b : Block} (h : b.size = MAIN_INFO_SIZE) (e : ExpInfo) :
    Stays (b.copy 0 (fun i => e.name.getD i 0) (e.name.length + 1)) (fillMainInfo b e) := by
  have hstore : ∀ (b' : Block) (w : ℕ) (v : UInt32), w < 13 → b'.size = MAIN_INFO_SIZE →
      Stays b' (b'.store32 w v) := by
    intro b' w v hw hb'
    have hsize : MAIN_INFO_SIZE = 52 := rfl
    exact stays_store32 v (by omega)
  have hpreview : ∀ {b' : Block}, b'.size = MAIN_INFO_SIZE →
      Stays b' (match sizeInfoOf (e.modes previewMode) with
        | some info => b'.store32 10 info.sizeId
        | none => b') := by
    intro b' hb'
    cases sizeInfoOf (e.modes previewMode) with
    | none => exact ⟨rfl, rfl⟩
    | some info => exact hstore _ _ _ (by omega) hb'
  have h0 := hstore (b.copy 0 (fun i => e.name.getD i 0) (e.name.length + 1)) 8 e.raw.versionId
    (by omega) h
  have h1 := h0.trans (hpreview (h0.1.trans h))
  have h2 := h1.trans (stays_foldl_addCaptureSize (List.ofFn e.modes) (h1.1.trans h))
  have h3 := h2.trans (hstore _ 9 ISP_DATA_YUV420_2FRAME (by omega) (h2.1.trans h))
  have h4 := h3.trans (hstore _ 11 (ISP_DATA_YUV420_2FRAME ||| ISP_DATA_JPG) (by omega)
    (h3.1.trans h))
  exact h4.trans (hstore _ _ _ (by omega) (h4.1.trans h))

theorem fillMainInfo_within_iff (a : Memory) (e : ExpInfo) :
    (fillMainInfo ((Block.mk a MAIN_INFO_SIZE true).copy 0 (fun _ => 0) MAIN_INFO_SIZE) e).within =
      true ↔ e.name.length < MAIN_INFO_SIZE := by
  have hstays := stays_fillMainInfo
    (b := (Block.mk a MAIN_INFO_SIZE true).copy 0 (fun _ => 0) MAIN_INFO_SIZE) rfl e
  rw [hstays.2]
  simp only [Block.copy, Bool.true_and, Bool.and_eq_true, decide_eq_true_eq, Nat.zero_add,
    Nat.le_refl, true_and]
  exact Nat.succ_le_iff

section Commands

variable {sensor : Option ExpInfo} {m p : Option Memory}

theorem intact_of_cleared {cmd : UpCmd} (heq : innerPacket sensor m cmd = some (0, .cleared)) :
    Intact sensor cmd m p :=
  intact_of_wellBuilt heq wellBuilt_cleared fun h => absurd h (by decide)

theorem not_intact_of_none {cmd : UpCmd} (heq : innerPacket sensor m cmd = none) :
    ¬ Intact sensor cmd m p := by
  rintro ⟨rtn, inner, heq', -⟩
  rw [heq] at heq'
  cases heq'

theorem intact_iff_isSome {cmd : UpCmd} {inner : BufRtn}
    (heq : innerPacket sensor m cmd = some (0, inner)) (h : WellBuilt inner)
    (hinner : inner.bufAddr.isSome = true) : Intact sensor cmd m p ↔ p.isSome = true :=
  ⟨isSome_of_intact heq hinner, fun hp => intact_of_wellBuilt heq h fun _ => hp⟩

/-- The packet of a handler that writes within a block of whole words. -/
theorem intact_allocated_iff {cmd : UpCmd} {size : UInt32} {write : Block → Block}
    (heq : innerPacket sensor m cmd = some (0, allocated m size write .cleared))
    (hne : size ≠ 0) (hwords : size.toNat % 4 = 0) (hroom : 0x10 + size.toNat < 2 ^ 32)
    (hwithin : ∀ a, (write ⟨a, size.toNat, true⟩).within = true) :
    Intact sensor cmd m p ↔ (m.isSome = true → p.isSome = true) := by
  cases m with
  | none =>
      rw [allocated_none] at heq
      exact iff_of_true (intact_of_cleared heq) fun hm => absurd hm (by decide)
  | some a =>
      rw [allocated_some a hne] at heq
      rw [intact_iff_isSome heq (wellBuilt_mk (hwithin a) hwords hroom) rfl]
      exact ⟨fun hp _ => hp, fun hall => hall rfl⟩

theorem intact_param_iff : Intact sensor .param m p ↔ Packs sensor m p .param := by
  cases sensor with
  | none =>
      refine iff_of_false (not_intact_of_none rfl) ?_
      rintro ⟨e, he, -⟩
      cases he
  | some e =>
      have hpacks : Packs (some e) m p .param ↔
          (e.raw.versionId = ISP_VERSION_0000_ID → m.isSome = true → p.isSome = true) := by
        constructor
        · rintro ⟨e', he, hall⟩
          rwa [Option.some.inj he]
        · exact fun hall => ⟨e, rfl, hall⟩
      rw [hpacks]
      by_cases hversion : e.raw.versionId = ISP_VERSION_0000_ID
      · have hsize : UInt32.ofNat ispGetParamSizeV0000 = 1188 := by decide +kernel
        have heq : innerPacket (some e) m .param =
            some (0, allocated m (1188 + 0x10) (fillParam e.raw 1188) .cleared) := by
          rw [innerPacket, ispParserUpParamOf, Option.map_some, if_pos hversion, hsize]
        rw [intact_allocated_iff heq (by decide) (by decide) (by decide) fun a => rfl]
        exact ⟨fun hall _ => hall, fun hall => hall hversion⟩
      · refine iff_of_true (intact_of_cleared ?_) fun h => absurd h hversion
        rw [innerPacket, ispParserUpParamOf, Option.map_some, if_neg hversion]

theorem intact_capSize_iff (c : IspParserCmdParam) :
    Intact sensor (.capSize c) m p ↔ Packs sensor m p (.capSize c) :=
  intact_allocated_iff (Eq.refl (some (0, allocated m 0x0c (fillCapturesize c 0x0c) .cleared)))
    (by decide) (by decide) (by decide) fun a => rfl

theorem fillData_within (d : UpData) (a : Memory) :
    (fillData d (0x10 + d.bufLen) ⟨a, (0x10 + d.bufLen).toNat, true⟩).within = false := by
  have hle : (0x10 + d.bufLen).toNat ≤ 0x10 + d.bufLen.toNat := by
    rw [UInt32.toNat_add]
    exact Nat.mod_le _ _
  have hout : ¬ 4 * 5 + d.bufLen.toNat ≤ (0x10 + d.bufLen).toNat := by omega
  exact (congrArg (_ && ·) (decide_eq_false hout)).trans (Bool.and_false _)

theorem intact_updata_iff {cmd : UpCmd} (d : UpData)
    (heq : innerPacket sensor m cmd = some (ispParserUpdata d m)) :
    Intact sensor cmd m p ↔ m = none ∨ 0x10 + d.bufLen = 0 := by
  cases m with
  | none =>
      rw [ispParserUpdata, allocated_none] at heq
      exact iff_of_true (intact_of_cleared heq) (Or.inl rfl)
  | some a =>
      by_cases hzero : 0x10 + d.bufLen = 0
      · have halloc : allocated (some a) (0x10 + d.bufLen) (fillData d (0x10 + d.bufLen)) .cleared =
            .cleared := by
          rw [allocated, hzero]
          rfl
        rw [ispParserUpdata, halloc] at heq
        exact iff_of_true (intact_of_cleared heq) (Or.inr hzero)
      · rw [ispParserUpdata, allocated_some a hzero] at heq
        refine iff_of_false (fun h => ?_) (not_or.mpr ⟨Option.some_ne_none a, hzero⟩)
        have hwithin := within_of_intact heq h rfl
        rw [fillData_within] at hwithin
        cases hwithin

theorem intact_mainInfo_iff : Intact sensor .mainInfo m p ↔ Packs sensor m p .mainInfo := by
  cases m with
  | none =>
      refine iff_of_false (not_intact_of_none ?_) fun h => absurd h.1 (by decide)
      rw [innerPacket, ispParserUpMainInfo, ispParserAlloc_none, Option.map_none]
  | some a =>
      have halloc : ispParserAlloc (some a) (UInt32.ofNat MAIN_INFO_SIZE) =
          some ⟨a, MAIN_INFO_SIZE, true⟩ := ispParserAlloc_some a (by decide)
      cases sensor with
      | none =>
          have heq : innerPacket none (some a) .mainInfo = some (0x01, .cleared) := by
            rw [innerPacket, ispParserUpMainInfo, halloc, Option.map_some]
          refine iff_of_true ⟨0x01, .cleared, heq, wellBuilt_cleared.within, fun r hr hzero => ?_⟩
            ⟨rfl, fun e he => absurd he (Option.not_mem_none e)⟩
          rw [ispParserUp, heq, Option.map_some, if_neg (by decide)] at hr
          rw [← Option.some.inj hr] at hzero
          exact absurd hzero (by decide)
      | some e =>
          have heq : innerPacket (some e) (some a) .mainInfo =
              some (0x00, ⟨some (fillMainInfo ((Block.mk a MAIN_INFO_SIZE true).copy 0
                (fun _ => 0) MAIN_INFO_SIZE) e), UInt32.ofNat MAIN_INFO_SIZE⟩) := by
            rw [innerPacket, ispParserUpMainInfo, halloc, Option.map_some]
          have hpacks : Packs (some e) (some a) p .mainInfo ↔
              e.name.length < MAIN_INFO_SIZE ∧ p.isSome = true :=
            ⟨fun h => h.2 e rfl, fun h => ⟨rfl, fun e' he => Option.some.inj he ▸ h⟩⟩
          rw [hpacks]
          constructor
          · intro h
            exact ⟨(fillMainInfo_within_iff a e).mp (within_of_intact heq h rfl),
              isSome_of_intact heq rfl h⟩
          · rintro ⟨hname, hp⟩
            have hwithin := (fillMainInfo_within_iff a e).mpr hname
            exact intact_of_wellBuilt heq (wellBuilt_mk hwithin (by decide) (by decide)) fun _ => hp

end Commands

/-- An upload is intact exactly if its inner packet has been built within its memory and is
packed. -/
theorem intact_iff_packs (sensor : Option ExpInfo) (cmd : UpCmd) (m p : Option Memory) :
    Intact sensor cmd m p ↔ Packs sensor m p cmd := by
  cases cmd with
  | param => exact intact_param_iff
  | prvData d => exact intact_updata_iff d rfl
  | capData d => exact intact_updata_iff d rfl
  | capSize c => exact intact_capSize_iff c
  | mainInfo => exact intact_mainInfo_iff

/-- Four bytes of preview data are written 4 bytes past the end of their packet. -/
theorem preview_data_leaves_packet :
    ¬ Intact none (.prvData ⟨0, 0, 2, 2, fun _ => 1, 4⟩) (some fun _ => 0) (some fun _ => 0) := by
  rw [intact_updata_iff _ rfl]
  rintro (h | h)
  · cases h
  · exact absurd h (by decide)

end IspParam

end Tarako
