import Tarako.Lib.Memory

/-!
# Packets of ISP tuning parameters

`ispParser` packs the raw tuning structure of the sensor for the tool
(`ISP_PARSER_UP_PARAM`) and takes packets back (`ISP_PARSER_DOWN`). A packet is

  `verify_id || type || packet_len || packet data || end_id`,

and its data is a sub-packet

  `version_id || module_id || packet_len || module_bypass || data`.

The tuning structure is the memory from `tune_ptr` on, with what happens to lie behind
it; `touched` says how far from `tune_ptr` on that memory has been read or written.
-/

namespace Tarako

namespace IspParam

/-! ## The tuning structure -/

/-- The size of a structure from the alignment and the size of its members. -/
def sizeofStruct (members : List (ℕ × ℕ)) : ℕ :=
  let roundUp := fun n align => (n + align - 1) / align * align
  let size := members.foldl (fun size m => roundUp size m.1 + m.2) 0
  roundUp size (members.foldl (fun align m => max align m.1) 1)

/-- The members of `sensor_raw_tune_info`: 24 bypass words, then `blc`, `nlc`, `ae`, `awb`,
`bpc`, `denoise`, `grgb`, `cfa`, `cmc`, `gamma`, `cce`, `uv_div`, `pref`, `bright`,
`contrast`, `hist`, `auto_contrast`, `saturation`, `css`, `af`, `edge`, `emboss`,
`global` and `chn`. -/
def sensorRawTuneInfo : List (ℕ × ℕ) :=
  [(4, 4 * 24), (2, 4 + 4 * 2), (2, 4 * 29 * 2), (1, 4 + 16),
    (4, sizeofStruct [(2, 4), (2, 4), (2, 0x14 * 6), (2, 9 * 6), (4, 4), (2, 0x14 * 2),
      (2, 0x14 * 2), (2, 0x14 * 2), (2, 2), (4, 4), (4, 4)]),
    (2, 4 * 2), (2, 4 + 4 * 2 + 19 + 31 + 2), (2, 2 * 2), (2, 2 * 2), (2, 9 * 9 * 2 + 2),
    (2, 2 * 26 * 2), (2, 9 * 2 + 3 * 2), (1, 7 + 1), (1, 4), (1, 16), (1, 16), (2, 2 * 2 + 4),
    (1, 4), (1, 16), (1, 7 + 1 + 7 + 1), (4, 4 + 4), (1, 4), (1, 1), (4, 4), (2, 4 + 4 * 2)]

/-- `sizeof(struct sensor_raw_tune_info)`. -/
def TUNE_SIZE : ℕ := sizeofStruct sensorRawTuneInfo

theorem TUNE_SIZE_eq : TUNE_SIZE = 1172 := by decide +kernel

/-- What the parser finds at `Sensor_GetInfo()->raw_info_ptr`. -/
structure SensorInfo where
  versionId : UInt32
  tune : Memory
  touched : ℕ

/-- The first `len` bytes from `tune_ptr` on are accessed. -/
def SensorInfo.touch (s : SensorInfo) (len : ℕ) : SensorInfo :=
  { s with touched := max s.touched len }

/-! ## Constants -/

def ISP_VERSION_0000_ID : UInt32 := 0x0000

def ISP_PACKET_VERIFY_ID : UInt32 := 0x71717567

def ISP_PACKET_END_ID : UInt32 := 0x69656e64

def ISP_TYPE_CMD : UInt32 := 0x0000

def ISP_TYPE_PARAM : UInt32 := 0x0001

def ISP_TYPE_LEVEL : UInt32 := 0x0002

def ISP_PACKET_ALL : UInt32 := 0x0000

def ISP_PACKET_MAX : UInt32 := 0xFFFF

/-! ## Upload -/

/-- `isp_parser_buf_rtn`: the memory at `buf_addr`, none for `NULL`, and `buf_len`. -/
structure IspParserBufRtn where
  bufAddr : Option Memory
  bufLen : ℕ

def ispGetParamSizeV0000 : ℕ := 0x10 + TUNE_SIZE

/-- `ispGetUpParamV0000`; `m` is what its `malloc` returns. -/
def ispGetUpParamV0000 (s : SensorInfo) (m : Option Memory) : SensorInfo × IspParserBufRtn :=
  let dataLen := ispGetParamSizeV0000
  match m with
  | some dataAddr =>
      let dataAddr := dataAddr.store32 0 s.versionId
      let dataAddr := dataAddr.store32 1 ISP_PACKET_ALL
      let dataAddr := dataAddr.store32 2 (UInt32.ofNat dataLen)
      let dataAddr := dataAddr.store32 3 0x00
      (s.touch dataLen, ⟨some (dataAddr.copy (4 * 4) s.tune dataLen), dataLen + 0x10⟩)
  | none => (s, ⟨none, 0x00⟩)

/-- `_ispParserUpParam`: without a known version the caller's structure stays as it is. -/
def ispParserUpParam (s : SensorInfo) (m : Option Memory) (rtn : IspParserBufRtn) :
    SensorInfo × IspParserBufRtn :=
  if s.versionId = ISP_VERSION_0000_ID then ispGetUpParamV0000 s m else (s, rtn)

/-- `_ispParserUpHnadle` for `ISP_PARSER_UP_PARAM`, called with a cleared
`isp_parser_buf_rtn`; `m` and `p` are what the two calls of `malloc` return. -/
def ispParserUpHnadle (s : SensorInfo) (m p : Option Memory) : SensorInfo × IspParserBufRtn :=
  let r := ispParserUpParam s m ⟨none, 0x00⟩
  let dataLen := 0x10 + r.2.bufLen
  match p with
  | some dataAddr =>
      let dataAddr := dataAddr.store32 0 ISP_PACKET_VERIFY_ID
      let dataAddr := dataAddr.store32 1 ISP_TYPE_PARAM
      let dataAddr := dataAddr.store32 2 (UInt32.ofNat dataLen)
      -- nothing is copied from NULL: the length is then 0
      let dataAddr := dataAddr.copy (4 * 3) (r.2.bufAddr.getD dataAddr) r.2.bufLen
      let dataAddr := dataAddr.store32 (dataLen / 4 - 1) ISP_PACKET_END_ID
      (r.1, ⟨some dataAddr, dataLen⟩)
  | none => r

/-! ## Download -/

def ispSetAllParamV0000 (s : SensorInfo) (param : Memory) : SensorInfo × Int :=
  let packetLen := param.load32 2
  let dataLen := (packetLen - 0x10).toNat
  if dataLen ≠ 0x00 then
    ({ s with tune := s.tune.copy 0 (param.shift (4 * 4)) dataLen }.touch dataLen, 0x00)
  else (s, 0x01)

/-- `s_isp_fun_tab_v0000`: only the first of the modules has a function. -/
def sIspFunTabV0000 : List (UInt32 × Option (SensorInfo → Memory → SensorInfo × Int)) :=
  (ISP_PACKET_ALL, some ispSetAllParamV0000) ::
    (List.range 0x19).map (fun i => (UInt32.ofNat (i + 1), none)) ++ [(ISP_PACKET_MAX, none)]

def ispGetDownParamFunV0000 (cmd : UInt32) : Option (SensorInfo → Memory → SensorInfo × Int) :=
  ((sIspFunTabV0000.takeWhile fun e => e.1 ≠ ISP_PACKET_MAX).find? fun e => e.1 = cmd).bind
    fun e => e.2

def ispParserDownParam (s : SensorInfo) (inParam : Memory) : SensorInfo × Int :=
  let param := inParam.shift 0x0c
  let versionId := param.load32 0
  let moduleId := param.load32 1
  let data := param.shift 0x0c
  let fun? := if versionId = ISP_VERSION_0000_ID then ispGetDownParamFunV0000 moduleId else none
  match fun? with
  | some f => f s data
  | none => (s, 0x00)

def ispParamVerify (param : Memory) : Int :=
  let verifyId := param.load32 0
  let packetSize := param.load32 2
  let endId := param.load32 ((packetSize / 4 - 1).toNat)
  if verifyId ≠ ISP_PACKET_VERIFY_ID ∨ endId ≠ ISP_PACKET_END_ID then 0x01 else 0x00

/-- `_ispParserDownHnadle`, with what it does to the tuning structure: a command or a
level does nothing to it, and the result of the verification is lost in all three types. -/
def ispParserDownHnadle (s : SensorInfo) (param : Memory) : SensorInfo × Int :=
  let type := param.load32 1
  let rtn := ispParamVerify param
  if type = ISP_TYPE_CMD then (s, 0x00)
  else if type = ISP_TYPE_PARAM then ispParserDownParam s param
  else if type = ISP_TYPE_LEVEL then (s, 0x00)
  else (s, rtn)

/-! ## Round trips -/

/-- The upload of a tuning structure that nothing has accessed yet. -/
def upParam (versionId : UInt32) (tune : Memory) (m p : Option Memory) :
    SensorInfo × IspParserBufRtn :=
  ispParserUpHnadle ⟨versionId, tune, 0⟩ m p

/-- A packet is built, and fed back it restores the tuning structure, whatever that has
become; no access leaves the structure. -/
def RoundTrips (versionId : UInt32) (tune : Memory) (m p : Option Memory) : Prop :=
  ∃ packet, (upParam versionId tune m p).2.bufAddr = some packet ∧ ∀ changed : Memory,
    let d := (ispParserDownHnadle { (upParam versionId tune m p).1 with tune := changed } packet).1
    (∀ i < TUNE_SIZE, d.tune i = tune i) ∧ d.touched ≤ TUNE_SIZE

/-- The same of the accesses of the download alone. -/
def Restores (versionId : UInt32) (tune : Memory) (m p : Option Memory) : Prop :=
  ∃ packet, (upParam versionId tune m p).2.bufAddr = some packet ∧ ∀ changed : Memory,
    let d := (ispParserDownHnadle ⟨versionId, changed, 0⟩ packet).1
    (∀ i < TUNE_SIZE, d.tune i = tune i) ∧ d.touched ≤ TUNE_SIZE

/-- The upload of a version-0 structure when both allocations succeed. -/
def packetOf (tune : Memory) (a b : Memory) : Memory :=
  let sub := (((a.store32 0 ISP_VERSION_0000_ID).store32 1 ISP_PACKET_ALL).store32 2
    (UInt32.ofNat ispGetParamSizeV0000)).store32 3 0x00
  let packet := ((b.store32 0 ISP_PACKET_VERIFY_ID).store32 1 ISP_TYPE_PARAM).store32 2
    (UInt32.ofNat (TUNE_SIZE + 0x30))
  (packet.copy (4 * 3) (sub.copy (4 * 4) tune (TUNE_SIZE + 0x10)) (TUNE_SIZE + 0x20)).store32
    ((TUNE_SIZE + 0x30) / 4 - 1) ISP_PACKET_END_ID

theorem upParam_some (tune a b : Memory) :
    upParam ISP_VERSION_0000_ID tune (some a) (some b) =
      (⟨ISP_VERSION_0000_ID, tune, TUNE_SIZE + 0x10⟩,
        ⟨some (packetOf tune a b), TUNE_SIZE + 0x30⟩) := by
  have hsize : (0x10 : ℕ) + (0x10 + TUNE_SIZE + 0x10) = TUNE_SIZE + 0x30 := by omega
  have hdata : (0x10 : ℕ) + TUNE_SIZE = TUNE_SIZE + 0x10 := Nat.add_comm _ _
  simp only [upParam, ispParserUpHnadle, ispParserUpParam, if_true, ispGetUpParamV0000,
    SensorInfo.touch, ispGetParamSizeV0000, hsize, packetOf, Option.getD_some]
  simp [hdata]

/-! ## The packet -/

section Packet

variable (tune a b : Memory)

theorem packetOf_apply {i : ℕ} (h : 12 ≤ i) (h' : i < TUNE_SIZE + 0x2c) :
    packetOf tune a b i =
      ((((a.store32 0 ISP_VERSION_0000_ID).store32 1 ISP_PACKET_ALL).store32 2
        (UInt32.ofNat ispGetParamSizeV0000)).store32 3 0x00).copy (4 * 4) tune
          (TUNE_SIZE + 0x10) (i - 12) := by
  have hsize := TUNE_SIZE_eq
  rw [packetOf, Memory.store32_apply_of_lt (by omega),
    Memory.copy_apply_of_mem (by omega) (by omega)]

/-- The tuning structure begins at byte 28, and 16 bytes more are copied. -/
theorem packetOf_tune {j : ℕ} (h : j < TUNE_SIZE + 0x10) :
    packetOf tune a b (28 + j) = tune j := by
  rw [packetOf_apply tune a b (by omega) (by omega),
    Memory.copy_apply_of_mem (by omega) (by omega)]
  congr 1
  omega

theorem packetOf_type : (packetOf tune a b).load32 1 = ISP_TYPE_PARAM := by
  have hsize := TUNE_SIZE_eq
  rw [packetOf, Memory.load32_store32_of_ne (by omega), Memory.load32_copy_of_lt (by omega),
    Memory.load32_store32_of_ne (by omega), Memory.load32_store32]

theorem packetOf_head {w : ℕ} (h : w < 4) :
    (packetOf tune a b).load32 (3 + w) =
      ((((a.store32 0 ISP_VERSION_0000_ID).store32 1 ISP_PACKET_ALL).store32 2
        (UInt32.ofNat ispGetParamSizeV0000)).store32 3 0x00).load32 w := by
  refine Memory.load32_congr fun j hj => ?_
  rw [packetOf_apply tune a b (by omega) (by omega), Memory.copy_apply_of_lt (by omega)]
  congr 1
  omega

theorem packetOf_version : (packetOf tune a b).load32 3 = ISP_VERSION_0000_ID := by
  rw [← Nat.add_zero 3, packetOf_head tune a b (by omega),
    Memory.load32_store32_of_ne (by omega), Memory.load32_store32_of_ne (by omega),
    Memory.load32_store32_of_ne (by omega), Memory.load32_store32]

theorem packetOf_module : (packetOf tune a b).load32 4 = ISP_PACKET_ALL := by
  rw [show (4 : ℕ) = 3 + 1 from rfl, packetOf_head tune a b (by omega),
    Memory.load32_store32_of_ne (by omega), Memory.load32_store32_of_ne (by omega),
    Memory.load32_store32]

/-- Where the download looks for the length it finds word 1 of the tuning structure. -/
theorem packetOf_length : (packetOf tune a b).load32 8 = tune.load32 1 := by
  refine Memory.load32_congr fun j hj => ?_
  have hsize := TUNE_SIZE_eq
  have hoff : 4 * 8 + j = 28 + (4 * 1 + j) := by omega
  rw [hoff]
  exact packetOf_tune tune a b (by omega)

end Packet

/-! ## The download of the packet -/

/-- How many bytes the download copies: it takes word 1 of the tuning structure for the
length of the sub-packet. -/
def copied (tune : Memory) : ℕ := (tune.load32 1 - 0x10).toNat

theorem ispParserDownHnadle_packetOf (s : SensorInfo) (tune a b : Memory) :
    (ispParserDownHnadle s (packetOf tune a b)).1 =
      { s with tune := s.tune.copy 0 ((packetOf tune a b).shift 40) (copied tune) }.touch
        (copied tune) := by
  have hversion : ((packetOf tune a b).shift 0x0c).load32 0 = ISP_VERSION_0000_ID := by
    rw [show (0x0c : ℕ) = 4 * 3 from rfl, Memory.load32_shift]
    exact packetOf_version tune a b
  have hmodule : ((packetOf tune a b).shift 0x0c).load32 1 = ISP_PACKET_ALL := by
    rw [show (0x0c : ℕ) = 4 * 3 from rfl, Memory.load32_shift]
    exact packetOf_module tune a b
  have hshift : ((packetOf tune a b).shift 0x0c).shift 0x0c = (packetOf tune a b).shift 24 := by
    funext i
    rw [Memory.shift_apply, Memory.shift_apply, Memory.shift_apply, ← Nat.add_assoc]
  have hdata : ((packetOf tune a b).shift 24).shift (4 * 4) = (packetOf tune a b).shift 40 := by
    funext i
    rw [Memory.shift_apply, Memory.shift_apply, Memory.shift_apply, ← Nat.add_assoc]
  have hlength : ((packetOf tune a b).shift 24).load32 2 = tune.load32 1 := by
    rw [show (24 : ℕ) = 4 * 6 from rfl, Memory.load32_shift]
    exact packetOf_length tune a b
  have hparam : ispParserDownHnadle s (packetOf tune a b) =
      ispSetAllParamV0000 s ((packetOf tune a b).shift 24) := by
    rw [ispParserDownHnadle, packetOf_type, if_neg (by decide), if_pos rfl, ispParserDownParam]
    simp only [hversion, hmodule, hshift, if_true]
    rfl
  rw [hparam, ispSetAllParamV0000, hlength, hdata]
  by_cases hzero : copied tune = 0
  · have htest : (tune.load32 1 - 0x10).toNat = 0x00 := hzero
    rw [if_neg (not_not.mpr htest), hzero, Memory.copy_zero, SensorInfo.touch, Nat.max_zero]
  · have htest : (tune.load32 1 - 0x10).toNat ≠ 0x00 := hzero
    rw [if_pos htest]
    rfl

/-- What is behind the length is copied to the start: it is 12 bytes off. -/
theorem tune_of_download (s : SensorInfo) (tune a b : Memory) {i : ℕ} (hi : i < TUNE_SIZE) :
    (ispParserDownHnadle s (packetOf tune a b)).1.tune i =
      if i < copied tune then tune (i + 12) else s.tune i := by
  rw [ispParserDownHnadle_packetOf]
  change s.tune.copy 0 ((packetOf tune a b).shift 40) (copied tune) i = _
  by_cases h : i < copied tune
  · have hoff : 40 + (i - 0) = 28 + (i + 12) := by omega
    rw [Memory.copy_apply_of_mem (Nat.zero_le i) (by omega), Memory.shift_apply, if_pos h, hoff]
    exact packetOf_tune tune a b (by omega)
  · rw [Memory.copy_apply_of_le (by omega), if_neg h]

theorem touched_of_download (s : SensorInfo) (tune a b : Memory) :
    (ispParserDownHnadle s (packetOf tune a b)).1.touched = max s.touched (copied tune) := by
  rw [ispParserDownHnadle_packetOf]
  rfl

/-- A packet without data: the end stands where the version is looked for. -/
theorem download_of_empty (s : SensorInfo) (b : Memory) :
    (ispParserDownHnadle s ((((b.store32 0 ISP_PACKET_VERIFY_ID).store32 1 ISP_TYPE_PARAM).store32 2
      (UInt32.ofNat 0x10)).store32 3 ISP_PACKET_END_ID)).1 = s := by
  rw [ispParserDownHnadle, Memory.load32_store32_of_ne (by omega),
    Memory.load32_store32_of_ne (by omega), Memory.load32_store32, if_neg (by decide), if_pos rfl,
    ispParserDownParam, show (0x0c : ℕ) = 4 * 3 from rfl, Memory.load32_shift, Nat.add_zero,
    Memory.load32_store32]
  rfl

/-- A sub-packet alone: its module id stands where the type is looked for. -/
theorem download_of_sub (s : SensorInfo) (versionId : UInt32) (tune a : Memory) (len : ℕ) :
    (ispParserDownHnadle s (((((a.store32 0 versionId).store32 1 ISP_PACKET_ALL).store32 2
      (UInt32.ofNat len)).store32 3 0x00).copy (4 * 4) tune len)).1 = s := by
  rw [ispParserDownHnadle, Memory.load32_copy_of_lt (by omega),
    Memory.load32_store32_of_ne (by omega), Memory.load32_store32_of_ne (by omega),
    Memory.load32_store32, if_pos (by decide)]

/-- Without the version or an allocation the download changes nothing. -/
theorem download_of_other {versionId : UInt32} {tune packet : Memory} {m p : Option Memory}
    (h : ¬ (versionId = ISP_VERSION_0000_ID ∧ m.isSome ∧ p.isSome))
    (hpacket : (upParam versionId tune m p).2.bufAddr = some packet) (s : SensorInfo) :
    (ispParserDownHnadle s packet).1 = s := by
  by_cases hv : versionId = ISP_VERSION_0000_ID
  · cases m with
    | none =>
        cases p with
        | none =>
            simp [upParam, ispParserUpHnadle, ispParserUpParam, hv, ispGetUpParamV0000] at hpacket
        | some b =>
            have hempty := download_of_empty s b
            simp only [upParam, ispParserUpHnadle, ispParserUpParam, hv, ispGetUpParamV0000,
              if_true, Memory.copy_zero, Option.some.injEq] at hpacket
            rwa [hpacket] at hempty
    | some a =>
        cases p with
        | none =>
            simp only [upParam, ispParserUpHnadle, ispParserUpParam, hv, if_true,
              ispGetUpParamV0000, Option.some.injEq] at hpacket
            rw [← hpacket]
            exact download_of_sub s _ tune a _
        | some b => exact absurd ⟨hv, rfl, rfl⟩ h
  · cases p with
    | none => simp [upParam, ispParserUpHnadle, ispParserUpParam, hv] at hpacket
    | some b =>
        have hempty := download_of_empty s b
        simp only [upParam, ispParserUpHnadle, ispParserUpParam, hv, if_false,
          Memory.copy_zero, Option.some.injEq] at hpacket
        rwa [hpacket] at hempty

theorem exists_ne (tune : Memory) (i : ℕ) : ∃ changed : Memory, changed i ≠ tune i := by
  refine ⟨fun j => tune j + 1, ?_⟩
  simp

theorem not_restored_of_other {versionId : UInt32} {tune packet : Memory} {m p : Option Memory}
    (h : ¬ (versionId = ISP_VERSION_0000_ID ∧ m.isSome ∧ p.isSome))
    (hpacket : (upParam versionId tune m p).2.bufAddr = some packet) (touched : ℕ) (v : UInt32) :
    ¬ ∀ changed : Memory, ∀ i < TUNE_SIZE,
      (ispParserDownHnadle ⟨v, changed, touched⟩ packet).1.tune i = tune i := by
  intro hall
  obtain ⟨changed, hne⟩ := exists_ne tune 0
  have hsize := TUNE_SIZE_eq
  have hzero := hall changed 0 (by omega)
  rw [download_of_other h hpacket] at hzero
  exact hne hzero

theorem not_roundTrips_of_some (tune a b : Memory) :
    ¬ RoundTrips ISP_VERSION_0000_ID tune (some a) (some b) := by
  rintro ⟨packet, hpacket, hall⟩
  rw [upParam_some] at hpacket hall
  obtain rfl : packetOf tune a b = packet := Option.some.inj hpacket
  have htouched := (hall tune).2
  rw [touched_of_download] at htouched
  have hmax := Nat.le_max_left (TUNE_SIZE + 0x10) (copied tune)
  change max (TUNE_SIZE + 0x10) (copied tune) ≤ TUNE_SIZE at htouched
  omega

/-- The download alone restores a version-0 structure just when its word 1 is the length of
the sub-packet and it repeats itself every 12 bytes. -/
theorem restores_of_some_iff (tune a b : Memory) :
    Restores ISP_VERSION_0000_ID tune (some a) (some b) ↔
      copied tune = TUNE_SIZE ∧ ∀ i < TUNE_SIZE, tune (i + 12) = tune i := by
  rw [Restores, upParam_some]
  constructor
  · rintro ⟨packet, hpacket, hall⟩
    obtain rfl : packetOf tune a b = packet := Option.some.inj hpacket
    have hle : copied tune ≤ TUNE_SIZE := by
      have htouched := (hall tune).2
      rwa [touched_of_download, Nat.zero_max] at htouched
    have heq : copied tune = TUNE_SIZE := by
      by_contra hne
      obtain ⟨changed, hchanged⟩ := exists_ne tune (copied tune)
      have hbyte := (hall changed).1 (copied tune) (by omega)
      rw [tune_of_download _ _ _ _ (by omega), if_neg (Nat.lt_irrefl _)] at hbyte
      exact hchanged hbyte
    refine ⟨heq, fun i hi => ?_⟩
    have hbyte := (hall tune).1 i hi
    rwa [tune_of_download _ _ _ _ hi, if_pos (by omega)] at hbyte
  · rintro ⟨heq, hperiod⟩
    refine ⟨_, rfl, fun changed => ⟨fun i hi => ?_, ?_⟩⟩
    · rw [tune_of_download _ _ _ _ hi, if_pos (by omega)]
      exact hperiod i hi
    · refine Nat.le_of_eq ?_
      rw [touched_of_download, Nat.zero_max, heq]

theorem copied_eq_size_iff (tune : Memory) :
    copied tune = TUNE_SIZE ↔ tune.load32 1 = UInt32.ofNat (TUNE_SIZE + 0x10) := by
  rw [copied, TUNE_SIZE_eq, ← UInt32.toNat_inj]
  have hlt := (tune.load32 1).toNat_lt
  rw [UInt32.toNat_sub]
  simp
  omega

/-- The round trip never holds. The download alone restores the structure just when a packet
with it is built, its second word is the length of the sub-packet, and it is periodic. -/
theorem not_roundTrips_and_restores_iff (versionId : UInt32) (tune : Memory) (m p : Option Memory) :
    ¬ RoundTrips versionId tune m p ∧
      (Restores versionId tune m p ↔
        (versionId = ISP_VERSION_0000_ID ∧ m.isSome ∧ p.isSome) ∧
          tune.load32 1 = UInt32.ofNat (TUNE_SIZE + 0x10) ∧
            ∀ i < TUNE_SIZE, tune (i + 12) = tune i) := by
  by_cases h : versionId = ISP_VERSION_0000_ID ∧ m.isSome ∧ p.isSome
  · obtain ⟨rfl, hm, hp⟩ := h
    obtain ⟨a, rfl⟩ := Option.isSome_iff_exists.mp hm
    obtain ⟨b, rfl⟩ := Option.isSome_iff_exists.mp hp
    refine ⟨not_roundTrips_of_some tune a b, ?_⟩
    rw [restores_of_some_iff, copied_eq_size_iff]
    simp
  · constructor
    · rintro ⟨packet, hpacket, hall⟩
      exact not_restored_of_other h hpacket _ _ fun changed i hi => (hall changed).1 i hi
    · constructor
      · rintro ⟨packet, hpacket, hall⟩
        exact absurd (fun changed i hi => (hall changed).1 i hi)
          (not_restored_of_other h hpacket _ _)
      · rintro ⟨hok, -⟩
        exact absurd hok h

/-- A structure of zero bytes: 16 bytes behind it are read, and the download takes
-16 for the number of bytes to copy. -/
theorem zero_structure_not_restored :
    ¬ RoundTrips ISP_VERSION_0000_ID (fun _ => 0) (some fun _ => 0) (some fun _ => 0) ∧
      copied (fun _ => 0) = 0xFFFFFFF0 :=
  ⟨not_roundTrips_of_some _ _ _, by decide⟩

end IspParam

end Tarako
