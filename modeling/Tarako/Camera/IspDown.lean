import Tarako.Camera.IspParam

/-!
# Packets for the ISP

`ispParser(ISP_PARSER_DOWN)` as a whole: with what a command leaves in the result structure of
its caller. Each handler has a return value of its own, which takes the place of the one of
`_ispParamVerify`.
-/

namespace Tarako

namespace IspParam

/-! ## The result structure -/

def ISP_CAPTURE : UInt32 := 0x02

structure IspParserCmdParam where
  cmd : UInt32
  param : Fin 16 → UInt32

structure IspSizeInfo where
  sizeId : UInt32
  width : UInt32
  height : UInt32

def ISP_SIZE_640x480 : UInt32 := (1 : UInt32) <<< 0

def ISP_SIZE_800x600 : UInt32 := (1 : UInt32) <<< 1

def ISP_SIZE_1280x960 : UInt32 := (1 : UInt32) <<< 2

def ISP_SIZE_1280x1024 : UInt32 := (1 : UInt32) <<< 3

def ISP_SIZE_1600x1200 : UInt32 := (1 : UInt32) <<< 4

def ISP_SIZE_2048x1536 : UInt32 := (1 : UInt32) <<< 5

def ISP_SIZE_2592x1944 : UInt32 := (1 : UInt32) <<< 6

def ISP_SIZE_3264x2448 : UInt32 := (1 : UInt32) <<< 7

def sIspSizeInfo : List IspSizeInfo :=
  [⟨ISP_SIZE_640x480, 640, 480⟩,
    ⟨ISP_SIZE_800x600, 800, 600⟩,
    ⟨ISP_SIZE_1280x960, 1280, 960⟩,
    ⟨ISP_SIZE_1280x1024, 1280, 1024⟩,
    ⟨ISP_SIZE_1600x1200, 1600, 1200⟩,
    ⟨ISP_SIZE_2048x1536, 2048, 1536⟩,
    ⟨ISP_SIZE_2592x1944, 2592, 1944⟩,
    ⟨ISP_SIZE_3264x2448, 3264, 2448⟩]

/-- `_ispParserDownCmd`, which returns 0. -/
def ispParserDownCmd (inParam : Memory) (rtn : IspParserCmdParam) : IspParserCmdParam :=
  let param := inParam.shift (4 * 0x03)
  let cmd := param.load32 0
  let rtn := { rtn with cmd }
  if cmd = ISP_CAPTURE then
    let rtn := { rtn with param := Function.update rtn.param 0 (param.load32 2) }
    match sIspSizeInfo.find? fun info => info.sizeId = param.load32 3 with
    | some info =>
        { rtn with
          param := Function.update (Function.update rtn.param 1 info.width) 2 info.height }
    | none => rtn
  else rtn

/-- `_ispParserDownHnadle` with the caller's result structure, none for `NULL`. A command
writes into it unasked: none stands for the write through `NULL`. The ISP is not told about a
level. -/
def ispParserDown (s : SensorInfo) (rtn : Option IspParserCmdParam) (param : Memory) :
    Option (SensorInfo × Option IspParserCmdParam × Int) :=
  let type := param.load32 1
  let verified := ispParamVerify param
  if type = ISP_TYPE_CMD then rtn.map fun r => (s, some (ispParserDownCmd param r), 0x00)
  else if type = ISP_TYPE_PARAM then
    some ((ispParserDownParam s param).1, rtn, (ispParserDownParam s param).2)
  else if type = ISP_TYPE_LEVEL then some (s, rtn, 0x00)
  else some (s, rtn, verified)

/-- The packet is refused, and neither structure has changed. -/
def Refused (s : SensorInfo) (rtn : Option IspParserCmdParam) (param : Memory) : Prop :=
  ∃ r : Int, r ≠ 0 ∧ ispParserDown s rtn param = some (s, rtn, r)

/-! ## What a handler does -/

theorem ispGetDownParamFunV0000_eq (cmd : UInt32) :
    ispGetDownParamFunV0000 cmd =
      if cmd = ISP_PACKET_ALL then some ispSetAllParamV0000 else none := by
  have htab : (sIspFunTabV0000.takeWhile fun e => e.1 ≠ ISP_PACKET_MAX) =
      (ISP_PACKET_ALL, some ispSetAllParamV0000) ::
        (List.range 0x19).map fun i => (UInt32.ofNat (i + 1), none) := rfl
  rw [ispGetDownParamFunV0000, htab]
  by_cases hcmd : cmd = ISP_PACKET_ALL
  · rw [if_pos hcmd, List.find?_cons_of_pos (by exact decide_eq_true hcmd.symm)]
    rfl
  · rw [if_neg hcmd, List.find?_cons_of_neg (by simpa using Ne.symm hcmd)]
    rw [Option.bind_eq_none_iff]
    intro e he
    obtain ⟨i, -, rfl⟩ := List.mem_map.mp (List.mem_of_find?_eq_some he)
    rfl

/-- A tuning packet that sets the parameters of all modules. -/
def SetsAll (param : Memory) : Prop :=
  param.load32 1 = ISP_TYPE_PARAM ∧ param.load32 3 = ISP_VERSION_0000_ID ∧
    param.load32 4 = ISP_PACKET_ALL

instance (param : Memory) : Decidable (SetsAll param) := by
  unfold SetsAll
  infer_instance

def setSize (param : Memory) : ℕ := (param.load32 8 - 0x10).toNat

theorem ispParserDownParam_eq {param : Memory} (s : SensorInfo)
    (htype : param.load32 1 = ISP_TYPE_PARAM) :
    ispParserDownParam s param =
      if SetsAll param ∧ setSize param ≠ 0 then
        ({ s with tune := s.tune.copy 0 (param.shift 40) (setSize param) }.touch
          (setSize param), 0x00)
      else (s, if SetsAll param then 0x01 else 0x00) := by
  have hhead : ∀ w, (param.shift 0x0c).load32 w = param.load32 (3 + w) :=
    param.load32_shift 3
  have hlength : ((param.shift 0x0c).shift 0x0c).load32 2 = param.load32 8 := by
    rw [show (0x0c : ℕ) = 4 * 3 from rfl, Memory.load32_shift, Memory.load32_shift]
  have hdata : ((param.shift 0x0c).shift 0x0c).shift (4 * 4) = param.shift 40 := by
    funext i
    simp only [Memory.shift_apply, ← Nat.add_assoc]
  rw [ispParserDownParam, hhead, hhead, ispGetDownParamFunV0000_eq]
  by_cases hall : SetsAll param
  · obtain ⟨-, hversion, hmodule⟩ := id hall
    rw [if_pos hversion, if_pos hmodule]
    dsimp only
    have hsetSize : (param.load32 8 - 0x10).toNat = setSize param := rfl
    rw [ispSetAllParamV0000, hlength, hdata, hsetSize]
    by_cases hsize : setSize param = 0
    · rw [if_neg (not_not.mpr hsize),
        if_neg fun h : SetsAll param ∧ setSize param ≠ 0 => h.2 hsize, if_pos hall]
    · rw [if_pos hsize, if_pos (And.intro hall hsize)]
  · rw [if_neg fun h : SetsAll param ∧ setSize param ≠ 0 => hall h.1, if_neg hall]
    by_cases hversion : param.load32 3 = ISP_VERSION_0000_ID
    · have hmodule : ¬ param.load32 4 = ISP_PACKET_ALL := fun h => hall ⟨htype, hversion, h⟩
      rw [if_pos hversion, if_neg hmodule]
    · rw [if_neg hversion]

theorem setSize_eq_zero_iff (param : Memory) : setSize param = 0 ↔ param.load32 8 = 0x10 := by
  have hlt := (param.load32 8).toNat_lt
  have hlen : (0x10 : UInt32).toNat = 16 := rfl
  rw [setSize, ← UInt32.toNat_inj, UInt32.toNat_sub, hlen]
  omega

section Types

variable {rtn : Option IspParserCmdParam} {param : Memory} {s : SensorInfo}

theorem not_refused_of_cmd (htype : param.load32 1 = ISP_TYPE_CMD) : ¬ Refused s rtn param := by
  rintro ⟨r, hr, heq⟩
  rw [ispParserDown, if_pos htype] at heq
  obtain ⟨x, -, hx⟩ := Option.map_eq_some_iff.mp heq
  exact hr (congrArg (fun y => y.2.2) hx).symm

theorem not_refused_of_level (htype : param.load32 1 = ISP_TYPE_LEVEL) :
    ¬ Refused s rtn param := by
  rintro ⟨r, hr, heq⟩
  rw [ispParserDown, htype, if_neg (by decide), if_neg (by decide), if_pos rfl] at heq
  exact hr (congrArg (fun y => y.2.2) (Option.some.inj heq)).symm

/-- Of the tuning packets those for all modules are refused that have no data. -/
theorem refused_of_param_iff (htype : param.load32 1 = ISP_TYPE_PARAM) :
    Refused s rtn param ↔ SetsAll param ∧ setSize param = 0 := by
  have hcmd : ISP_TYPE_PARAM ≠ ISP_TYPE_CMD := by decide
  rw [Refused, ispParserDown, htype, if_neg hcmd, if_pos rfl, ispParserDownParam_eq s htype]
  by_cases hall : SetsAll param
  · by_cases hsize : setSize param = 0
    · rw [if_neg fun h : SetsAll param ∧ setSize param ≠ 0 => h.2 hsize, if_pos hall]
      exact iff_of_true ⟨0x01, by decide, rfl⟩ ⟨hall, hsize⟩
    · rw [if_pos (And.intro hall hsize)]
      refine iff_of_false ?_ fun h => hsize h.2
      rintro ⟨r, hr, heq⟩
      exact hr (congrArg (fun y => y.2.2) (Option.some.inj heq)).symm
  · rw [if_neg fun h : SetsAll param ∧ setSize param ≠ 0 => hall h.1, if_neg hall]
    refine iff_of_false ?_ fun h => hall h.1
    rintro ⟨r, hr, heq⟩
    exact hr (congrArg (fun y => y.2.2) (Option.some.inj heq)).symm

theorem refused_of_other (hcmd : param.load32 1 ≠ ISP_TYPE_CMD)
    (hparam : param.load32 1 ≠ ISP_TYPE_PARAM) (hlevel : param.load32 1 ≠ ISP_TYPE_LEVEL)
    (h : ispParamVerify param ≠ 0) : Refused s rtn param := by
  refine ⟨ispParamVerify param, h, ?_⟩
  rw [ispParserDown, if_neg hcmd, if_neg hparam, if_neg hlevel]

end Types

def unknownType : Memory := Memory.store32 (fun _ => 0) 1 6

def tuningWithoutIds : Memory :=
  Memory.store32 (Memory.store32 (Memory.store32 (Memory.store32 (fun _ => 1) 1 ISP_TYPE_PARAM) 3
    ISP_VERSION_0000_ID) 4 ISP_PACKET_ALL) 8 0x14

/-- A packet that does not verify is refused exactly if no handler takes it, or the one for
all modules finds no data in it. -/
theorem refused_iff (s : SensorInfo) (rtn : Option IspParserCmdParam) (param : Memory)
    (h : ispParamVerify param ≠ 0) :
    Refused s rtn param ↔
      (param.load32 1 ≠ ISP_TYPE_CMD ∧ param.load32 1 ≠ ISP_TYPE_PARAM ∧
        param.load32 1 ≠ ISP_TYPE_LEVEL) ∨ SetsAll param ∧ param.load32 8 = 0x10 := by
  rw [← setSize_eq_zero_iff]
  constructor
  · intro href
    by_cases htype : param.load32 1 = ISP_TYPE_PARAM
    · exact Or.inr ((refused_of_param_iff htype).mp href)
    · exact Or.inl ⟨fun hcmd => not_refused_of_cmd hcmd href, htype,
        fun hlevel => not_refused_of_level hlevel href⟩
  · rintro (⟨hcmd, hparam, hlevel⟩ | hset)
    · exact refused_of_other hcmd hparam hlevel h
    · exact (refused_of_param_iff hset.1.1).mpr hset

theorem refused_unknownType :
    Refused ⟨ISP_VERSION_0000_ID, fun _ => 0, 0⟩ none unknownType :=
  (refused_iff ⟨ISP_VERSION_0000_ID, fun _ => 0, 0⟩ none unknownType (by decide)).mpr
    (Or.inl (by decide))

/-- A tuning packet without the verify id and the end id is taken: its data is copied, and the
result is 0. -/
theorem tuningWithoutIds_taken :
    ispParamVerify tuningWithoutIds ≠ 0 ∧
      (ispParserDown ⟨ISP_VERSION_0000_ID, fun _ => 0, 0⟩ none tuningWithoutIds).map
        (fun r => (r.1.tune 0, r.2.2)) = some (1, 0) := by
  refine ⟨by decide, ?_⟩
  decide

end IspParam

end Tarako
