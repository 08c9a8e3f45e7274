import Mathlib.Data.UInt
import Tarako.Lib.Hex
import Tarako.Lib.Reader
import Tarako.Lib.Text

/-!
# The Bluetooth pskey text

`parser_pskey_info` reads the values of `pskey_bt.txt` from a text. A cursor runs over the
text; each number is copied digit by digit into a buffer of ten bytes on the stack and
read from there by `strtoul`.
-/

namespace Tarako.Bluetooth

open Hex Text TextReader

/-! ### The configuration -/

/-- The fields of `BT_PSKEY_CONFIG_T`, of 8, 16 and 32 bits. -/
structure PskeyConfig (α β γ : Type) where
  gDbgSourceSinkSynTestData : α
  gSysSleepInStandbySupported : α
  gSysSleepMasterSupported : α
  gSysSleepSlaveSupported : α
  defaultAhbClk : γ
  deviceClass : γ
  winExt : γ
  gAGainValue : Vector γ 6
  gAPowerValue : Vector γ 5
  featureSet : Vector α 16
  deviceAddr : Vector α 6
  gSysScoTransmitMode : α
  gSysUart0CommunicationSupported : α
  edrTxEdrDelay : α
  edrRxEdrDelay : α
  abcspRxcrcSupported : α
  abcspTxcrcSupported : α
  shareMemoRxBaseAddr : γ
  shareMemoTxBaseAddr : γ
  shareMemoTxPacketNumAddr : γ
  shareMemoTxDataBaseAddr : γ
  gPrintLevel : γ
  shareMemoTxBlockLength : β
  shareMemoRxBlockLength : β
  shareMemoTxWaterMark : β
  shareMemoTxTimeoutValue : β
  uartRxWatermark : β
  uartFlowControlThld : β
  compId : γ
  uartClkDivd : β
  pcmClkDivd : β
  debugBbTxGain : β
  debugTxPower : β
  txChannelCompensate : γ
  ctrlReserved : β
  reserved16 : β
  reserved : Vector γ 10
  deriving DecidableEq

namespace PskeyConfig

variable {α β γ α' β' γ' : Type}

def map (f : α → α') (g : β → β') (h : γ → γ') (c : PskeyConfig α β γ) :
    PskeyConfig α' β' γ' where
  gDbgSourceSinkSynTestData := f c.gDbgSourceSinkSynTestData
  gSysSleepInStandbySupported := f c.gSysSleepInStandbySupported
  gSysSleepMasterSupported := f c.gSysSleepMasterSupported
  gSysSleepSlaveSupported := f c.gSysSleepSlaveSupported
  defaultAhbClk := h c.defaultAhbClk
  deviceClass := h c.deviceClass
  winExt := h c.winExt
  gAGainValue := c.gAGainValue.map h
  gAPowerValue := c.gAPowerValue.map h
  featureSet := c.featureSet.map f
  deviceAddr := c.deviceAddr.map f
  gSysScoTransmitMode := f c.gSysScoTransmitMode
  gSysUart0CommunicationSupported := f c.gSysUart0CommunicationSupported
  edrTxEdrDelay := f c.edrTxEdrDelay
  edrRxEdrDelay := f c.edrRxEdrDelay
  abcspRxcrcSupported := f c.abcspRxcrcSupported
  abcspTxcrcSupported := f c.abcspTxcrcSupported
  shareMemoRxBaseAddr := h c.shareMemoRxBaseAddr
  shareMemoTxBaseAddr := h c.shareMemoTxBaseAddr
  shareMemoTxPacketNumAddr := h c.shareMemoTxPacketNumAddr
  shareMemoTxDataBaseAddr := h c.shareMemoTxDataBaseAddr
  gPrintLevel := h c.gPrintLevel
  shareMemoTxBlockLength := g c.shareMemoTxBlockLength
  shareMemoRxBlockLength := g c.shareMemoRxBlockLength
  shareMemoTxWaterMark := g c.shareMemoTxWaterMark
  shareMemoTxTimeoutValue := g c.shareMemoTxTimeoutValue
  uartRxWatermark := g c.uartRxWatermark
  uartFlowControlThld := g c.uartFlowControlThld
  compId := h c.compId
  uartClkDivd := g c.uartClkDivd
  pcmClkDivd := g c.pcmClkDivd
  debugBbTxGain := g c.debugBbTxGain
  debugTxPower := g c.debugTxPower
  txChannelCompensate := h c.txChannelCompensate
  ctrlReserved := g c.ctrlReserved
  reserved16 := g c.reserved16
  reserved := c.reserved.map h

def toList (f : α → α') (g : β → α') (h : γ → α') (c : PskeyConfig α β γ) : List α' :=
    f c.gDbgSourceSinkSynTestData :: f c.gSysSleepInStandbySupported ::
    f c.gSysSleepMasterSupported :: f c.gSysSleepSlaveSupported :: h c.defaultAhbClk ::
    h c.deviceClass :: h c.winExt :: (c.gAGainValue.toList.map h ++ (c.gAPowerValue.toList.map h ++
    (c.featureSet.toList.map f ++ (c.deviceAddr.toList.map f ++ f c.gSysScoTransmitMode ::
    f c.gSysUart0CommunicationSupported :: f c.edrTxEdrDelay :: f c.edrRxEdrDelay ::
    f c.abcspRxcrcSupported :: f c.abcspTxcrcSupported :: h c.shareMemoRxBaseAddr ::
    h c.shareMemoTxBaseAddr :: h c.shareMemoTxPacketNumAddr :: h c.shareMemoTxDataBaseAddr ::
    h c.gPrintLevel :: g c.shareMemoTxBlockLength :: g c.shareMemoRxBlockLength ::
    g c.shareMemoTxWaterMark :: g c.shareMemoTxTimeoutValue :: g c.uartRxWatermark ::
    g c.uartFlowControlThld :: h c.compId :: g c.uartClkDivd :: g c.pcmClkDivd ::
    g c.debugBbTxGain :: g c.debugTxPower :: h c.txChannelCompensate :: g c.ctrlReserved ::
    g c.reserved16 :: (c.reserved.toList.map h ++ [])))))

end PskeyConfig

abbrev BtPskeyConfig := PskeyConfig UInt8 UInt16 UInt32

/-! ### The parser -/

def comma : UInt8 := 44

def openBrace : UInt8 := 123

def closeBrace : UInt8 := 125

/-- `down_bt_is_space` -/
def isSeparator (c : UInt8) : Bool :=
  c == 10 || c == comma || c == 13 || c == 32 || c == openBrace || c == closeBrace

def strstrip (s : List UInt8) : List UInt8 := s.dropWhile isSeparator

def skipComma : List UInt8 → List UInt8
  | [] => []
  | c :: s =>
      if c = 0 then c :: s
      else if c = comma then s
      else if c = closeBrace then c :: s
      else skipComma s

def getOneDigit (ptr : List UInt8) : List UInt8 :=
  match ptr with
  | 48 :: x :: rest =>
      if x = 120 ∨ x = 88 then 48 :: 120 :: rest.takeWhile isHexDigit
      else ptr.takeWhile isDigit
  | _ => ptr.takeWhile isDigit

/-- The cursor, and what the calls of `get_one_digit` so far have left in `data`. -/
structure Scan where
  buff : List UInt8
  calls : List (List UInt8)
  deriving DecidableEq

def dataSize : ℕ := 10

/-- The common part of `get_next_u32`, `get_next_u16` and `get_next_u8`. The entry `n` of
`behind` is the memory behind `data` in call `n`. A text that makes `get_one_digit` write
behind `data` is not followed. -/
def getNext (behind : ℕ → List UInt8) : StateT Scan Option ℕ := fun s =>
  let ptr := strstrip s.buff
  let written := getOneDigit ptr
  if dataSize < written.length then none
  else
    let data := written ++ List.replicate (dataSize - written.length) 0
    some (strtoul16 (data ++ behind s.calls.length), ⟨skipComma ptr, s.calls ++ [data]⟩)

section

variable (behind : ℕ → List UInt8)

def getNextU32 : StateT Scan Option UInt32 := UInt32.ofNat <$> getNext behind

def getNextU16 : StateT Scan Option UInt16 := UInt16.ofNat <$> getNext behind

def getNextU8 : StateT Scan Option UInt8 := UInt8.ofNat <$> getNext behind

def parseFields : StateT Scan Option BtPskeyConfig := do
  let gDbgSourceSinkSynTestData ← getNextU8 behind
  let gSysSleepInStandbySupported ← getNextU8 behind
  let gSysSleepMasterSupported ← getNextU8 behind
  let gSysSleepSlaveSupported ← getNextU8 behind
  let defaultAhbClk ← getNextU32 behind
  let deviceClass ← getNextU32 behind
  let winExt ← getNextU32 behind
  let gAGainValue ← array (getNextU32 behind) 6
  let gAPowerValue ← array (getNextU32 behind) 5
  let featureSet ← array (getNextU8 behind) 16
  let deviceAddr ← array (getNextU8 behind) 6
  let gSysScoTransmitMode ← getNextU8 behind
  let gSysUart0CommunicationSupported ← getNextU8 behind
  let edrTxEdrDelay ← getNextU8 behind
  let edrRxEdrDelay ← getNextU8 behind
  let abcspRxcrcSupported ← getNextU8 behind
  let abcspTxcrcSupported ← getNextU8 behind
  let shareMemoRxBaseAddr ← getNextU32 behind
  let shareMemoTxBaseAddr ← getNextU32 behind
  let shareMemoTxPacketNumAddr ← getNextU32 behind
  let shareMemoTxDataBaseAddr ← getNextU32 behind
  let gPrintLevel ← getNextU32 behind
  let shareMemoTxBlockLength ← getNextU16 behind
  let shareMemoRxBlockLength ← getNextU16 behind
  let shareMemoTxWaterMark ← getNextU16 behind
  let shareMemoTxTimeoutValue ← getNextU16 behind
  let uartRxWatermark ← getNextU16 behind
  let uartFlowControlThld ← getNextU16 behind
  let compId ← getNextU32 behind
  let uartClkDivd ← getNextU16 behind
  let pcmClkDivd ← getNextU16 behind
  let debugBbTxGain ← getNextU16 behind
  let debugTxPower ← getNextU16 behind
  let txChannelCompensate ← getNextU32 behind
  let ctrlReserved ← getNextU16 behind
  let reserved16 ← getNextU16 behind
  let reserved ← array (getNextU32 behind) 10
  return {
    gDbgSourceSinkSynTestData, gSysSleepInStandbySupported, gSysSleepMasterSupported,
    gSysSleepSlaveSupported, defaultAhbClk, deviceClass, winExt, gAGainValue, gAPowerValue,
    featureSet, deviceAddr, gSysScoTransmitMode, gSysUart0CommunicationSupported, edrTxEdrDelay,
    edrRxEdrDelay, abcspRxcrcSupported, abcspTxcrcSupported, shareMemoRxBaseAddr,
    shareMemoTxBaseAddr, shareMemoTxPacketNumAddr, shareMemoTxDataBaseAddr, gPrintLevel,
    shareMemoTxBlockLength, shareMemoRxBlockLength, shareMemoTxWaterMark, shareMemoTxTimeoutValue,
    uartRxWatermark, uartFlowControlThld, compId, uartClkDivd, pcmClkDivd, debugBbTxGain,
    debugTxPower, txChannelCompensate, ctrlReserved, reserved16, reserved }

/-- `parser_pskey_info` on the memory from `buff` on; `none` when a brace is missing. -/
def parserPskeyInfo (buff : List UInt8) : Option (BtPskeyConfig × Scan) := do
  let (_, buff) ← cutAt closeBrace buff
  let (_, buff) ← cutAt openBrace buff
  parseFields behind ⟨buff, []⟩

end

/-! ### The documented form -/

/-- A number as it is written, `0x` and the digits, and the separators behind it. -/
structure Number where
  digits : List UInt8
  separators : List UInt8
  digits_spec : ∀ b ∈ digits, isHexDigit b
  length_digits : 1 ≤ digits.length ∧ digits.length ≤ 8
  separators_spec : ∀ b ∈ separators, isSeparator b
  /-- A comma or the brace behind an array or the block. -/
  ends : comma ∈ separators ∨ closeBrace ∈ separators

def Number.text (n : Number) : List UInt8 := 48 :: 120 :: (n.digits ++ n.separators)

/-- A number that fits into a field of `w` bits. -/
def Literal (w : ℕ) : Type := {n : Number // value 0 n.digits < 2 ^ w}

/-- A text in the documented form: a declaration up to the first closing brace, a block
with the numbers in the order of the fields, and whatever follows. -/
structure PskeyText where
  declaration : List UInt8
  /-- The text between the declaration and the block. -/
  label : List UInt8
  /-- What stands before the first number. -/
  lead : List UInt8
  numbers : PskeyConfig (Literal 8) (Literal 16) (Literal 32)
  tail : List UInt8
  declaration_spec : closeBrace ∉ declaration ∧ 0 ∉ declaration
  label_spec : openBrace ∉ label ∧ 0 ∉ label
  lead_spec : ∀ b ∈ lead, isSeparator b

namespace PskeyText

def toNumbers (t : PskeyText) : List Number :=
  t.numbers.toList (·.val) (·.val) (·.val)

def text (t : PskeyText) : List UInt8 :=
  t.declaration ++ closeBrace :: (t.label ++ openBrace ::
    (t.lead ++ (t.toNumbers.flatMap Number.text ++ t.tail)))

def config (t : PskeyText) : BtPskeyConfig :=
  t.numbers.map (fun n => UInt8.ofNat (value 0 n.val.digits))
    (fun n => UInt16.ofNat (value 0 n.val.digits)) (fun n => UInt32.ofNat (value 0 n.val.digits))

end PskeyText

/-! ### One number -/

/-- The bytes at which `down_bt_skip_comma` stops. -/
def Stops (c : UInt8) : Prop := c = 0 ∨ c = comma ∨ c = closeBrace

theorem skipComma_append {l : List UInt8} (h : ∀ b ∈ l, ¬ Stops b) (m : List UInt8) :
    skipComma (l ++ m) = skipComma m := by
  induction l with
  | nil => rfl
  | cons c l ih =>
    have hc := h c (List.mem_cons_self ..)
    simp only [Stops, not_or] at hc
    rw [List.cons_append, skipComma, if_neg hc.1, if_neg hc.2.1, if_neg hc.2.2]
    exact ih fun b hb => h b (List.mem_cons_of_mem _ hb)

/-- The search for the end of a number stops within the separators behind it. -/
theorem skipComma_separators {l : List UInt8} (hsep : ∀ b ∈ l, isSeparator b)
    (hends : comma ∈ l ∨ closeBrace ∈ l) (m : List UInt8) :
    ∃ lead, (∀ b ∈ lead, isSeparator b) ∧ skipComma (l ++ m) = lead ++ m := by
  induction l with
  | nil => simp at hends
  | cons c l ih =>
    have hl : ∀ b ∈ l, isSeparator b := fun b hb => hsep b (List.mem_cons_of_mem _ hb)
    have hzero : c ≠ 0 := by
      rintro rfl
      exact absurd (hsep 0 (List.mem_cons_self ..)) (by decide)
    rw [List.cons_append, skipComma, if_neg hzero]
    by_cases hcomma : c = comma
    · exact ⟨l, hl, by rw [if_pos hcomma]⟩
    · by_cases hbrace : c = closeBrace
      · exact ⟨c :: l, hsep, by rw [if_neg hcomma, if_pos hbrace]; rfl⟩
      · rw [if_neg hcomma, if_neg hbrace]
        refine ih hl ?_
        simpa [Ne.symm hcomma, Ne.symm hbrace] using hends

def Number.data (n : Number) : List UInt8 :=
  48 :: 120 :: (n.digits ++ List.replicate (8 - n.digits.length) 0)

/-- The number leaves room for the NUL. -/
def Number.Short (n : Number) : Prop := n.digits.length ≤ 7

theorem not_stops_of_isHexDigit {b : UInt8} (h : isHexDigit b) : ¬ Stops b := by
  rintro (rfl | rfl | rfl) <;> exact absurd h (by decide)

theorem isHexDigit_of_isSeparator {b : UInt8} (h : isSeparator b) : isHexDigit b = false := by
  simp only [isSeparator, Bool.or_eq_true, beq_iff_eq] at h
  rcases h with ((((rfl | rfl) | rfl) | rfl) | rfl) | rfl <;> decide

theorem Number.separators_eq_cons (n : Number) :
    ∃ c l, n.separators = c :: l ∧ isSeparator c := by
  cases h : n.separators with
  | nil =>
    have hends := n.ends
    simp [h] at hends
  | cons c l => exact ⟨c, l, rfl, n.separators_spec c (by simp [h])⟩

theorem getOneDigit_text (n : Number) (m : List UInt8) :
    getOneDigit (n.text ++ m) = 48 :: 120 :: n.digits := by
  obtain ⟨c, l, hl, hc⟩ := n.separators_eq_cons
  have htake := takeWhile_isHexDigit_append n.digits_spec (isHexDigit_of_isSeparator hc) (l ++ m)
  rw [Number.text, hl]
  simp only [List.cons_append, List.append_assoc, getOneDigit, true_or, if_true, htake]

theorem skipComma_text (n : Number) (m : List UInt8) :
    ∃ lead, (∀ b ∈ lead, isSeparator b) ∧ skipComma (n.text ++ m) = lead ++ m := by
  have hnumber : ∀ b ∈ 48 :: 120 :: n.digits, ¬ Stops b := by
    intro b hb
    simp only [List.mem_cons] at hb
    rcases hb with rfl | rfl | hb
    · rintro (h | h | h) <;> exact absurd h (by decide)
    · rintro (h | h | h) <;> exact absurd h (by decide)
    · exact not_stops_of_isHexDigit (n.digits_spec b hb)
  have htext : n.text ++ m = (48 :: 120 :: n.digits) ++ (n.separators ++ m) := by
    simp [Number.text]
  rw [htext, skipComma_append hnumber]
  exact skipComma_separators n.separators_spec n.ends m

theorem strstrip_text {lead : List UInt8} (hlead : ∀ b ∈ lead, isSeparator b) (n : Number)
    (m : List UInt8) : strstrip (lead ++ (n.text ++ m)) = n.text ++ m := by
  rw [strstrip, List.dropWhile_append_of_pos hlead]
  rfl

/-- A short number is read from `data` whatever stands behind it. -/
theorem strtoul16_data {n : Number} (h : n.Short) (m : List UInt8) :
    strtoul16 (n.data ++ m) = value 0 n.digits := by
  obtain ⟨k, hk⟩ : ∃ k, 8 - n.digits.length = k + 1 := ⟨7 - n.digits.length, by
    rw [Number.Short] at h
    omega⟩
  rw [Number.data, hk, List.replicate_succ]
  simpa using strtoul16_append n.digits_spec n.length_digits.2 zero_not_isHexDigit
    (List.replicate k 0 ++ m)

/-- The numbers `ns` are still to be read, and with them the calls will have left `all`. -/
def Next (tail : List UInt8) (all : List (List UInt8)) (ns : List Number) (s : Scan) : Prop :=
  (∃ lead, (∀ b ∈ lead, isSeparator b) ∧ s.buff = lead ++ (ns.flatMap Number.text ++ tail)) ∧
    s.calls ++ ns.map Number.data = all

variable (tail : List UInt8) (all : List (List UInt8)) (behind : ℕ → List UInt8)

theorem reads_getNext (n : Number) :
    Reads (Next tail all) Number.Short (getNext behind) [n] (· = value 0 n.digits) := by
  rintro ns ⟨buff, calls⟩ ⟨⟨lead, hlead, hbuff⟩, hcalls⟩
  change buff = _ at hbuff
  have hptr : strstrip buff = n.text ++ (ns.flatMap Number.text ++ tail) := by
    rw [hbuff, ← strstrip_text hlead]
    simp
  obtain ⟨lead', hlead', hskip⟩ := skipComma_text n (ns.flatMap Number.text ++ tail)
  have hlength := n.length_digits.2
  have hdata : 48 :: 120 :: n.digits ++ List.replicate (dataSize - (n.digits.length + 2)) 0
      = n.data := by
    rw [Number.data, dataSize, show 10 - (n.digits.length + 2) = 8 - n.digits.length by omega]
    rfl
  refine ⟨strtoul16 (n.data ++ behind calls.length),
    ⟨skipComma (n.text ++ (ns.flatMap Number.text ++ tail)), calls ++ [n.data]⟩, ?_,
    ⟨⟨lead', hlead', hskip⟩, ?_⟩, fun hshort => ?_⟩
  · simp only [getNext, hptr, getOneDigit_text, List.length_cons]
    rw [if_neg (by rw [dataSize]; omega), hdata]
  · simpa using hcalls
  · exact strtoul16_data (hshort n (List.mem_singleton_self n)) _

theorem reads_u8 (n : Literal 8) :
    Reads (Next tail all) Number.Short (getNextU8 behind) [n.val]
      (· = UInt8.ofNat (value 0 n.val.digits)) :=
  (reads_getNext tail all behind n.val).map fun _ h => congrArg UInt8.ofNat h

theorem reads_u16 (n : Literal 16) :
    Reads (Next tail all) Number.Short (getNextU16 behind) [n.val]
      (· = UInt16.ofNat (value 0 n.val.digits)) :=
  (reads_getNext tail all behind n.val).map fun _ h => congrArg UInt16.ofNat h

theorem reads_u32 (n : Literal 32) :
    Reads (Next tail all) Number.Short (getNextU32 behind) [n.val]
      (· = UInt32.ofNat (value 0 n.val.digits)) :=
  (reads_getNext tail all behind n.val).map fun _ h => congrArg UInt32.ofNat h

theorem reads_parseFields (t : PskeyText) :
    Reads (Next tail all) Number.Short (parseFields behind) t.toNumbers (· = t.config) := by
  have h8 := reads_u8 tail all behind
  have h16 := reads_u16 tail all behind
  have h32 := reads_u32 tail all behind
  iterate 4 refine .bind (h8 _) fun _ => ?_
  iterate 3 refine .bind (h32 _) fun _ => ?_
  iterate 2 refine .bind (.array _ _ h32 _) fun _ => ?_
  iterate 2 refine .bind (.array _ _ h8 _) fun _ => ?_
  iterate 6 refine .bind (h8 _) fun _ => ?_
  iterate 5 refine .bind (h32 _) fun _ => ?_
  iterate 6 refine .bind (h16 _) fun _ => ?_
  refine .bind (h32 _) fun _ => ?_
  iterate 4 refine .bind (h16 _) fun _ => ?_
  refine .bind (h32 _) fun _ => ?_
  iterate 2 refine .bind (h16 _) fun _ => ?_
  refine .bind (.array _ _ h32 _) fun _ => ?_
  refine .pure ?_
  intros
  subst_vars
  rfl

/-! ### The text is parsed back -/

/-- The parser stores the value of the text, and each of its calls of `get_one_digit` has
left a number that ends within `data`. -/
def ParsesBack (behind : ℕ → List UInt8) (t : PskeyText) : Prop :=
  ∃ s, parserPskeyInfo behind t.text = some (t.config, s) ∧ ∀ data ∈ s.calls, 0 ∈ data

theorem parserPskeyInfo_text (t : PskeyText) :
    parserPskeyInfo behind t.text = parseFields behind
      ⟨t.lead ++ (t.toNumbers.flatMap Number.text ++ t.tail), []⟩ := by
  rw [parserPskeyInfo, PskeyText.text, cutAt_append t.declaration_spec.1 t.declaration_spec.2]
  change (cutAt openBrace (t.label ++ openBrace :: _) >>= _) = _
  rw [cutAt_append t.label_spec.1 t.label_spec.2]
  rfl

/-- Every text is read to its last number; the calls have left the digits of the numbers. -/
theorem exists_parserPskeyInfo (t : PskeyText) :
    ∃ c s, parserPskeyInfo behind t.text = some (c, s) ∧
      s.calls = t.toNumbers.map Number.data ∧ ((∀ n ∈ t.toNumbers, n.Short) → c = t.config) := by
  obtain ⟨c, s, hrun, ⟨-, hcalls⟩, hc⟩ := reads_parseFields t.tail (t.toNumbers.map Number.data)
    behind t [] ⟨t.lead ++ (t.toNumbers.flatMap Number.text ++ t.tail), []⟩
    ⟨⟨t.lead, t.lead_spec, by simp⟩, by simp⟩
  exact ⟨c, s, by rw [parserPskeyInfo_text, hrun], by simpa using hcalls, hc⟩

theorem zero_mem_data_iff (n : Number) : 0 ∈ n.data ↔ n.Short := by
  have hdigits : 0 ∉ n.digits := fun h => by
    have h0 := n.digits_spec 0 h
    rw [zero_not_isHexDigit] at h0
    cases h0
  have hlength := n.length_digits.2
  simp only [Number.data, Number.Short, List.mem_cons, List.mem_append, List.mem_replicate, hdigits]
  simp
  omega

/-- A text is parsed back exactly when no number has eight digits: such a number leaves no
room for the NUL behind it. -/
theorem parsesBack_iff (t : PskeyText) :
    ParsesBack behind t ↔ ∀ n ∈ t.toNumbers, n.digits.length ≤ 7 := by
  obtain ⟨c, s, hrun, hcalls, hc⟩ := exists_parserPskeyInfo behind t
  constructor
  · rintro ⟨s', hrun', hdata⟩ n hn
    obtain ⟨-, rfl⟩ := Prod.mk.inj (Option.some.inj (hrun.symm.trans hrun'))
    exact (zero_mem_data_iff n).mp (hdata n.data (hcalls ▸ List.mem_map_of_mem hn))
  · intro hshort
    refine ⟨s, hc hshort ▸ hrun, fun data hdata => ?_⟩
    obtain ⟨n, hn, rfl⟩ := List.mem_map.mp (hcalls ▸ hdata)
    exact (zero_mem_data_iff n).mpr (hshort n hn)

/-- `0x0,` -/
def zeroNumber : Number where
  digits := [48]
  separators := [comma]
  digits_spec := by decide +kernel
  length_digits := by decide
  separators_spec := by decide +kernel
  ends := by decide

/-- `0x018CBA80,`, as in the file that comes with the program. -/
def ahbClkNumber : Number where
  digits := ofAscii "018CBA80".toList
  separators := [comma]
  digits_spec := by decide +kernel
  length_digits := by decide
  separators_spec := by decide +kernel
  ends := by decide

def ahbClkText : PskeyText :=
  let zero8 : Literal 8 := ⟨zeroNumber, by decide⟩
  let zero16 : Literal 16 := ⟨zeroNumber, by decide⟩
  let zero32 : Literal 32 := ⟨zeroNumber, by decide⟩
  { declaration := ofAscii "typedef struct \x7b".toList
    label := ofAscii " BT_PSKEY_CONFIG_INFO_T;\nvalue:\n".toList
    lead := ofAscii "\n".toList
    numbers :=
      { gDbgSourceSinkSynTestData := zero8
        gSysSleepInStandbySupported := zero8
        gSysSleepMasterSupported := zero8
        gSysSleepSlaveSupported := zero8
        defaultAhbClk := ⟨ahbClkNumber, by decide⟩
        deviceClass := zero32
        winExt := zero32
        gAGainValue := .replicate 6 zero32
        gAPowerValue := .replicate 5 zero32
        featureSet := .replicate 16 zero8
        deviceAddr := .replicate 6 zero8
        gSysScoTransmitMode := zero8
        gSysUart0CommunicationSupported := zero8
        edrTxEdrDelay := zero8
        edrRxEdrDelay := zero8
        abcspRxcrcSupported := zero8
        abcspTxcrcSupported := zero8
        shareMemoRxBaseAddr := zero32
        shareMemoTxBaseAddr := zero32
        shareMemoTxPacketNumAddr := zero32
        shareMemoTxDataBaseAddr := zero32
        gPrintLevel := zero32
        shareMemoTxBlockLength := zero16
        shareMemoRxBlockLength := zero16
        shareMemoTxWaterMark := zero16
        shareMemoTxTimeoutValue := zero16
        uartRxWatermark := zero16
        uartFlowControlThld := zero16
        compId := zero32
        uartClkDivd := zero16
        pcmClkDivd := zero16
        debugBbTxGain := zero16
        debugTxPower := zero16
        txChannelCompensate := zero32
        ctrlReserved := zero16
        reserved16 := zero16
        reserved := .replicate 10 zero32 }
    tail := ofAscii "\x7d\n".toList
    declaration_spec := by decide
    label_spec := by decide
    lead_spec := by decide +kernel }

/-- Where the stack goes on with a digit, another clock is stored. -/
theorem ahbClk_not_parsed_back :
    (parserPskeyInfo (fun _ => [53]) ahbClkText.text).map (·.1.defaultAhbClk) = some 0x18CBA805 ∧
      ahbClkText.config.defaultAhbClk = 0x018CBA80 ∧ ¬ ParsesBack (fun _ => [53]) ahbClkText := by
  have hstored : (parserPskeyInfo (fun _ => [53]) ahbClkText.text).map (·.1.defaultAhbClk)
      = some 0x18CBA805 := by
    decide +kernel
  have hvalue : ahbClkText.config.defaultAhbClk = 0x018CBA80 := by decide
  refine ⟨hstored, hvalue, ?_⟩
  rintro ⟨s, hrun, -⟩
  rw [hrun, Option.map_some, hvalue] at hstored
  exact absurd hstored (by decide)

end Tarako.Bluetooth
