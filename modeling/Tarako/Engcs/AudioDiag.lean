import Mathlib.Data.Finset.Basic
import Tarako.Engcs.AtTok
import Tarako.Engcs.DiagReply
import Tarako.Lib.Run

/-!
# Audio parameters over the diag port

`eng_diag` takes the requests `AT+SADM4AP` and `AT+SPENHA` and, while `g_is_data` says that
one of them waits for data, the hexadecimal data itself. The index of the audio mode is
stored by one frame, before it is checked; the flag for the data is set by another, and the
length of the data comes with a third. `safe_iff_meets` says which runs store inside
`audio_total`, `tun_data` and the mapped file.
-/

namespace Tarako

namespace Engcs

open Text

def MAX_AUDIO_VOLUME_MODE_COUNT : ℤ := 4

def DIAG_CMD_AUDIO : UInt8 := 0x68

/-! ## The structures -/

/-- `AUDIO_NV_ARM_MODE_STRUCT_T`, `AUDIO_ENHA_EQ_STRUCT_T` and `tun_data`. -/
inductive AudioStruct where
  | nvArmMode
  | enhaEq
  | tunData
  deriving DecidableEq

def AudioStruct.size : AudioStruct → ℕ
  | .nvArmMode => 2784
  | .enhaEq => 544
  | .tunData => 376

/-- The flags of `g_is_data`, in the order in which `eng_diag_audio` looks at them. -/
inductive DataFlag where
  | nvArmDataMemory
  | nvArmDataFlash
  | enhaDataMemory
  | enhaDataFlash
  | enhaTunDataMemory
  deriving DecidableEq

def DataFlag.all : List DataFlag :=
  [.nvArmDataMemory, .nvArmDataFlash, .enhaDataMemory, .enhaDataFlash, .enhaTunDataMemory]

def DataFlag.target : DataFlag → AudioStruct
  | .nvArmDataMemory => .nvArmMode
  | .nvArmDataFlash => .nvArmMode
  | .enhaDataMemory => .enhaEq
  | .enhaDataFlash => .enhaEq
  | .enhaTunDataMemory => .tunData

/-- The memory of the process, or the parameter file that is mapped for the call. -/
inductive Place where
  | memory
  | mapped
  deriving DecidableEq

/-- `count` bytes stored from the start of a structure, with `g_index` at that time. -/
structure AudioWrite where
  place : Place
  target : AudioStruct
  index : ℤ
  count : ℕ
  deriving DecidableEq

def AudioWrite.InBounds (w : AudioWrite) : Prop :=
  0 ≤ w.index ∧ w.index < MAX_AUDIO_VOLUME_MODE_COUNT ∧ w.count ≤ w.target.size

/-- `ascii2bin`: how many bytes its loop stores, one for two characters of `src`. For the
size `2 ^ 32 - 1` the loop has no end, and this is what it stores before `count` is 0
again. -/
def ascii2bin : ℕ → ℕ
  | 0 => 0
  | 1 => 1
  | size + 2 => ascii2bin size + 1

/-! ## State and requests -/

/-- The statics of `eng_diag.c`, the stores so far, and whether a NULL pointer or a failed
mapping has been read. -/
structure AudioDiag where
  gIsData : Finset DataFlag
  gIndex : ℤ
  cmdType : ℤ
  eqOrTunType : ℤ
  eqModeSelType : ℤ
  writes : List AudioWrite
  crashed : Bool

def AudioDiag.start : AudioDiag := ⟨∅, 0, 0, 0, 0, [], false⟩

/-- A frame, the memory behind `ext_data_buf`, and whether the parameter file can be
mapped. -/
structure AudioEvent where
  frame : DiagFrame
  after : List UInt8
  mapped : Bool

def AudioEvent.ptr (e : AudioEvent) : List UInt8 := cstring ((e.frame.buf ++ e.after).drop 9)

/-- `wlen`, as the `unsigned long` that `ascii2bin` takes. -/
def AudioEvent.wlen (e : AudioEvent) : ℕ := ((readHead e.frame.buf).len + (2 ^ 32 - 9)) % 2 ^ 32

def atSadm : List UInt8 := ofAscii "AT+SADM4AP".toList

def atSpenha : List UInt8 := ofAscii "AT+SPENHA".toList

def isUpper (b : UInt8) : Bool := 65 ≤ b && b ≤ 90

/-- The test that takes a text for data. -/
def isData (ptr : List UInt8) : Bool :=
  !(ofAscii "AT".toList).isPrefixOf ptr && (isDigit (ptr.headD 0) || isUpper (ptr.headD 0))

/-- `*ptr - '0'`. -/
def charValue (rest : List UInt8) : ℤ := (rest.headD 0).toNat - 48

def firstInt (ptr : List UInt8) : NextInt := atTokNextint (atTokEquelStart (some ptr))

/-- The second number of `AT+SPENHA`. -/
def secondInt (ptr : List UInt8) : NextInt := atTokNextint (firstInt ptr).cur

/-- The third number of `AT+SPENHA`. -/
def thirdInt (ptr : List UInt8) : NextInt := atTokNextint (secondInt ptr).cur

namespace AudioDiag

/-- The command of `AT+SADM4AP`; without a parameter it is the last one. -/
def sadmCmd (s : AudioDiag) (ptr : List UInt8) : ℤ := (firstInt ptr).stored.getD s.cmdType

def spenhaCmd (s : AudioDiag) (ptr : List UInt8) : ℤ := (secondInt ptr).stored.getD s.cmdType

/-- The index that `AT+SPENHA` stores in `g_index`, counted from 1. -/
def spenhaIndex (s : AudioDiag) (ptr : List UInt8) : ℤ := (thirdInt ptr).stored.getD s.gIndex

/-- The branch of `is_audio_at_cmd_need_to_handle` for `AT+SADM4AP`. -/
def sadm (s : AudioDiag) (ptr : List UInt8) : Option (AudioDiag × Bool) :=
  let s := { s with cmdType := s.sadmCmd ptr }
  if ¬ (7 ≤ s.cmdType ∧ s.cmdType ≤ 12) then some (s, false)
  else if s.cmdType = 7 then some (s, true)
  else
    match (firstInt ptr).cur with
    | none => none
    | some rest =>
        -- the index stays stored when the request is turned down
        some ({ s with gIndex := charValue rest },
          decide (charValue rest < MAX_AUDIO_VOLUME_MODE_COUNT))

def spenha (s : AudioDiag) (ptr : List UInt8) : Option (AudioDiag × Bool) :=
  let index := s.spenhaIndex ptr
  let s := { s with
    eqOrTunType := (firstInt ptr).stored.getD s.eqOrTunType, cmdType := s.spenhaCmd ptr }
  if ¬ (0 ≤ s.cmdType ∧ s.cmdType ≤ 4) then some (s, false)
  else if s.cmdType = 0 then some (s, true)
  else if index > MAX_AUDIO_VOLUME_MODE_COUNT ∨ index ≤ 0 then
    some ({ s with gIndex := index }, false)
  else if s.cmdType = 2 then
    match (thirdInt ptr).cur with
    | none => none
    | some rest => some ({ s with gIndex := index - 1, eqModeSelType := charValue rest }, true)
  else some ({ s with gIndex := index - 1 }, true)

/-- `is_audio_at_cmd_need_to_handle`: the statics and the result; there is none when a NULL
pointer is read. -/
def isAudioAtCmdNeedToHandle (s : AudioDiag) (ptr : List UInt8) : Option (AudioDiag × Bool) :=
  if s.gIsData ≠ ∅ ∧ isData ptr then some (s, true)
  else if atSadm.isPrefixOf ptr then s.sadm ptr
  else if atSpenha.isPrefixOf ptr then s.spenha ptr
  else some (s, false)

end AudioDiag

/-- The stores that the data of one flag makes: what `ascii2bin` stores, and for a flash
flag the copy of the whole structure into the mapped file. -/
def DataFlag.writes (index : ℤ) (count : ℕ) (x : DataFlag) : List AudioWrite :=
  match x with
  | .nvArmDataFlash | .enhaDataFlash =>
      [⟨.memory, x.target, index, count⟩, ⟨.mapped, x.target, index, x.target.size⟩]
  | _ => [⟨.memory, x.target, index, count⟩]

namespace AudioDiag

def write (s : AudioDiag) (target : AudioStruct) : AudioDiag :=
  { s with writes := s.writes ++ [⟨.memory, target, s.gIndex, target.size⟩] }

def setFlag (s : AudioDiag) (x : DataFlag) : AudioDiag := { s with gIsData := insert x s.gIsData }

def receive (s : AudioDiag) (size : ℕ) : AudioDiag :=
  { s with
    gIsData := ∅
    writes := s.writes ++
      (DataFlag.all.filter (· ∈ s.gIsData)).flatMap (DataFlag.writes s.gIndex (ascii2bin size)) }

def engDiagAudio (s : AudioDiag) (e : AudioEvent) : AudioDiag :=
  if s.gIsData ≠ ∅ then if e.mapped then s.receive e.wlen else s
  else if atSadm.isPrefixOf e.ptr then
    if s.cmdType = 10 then s.setFlag .nvArmDataMemory
    else if s.cmdType = 11 then s.setFlag .nvArmDataFlash
    else if s.cmdType = 12 ∧ e.mapped then s.write .nvArmMode
    else s
  else if atSpenha.isPrefixOf e.ptr then
    if s.eqOrTunType = 1 then
      if s.cmdType = 2 ∨ s.cmdType = 4 then s.setFlag .enhaTunDataMemory else s
    else if s.cmdType = 2 then s.setFlag .enhaDataMemory
    else if s.cmdType = 4 then s.setFlag .enhaDataFlash
    else if s.cmdType = 3 then
      -- a failed mapping is not NULL
      if e.mapped then s.write .enhaEq else { s with crashed := true }
    else s
  else s

/-- `eng_diag`, for what it does to this state. -/
def engDiag (s : AudioDiag) (e : AudioEvent) : AudioDiag :=
  if s.crashed ∨ (readHead e.frame.buf).type ≠ DIAG_CMD_AUDIO then s
  else
    match s.isAudioAtCmdNeedToHandle e.ptr with
    | none => { s with crashed := true }
    | some (s, false) => s
    | some (s, true) => s.engDiagAudio e

/-! ## Runs that stay inside the structures -/

/-- Every store so far was in bounds, and so is the index when data is waited for. -/
def Safe (s : AudioDiag) : Prop :=
  (∀ w ∈ s.writes, w.InBounds) ∧
    (s.gIsData ≠ ∅ → 0 ≤ s.gIndex ∧ s.gIndex < MAX_AUDIO_VOLUME_MODE_COUNT)

/-- The request is accepted, so that a state with flags takes it for their data. -/
def Accepts (s : AudioDiag) (ptr : List UInt8) : Prop :=
  if s.gIsData ≠ ∅ ∧ isData ptr then True
  else if atSadm.isPrefixOf ptr then
    s.sadmCmd ptr = 7 ∨ 8 ≤ s.sadmCmd ptr ∧ s.sadmCmd ptr ≤ 12 ∧
      ∃ rest, (firstInt ptr).cur = some rest ∧ charValue rest < MAX_AUDIO_VOLUME_MODE_COUNT
  else if atSpenha.isPrefixOf ptr then
    s.spenhaCmd ptr = 0 ∨ 1 ≤ s.spenhaCmd ptr ∧ s.spenhaCmd ptr ≤ 4 ∧
      0 < s.spenhaIndex ptr ∧ s.spenhaIndex ptr ≤ MAX_AUDIO_VOLUME_MODE_COUNT ∧
      (s.spenhaCmd ptr = 2 → (thirdInt ptr).cur ≠ none)
  else False

/-- The declared length covers the header and the closing flag, and the data behind them
fits every structure that waits for it. -/
def Fits (s : AudioDiag) (e : AudioEvent) : Prop :=
  9 ≤ (readHead e.frame.buf).len ∧
    ∀ x ∈ s.gIsData, (readHead e.frame.buf).len - 8 ≤ 2 * x.target.size + 1

/-- The condition on a frame while data is waited for: an index that it stores is one of
the four, also when the request is turned down, and accepted data fits. -/
def DataSafe (s : AudioDiag) (e : AudioEvent) : Prop :=
  (atSadm.isPrefixOf e.ptr → 8 ≤ s.sadmCmd e.ptr → s.sadmCmd e.ptr ≤ 12 →
    ∀ rest, (firstInt e.ptr).cur = some rest →
      0 ≤ charValue rest ∧ charValue rest < MAX_AUDIO_VOLUME_MODE_COUNT) ∧
  (atSpenha.isPrefixOf e.ptr → 1 ≤ s.spenhaCmd e.ptr → s.spenhaCmd e.ptr ≤ 4 →
    0 ≤ s.spenhaIndex e.ptr ∧ s.spenhaIndex e.ptr ≤ MAX_AUDIO_VOLUME_MODE_COUNT) ∧
  (s.Accepts e.ptr → e.mapped → s.Fits e)

/-- The condition on a frame while no data is waited for: a request that stores, now or
with its data, has no index below `0`. -/
def RequestSafe (s : AudioDiag) (e : AudioEvent) : Prop :=
  atSadm.isPrefixOf e.ptr →
    (s.sadmCmd e.ptr = 10 ∨ s.sadmCmd e.ptr = 11 ∨ s.sadmCmd e.ptr = 12 ∧ e.mapped) →
      ∀ rest, (firstInt e.ptr).cur = some rest → 0 ≤ charValue rest

def FrameSafe (s : AudioDiag) (e : AudioEvent) : Prop :=
  s.crashed = false → (readHead e.frame.buf).type = DIAG_CMD_AUDIO →
    if s.gIsData ≠ ∅ then s.DataSafe e else s.RequestSafe e

end AudioDiag

/-! ## Texts -/

theorem isData_eq_false {pre ptr : List UInt8} (hpre : ofAscii "AT".toList <+: pre)
    (h : pre.isPrefixOf ptr) : isData ptr = false := by
  have hat : (ofAscii "AT".toList).isPrefixOf ptr = true :=
    List.isPrefixOf_iff_prefix.mpr (hpre.trans (List.isPrefixOf_iff_prefix.mp h))
  rw [isData, hat]
  rfl

theorem isData_of_atSadm {ptr : List UInt8} (h : atSadm.isPrefixOf ptr) : isData ptr = false :=
  isData_eq_false (List.isPrefixOf_iff_prefix.mp (by decide)) h

theorem isData_of_atSpenha {ptr : List UInt8} (h : atSpenha.isPrefixOf ptr) :
    isData ptr = false :=
  isData_eq_false (List.isPrefixOf_iff_prefix.mp (by decide)) h

theorem not_atSpenha_of_atSadm {ptr : List UInt8} (h : atSadm.isPrefixOf ptr) :
    atSpenha.isPrefixOf ptr = false := by
  rw [Bool.eq_false_iff]
  intro h'
  rw [List.isPrefixOf_iff_prefix] at h h'
  have hpre : atSpenha <+: atSadm := List.prefix_of_prefix_length_le h' h (by decide)
  exact absurd hpre (by decide)

/-! ## Data -/

theorem ascii2bin_eq (size : ℕ) : ascii2bin size = (size + 1) / 2 := by
  induction size using ascii2bin.induct with
  | case1 => rfl
  | case2 => rfl
  | case3 size ih =>
      rw [ascii2bin, ih]
      omega

theorem AudioStruct.size_le (t : AudioStruct) : t.size ≤ 2784 := by
  cases t <;> decide

theorem DataFlag.mem_all (x : DataFlag) : x ∈ DataFlag.all := by
  cases x <;> decide

theorem DataFlag.writes_inBounds_iff (index : ℤ) (count : ℕ) (x : DataFlag) :
    (∀ w ∈ x.writes index count, w.InBounds) ↔
      (0 ≤ index ∧ index < MAX_AUDIO_VOLUME_MODE_COUNT) ∧ count ≤ x.target.size := by
  cases x <;> simp [DataFlag.writes, AudioWrite.InBounds, and_assoc]
  all_goals tauto

theorem AudioEvent.ascii2bin_wlen_le_iff (e : AudioEvent) (t : AudioStruct) :
    ascii2bin e.wlen ≤ t.size ↔
      9 ≤ (readHead e.frame.buf).len ∧ (readHead e.frame.buf).len - 8 ≤ 2 * t.size + 1 := by
  have hsize := t.size_le
  have hlen : (readHead e.frame.buf).len < 65536 := by
    have hlow := UInt8.toNat_lt (e.frame.buf.getD 5 0)
    have hhigh := UInt8.toNat_lt (e.frame.buf.getD 6 0)
    simp only [readHead]
    omega
  rw [ascii2bin_eq, AudioEvent.wlen]
  omega

namespace AudioDiag

theorem safe_start : start.Safe := by
  simp [start, Safe]

/-- All the data of `receive` is in bounds when the index is and the data fits. -/
theorem safe_receive_iff {s : AudioDiag} {e : AudioEvent} (hs : ∀ w ∈ s.writes, w.InBounds)
    (hdata : s.gIsData ≠ ∅) :
    (s.receive e.wlen).Safe ↔
      (0 ≤ s.gIndex ∧ s.gIndex < MAX_AUDIO_VOLUME_MODE_COUNT) ∧ s.Fits e := by
  have hwrites : (s.receive e.wlen).Safe ↔
      ∀ x ∈ s.gIsData, ∀ w ∈ x.writes s.gIndex (ascii2bin e.wlen), w.InBounds := by
    simp only [Safe, receive, ne_eq, not_true_eq_false, false_implies, and_true]
    constructor
    · intro h x hx w hw
      refine h w (List.mem_append_right _ (List.mem_flatMap.mpr ⟨x, ?_, hw⟩))
      exact List.mem_filter.mpr ⟨x.mem_all, decide_eq_true hx⟩
    · intro h w hw
      rcases List.mem_append.mp hw with hw | hw
      · exact hs w hw
      · obtain ⟨x, hx, hw⟩ := List.mem_flatMap.mp hw
        exact h x (of_decide_eq_true (List.mem_filter.mp hx).2) w hw
  rw [hwrites]
  simp only [DataFlag.writes_inBounds_iff, AudioEvent.ascii2bin_wlen_le_iff]
  obtain ⟨y, hy⟩ := Finset.nonempty_iff_ne_empty.mpr hdata
  constructor
  · intro h
    exact ⟨(h y hy).1, (h y hy).2.1, fun x hx => (h x hx).2.2⟩
  · rintro ⟨hindex, hlen, hfits⟩ x hx
    exact ⟨hindex, hlen, hfits x hx⟩

/-! ## One frame -/

/-- What becomes of the result of `is_audio_at_cmd_need_to_handle`. -/
def handle (s : AudioDiag) (e : AudioEvent) : Option (AudioDiag × Bool) → AudioDiag
  | none => { s with crashed := true }
  | some (s', false) => s'
  | some (s', true) => s'.engDiagAudio e

theorem engDiag_eq_handle {s : AudioDiag} {e : AudioEvent} (hcrash : s.crashed = false)
    (htype : (readHead e.frame.buf).type = DIAG_CMD_AUDIO) :
    s.engDiag e = s.handle e (s.isAudioAtCmdNeedToHandle e.ptr) := by
  rw [engDiag, if_neg (by simp [hcrash, htype])]
  rfl

theorem engDiag_eq_self {s : AudioDiag} {e : AudioEvent}
    (h : ¬ (s.crashed = false ∧ (readHead e.frame.buf).type = DIAG_CMD_AUDIO)) :
    s.engDiag e = s := by
  rw [engDiag, if_pos]
  by_contra hne
  rw [not_or, not_not, Bool.not_eq_true] at hne
  exact h hne

/-- While data is waited for, the index of every result has to be in bounds, and accepted
data has to fit. -/
theorem safe_handle_iff {s s' : AudioDiag} {e : AudioEvent} {b : Bool} (hs : s.Safe)
    (hdata : s.gIsData ≠ ∅) (hflags : s'.gIsData = s.gIsData) (hwrites : s'.writes = s.writes) :
    (s.handle e (some (s', b))).Safe ↔
      (0 ≤ s'.gIndex ∧ s'.gIndex < MAX_AUDIO_VOLUME_MODE_COUNT) ∧
        (b → e.mapped → s.Fits e) := by
  have hsafe : s'.Safe ↔ 0 ≤ s'.gIndex ∧ s'.gIndex < MAX_AUDIO_VOLUME_MODE_COUNT := by
    rw [Safe, hwrites, hflags]
    exact ⟨fun h => h.2 hdata, fun h => ⟨hs.1, fun _ => h⟩⟩
  have hfits : s'.Fits e ↔ s.Fits e := by rw [Fits, hflags, Fits]
  cases b with
  | false => simpa [handle] using hsafe
  | true =>
      rw [handle, engDiagAudio, if_pos (by rwa [hflags])]
      split_ifs with hmapped
      · rw [safe_receive_iff (by rw [hwrites]; exact hs.1) (by rwa [hflags]), hfits]
        simp [hmapped]
      · simpa [hmapped] using hsafe

/-! ## The requests -/

theorem sadm_of_not_mem {s : AudioDiag} {ptr : List UInt8}
    (h : ¬ (7 ≤ s.sadmCmd ptr ∧ s.sadmCmd ptr ≤ 12)) :
    s.sadm ptr = some ({ s with cmdType := s.sadmCmd ptr }, false) := by
  rw [sadm, if_pos h]

theorem sadm_count {s : AudioDiag} {ptr : List UInt8} (h : s.sadmCmd ptr = 7) :
    s.sadm ptr = some ({ s with cmdType := s.sadmCmd ptr }, true) := by
  rw [sadm, if_neg (by simp [h]), if_pos h]

theorem sadm_null {s : AudioDiag} {ptr : List UInt8}
    (h : 8 ≤ s.sadmCmd ptr ∧ s.sadmCmd ptr ≤ 12) (hcur : (firstInt ptr).cur = none) :
    s.sadm ptr = none := by
  rw [sadm, if_neg (by simp only; omega), if_neg (by simp only; omega), hcur]

theorem sadm_index {s : AudioDiag} {ptr rest : List UInt8}
    (h : 8 ≤ s.sadmCmd ptr ∧ s.sadmCmd ptr ≤ 12) (hcur : (firstInt ptr).cur = some rest) :
    s.sadm ptr =
      some ({ s with cmdType := s.sadmCmd ptr, gIndex := charValue rest },
        decide (charValue rest < MAX_AUDIO_VOLUME_MODE_COUNT)) := by
  rw [sadm, if_neg (by simp only; omega), if_neg (by simp only; omega), hcur]

def spenhaStored (s : AudioDiag) (ptr : List UInt8) : AudioDiag :=
  { s with eqOrTunType := (firstInt ptr).stored.getD s.eqOrTunType, cmdType := s.spenhaCmd ptr }

theorem spenha_of_not_mem {s : AudioDiag} {ptr : List UInt8}
    (h : ¬ (0 ≤ s.spenhaCmd ptr ∧ s.spenhaCmd ptr ≤ 4)) :
    s.spenha ptr = some (s.spenhaStored ptr, false) := by
  rw [spenha, if_pos h]
  rfl

theorem spenha_count {s : AudioDiag} {ptr : List UInt8} (h : s.spenhaCmd ptr = 0) :
    s.spenha ptr = some (s.spenhaStored ptr, true) := by
  rw [spenha, if_neg (by simp [h]), if_pos h]
  rfl

theorem spenha_index_out {s : AudioDiag} {ptr : List UInt8}
    (h : 1 ≤ s.spenhaCmd ptr ∧ s.spenhaCmd ptr ≤ 4)
    (hindex : s.spenhaIndex ptr > MAX_AUDIO_VOLUME_MODE_COUNT ∨ s.spenhaIndex ptr ≤ 0) :
    s.spenha ptr = some ({ s.spenhaStored ptr with gIndex := s.spenhaIndex ptr }, false) := by
  rw [spenha, if_neg (by simp only; omega), if_neg (by simp only; omega), if_pos hindex]
  rfl

theorem spenha_null {s : AudioDiag} {ptr : List UInt8} (h : s.spenhaCmd ptr = 2)
    (hindex : 0 < s.spenhaIndex ptr ∧ s.spenhaIndex ptr ≤ MAX_AUDIO_VOLUME_MODE_COUNT)
    (hcur : (thirdInt ptr).cur = none) : s.spenha ptr = none := by
  rw [spenha, if_neg (by simp only; omega), if_neg (by simp only; omega), if_neg (by omega),
    if_pos h, hcur]

theorem exists_spenha_eq {s : AudioDiag} {ptr : List UInt8}
    (h : 1 ≤ s.spenhaCmd ptr ∧ s.spenhaCmd ptr ≤ 4)
    (hindex : 0 < s.spenhaIndex ptr ∧ s.spenhaIndex ptr ≤ MAX_AUDIO_VOLUME_MODE_COUNT)
    (hcur : s.spenhaCmd ptr = 2 → (thirdInt ptr).cur ≠ none) :
    ∃ sel, s.spenha ptr =
      some ({ s.spenhaStored ptr with
        gIndex := s.spenhaIndex ptr - 1, eqModeSelType := sel }, true) := by
  rw [spenha, if_neg (by simp only; omega), if_neg (by simp only; omega), if_neg (by omega)]
  split_ifs with hmemory
  · obtain ⟨rest, hrest⟩ := Option.ne_none_iff_exists'.mp (hcur hmemory)
    rw [hrest]
    exact ⟨charValue rest, rfl⟩
  · exact ⟨s.eqModeSelType, rfl⟩

theorem safe_handle_sadm_iff {s : AudioDiag} {e : AudioEvent} (hs : s.Safe)
    (hdata : s.gIsData ≠ ∅) (hsadm : atSadm.isPrefixOf e.ptr) :
    (s.handle e (s.sadm e.ptr)).Safe ↔ s.DataSafe e := by
  have hindex := hs.2 hdata
  have haccepts : s.Accepts e.ptr ↔ s.sadmCmd e.ptr = 7 ∨ 8 ≤ s.sadmCmd e.ptr ∧
      s.sadmCmd e.ptr ≤ 12 ∧ ∃ rest, (firstInt e.ptr).cur = some rest ∧
        charValue rest < MAX_AUDIO_VOLUME_MODE_COUNT := by
    rw [Accepts, if_neg (by simp [isData_of_atSadm hsadm]), if_pos hsadm]
  rw [DataSafe, haccepts, not_atSpenha_of_atSadm hsadm]
  by_cases hmem : 7 ≤ s.sadmCmd e.ptr ∧ s.sadmCmd e.ptr ≤ 12
  · by_cases hcount : s.sadmCmd e.ptr = 7
    · rw [sadm_count hcount]
      refine (safe_handle_iff hs hdata (by rfl) (by rfl)).trans ?_
      simp [hcount, hindex]
    · have hcmd : 8 ≤ s.sadmCmd e.ptr ∧ s.sadmCmd e.ptr ≤ 12 := by omega
      cases hcur : (firstInt e.ptr).cur with
      | none =>
          rw [sadm_null hcmd hcur]
          refine iff_of_true hs ?_
          simp [hcount]
      | some rest =>
          rw [sadm_index hcmd hcur]
          refine (safe_handle_iff hs hdata (by rfl) (by rfl)).trans ?_
          simp only [decide_eq_true_eq, Option.some.injEq]
          simp [hsadm, hcount, hcmd]
  · rw [sadm_of_not_mem hmem]
    refine (safe_handle_iff hs hdata (by rfl) (by rfl)).trans ?_
    simp [hindex]
    omega

theorem safe_handle_spenha_iff {s : AudioDiag} {e : AudioEvent} (hs : s.Safe)
    (hdata : s.gIsData ≠ ∅) (hsadm : ¬ atSadm.isPrefixOf e.ptr)
    (hspenha : atSpenha.isPrefixOf e.ptr) :
    (s.handle e (s.spenha e.ptr)).Safe ↔ s.DataSafe e := by
  have hindex := hs.2 hdata
  have haccepts : s.Accepts e.ptr ↔ s.spenhaCmd e.ptr = 0 ∨ 1 ≤ s.spenhaCmd e.ptr ∧
      s.spenhaCmd e.ptr ≤ 4 ∧ 0 < s.spenhaIndex e.ptr ∧
      s.spenhaIndex e.ptr ≤ MAX_AUDIO_VOLUME_MODE_COUNT ∧
      (s.spenhaCmd e.ptr = 2 → (thirdInt e.ptr).cur ≠ none) := by
    rw [Accepts, if_neg (by simp [isData_of_atSpenha hspenha]), if_neg hsadm, if_pos hspenha]
  rw [DataSafe, haccepts]
  simp only [hsadm, hspenha, Bool.false_eq_true, false_implies, true_and, true_implies]
  by_cases hmem : 0 ≤ s.spenhaCmd e.ptr ∧ s.spenhaCmd e.ptr ≤ 4
  · by_cases hcount : s.spenhaCmd e.ptr = 0
    · rw [spenha_count hcount]
      refine (safe_handle_iff hs hdata (by rfl) (by rfl)).trans ?_
      simp [hcount, hindex, spenhaStored]
    · have hcmd : 1 ≤ s.spenhaCmd e.ptr ∧ s.spenhaCmd e.ptr ≤ 4 := by omega
      by_cases hrange : 0 < s.spenhaIndex e.ptr ∧
          s.spenhaIndex e.ptr ≤ MAX_AUDIO_VOLUME_MODE_COUNT
      · by_cases hnull : s.spenhaCmd e.ptr = 2 ∧ (thirdInt e.ptr).cur = none
        · rw [spenha_null hnull.1 hrange hnull.2]
          refine iff_of_true hs ?_
          simp [hnull, hrange, hrange.1.le]
        · have hcur : s.spenhaCmd e.ptr = 2 → (thirdInt e.ptr).cur ≠ none :=
            fun h2 hnone => hnull ⟨h2, hnone⟩
          obtain ⟨sel, hsel⟩ := exists_spenha_eq hcmd hrange hcur
          rw [hsel]
          refine (safe_handle_iff hs hdata (by rfl) (by rfl)).trans ?_
          have hbounds : 0 ≤ s.spenhaIndex e.ptr - 1 ∧
              s.spenhaIndex e.ptr - 1 < MAX_AUDIO_VOLUME_MODE_COUNT := by omega
          constructor
          · rintro ⟨-, hfits⟩
            exact ⟨fun _ _ => ⟨hrange.1.le, hrange.2⟩, fun _ => hfits rfl⟩
          · rintro ⟨-, hfits⟩
            exact ⟨hbounds, fun _ => hfits (Or.inr ⟨hcmd.1, hcmd.2, hrange.1, hrange.2, hcur⟩)⟩
      · rw [spenha_index_out hcmd (by omega)]
        refine (safe_handle_iff hs hdata (by rfl) (by rfl)).trans ?_
        simp only [MAX_AUDIO_VOLUME_MODE_COUNT] at hrange ⊢
        simp [hcount, hcmd]
        omega
  · rw [spenha_of_not_mem hmem]
    refine (safe_handle_iff hs hdata (by rfl) (by rfl)).trans ?_
    simp [hindex, spenhaStored]
    omega

theorem safe_handle_iff_dataSafe {s : AudioDiag} {e : AudioEvent} (hs : s.Safe)
    (hdata : s.gIsData ≠ ∅) :
    (s.handle e (s.isAudioAtCmdNeedToHandle e.ptr)).Safe ↔ s.DataSafe e := by
  have hindex := hs.2 hdata
  rw [isAudioAtCmdNeedToHandle]
  split_ifs with htext hsadm hspenha
  · -- the data itself
    have hnsadm : ¬ atSadm.isPrefixOf e.ptr := fun h => by simp [isData_of_atSadm h] at htext
    have hnspenha : ¬ atSpenha.isPrefixOf e.ptr :=
      fun h => by simp [isData_of_atSpenha h] at htext
    refine (safe_handle_iff hs hdata (by rfl) (by rfl)).trans ?_
    simp [DataSafe, Accepts, hnsadm, hnspenha, htext, hindex]
  · exact safe_handle_sadm_iff hs hdata hsadm
  · exact safe_handle_spenha_iff hs hdata hsadm hspenha
  · refine (safe_handle_iff hs hdata (by rfl) (by rfl)).trans ?_
    simp [DataSafe, Accepts, hsadm, hspenha, htext, hindex]

/-! ## No data waited for -/

theorem safe_of_gIsData_eq_empty {s s' : AudioDiag} (hs : s.Safe) (hflags : s'.gIsData = ∅)
    (hwrites : s'.writes = s.writes) : s'.Safe := by
  rw [Safe, hwrites, hflags]
  exact ⟨hs.1, fun h => absurd rfl h⟩

theorem safe_setFlag_iff {s : AudioDiag} (hs : s.Safe) (x : DataFlag) :
    (s.setFlag x).Safe ↔ 0 ≤ s.gIndex ∧ s.gIndex < MAX_AUDIO_VOLUME_MODE_COUNT := by
  refine ⟨fun h => h.2 (Finset.insert_ne_empty x s.gIsData), fun h => ⟨hs.1, fun _ => h⟩⟩

theorem safe_write_iff {s : AudioDiag} (hs : s.Safe) (target : AudioStruct) :
    (s.write target).Safe ↔
      (0 ≤ s.gIndex ∧ s.gIndex < MAX_AUDIO_VOLUME_MODE_COUNT) := by
  have hlast : (⟨.memory, target, s.gIndex, target.size⟩ : AudioWrite).InBounds ↔
      0 ≤ s.gIndex ∧ s.gIndex < MAX_AUDIO_VOLUME_MODE_COUNT := by
    simp [AudioWrite.InBounds]
  constructor
  · intro h
    exact hlast.mp (h.1 _ (List.mem_append_right _ (List.mem_singleton_self _)))
  · intro h
    refine ⟨fun w hw => ?_, fun _ => h⟩
    rcases List.mem_append.mp hw with hw | hw
    · exact hs.1 w hw
    · rw [List.mem_singleton.mp hw]
      exact hlast.mpr h

theorem safe_engDiagAudio_sadm_iff {s : AudioDiag} {e : AudioEvent} (hs : s.Safe)
    (hdata : s.gIsData = ∅) (hsadm : atSadm.isPrefixOf e.ptr) :
    (s.engDiagAudio e).Safe ↔
      (s.cmdType = 10 ∨ s.cmdType = 11 ∨ s.cmdType = 12 ∧ e.mapped →
        0 ≤ s.gIndex ∧ s.gIndex < MAX_AUDIO_VOLUME_MODE_COUNT) := by
  rw [engDiagAudio, if_neg (by simp [hdata]), if_pos hsadm]
  split_ifs with hram hflash hget
  · simp [safe_setFlag_iff hs, hram]
  · simp [safe_setFlag_iff hs, hflash]
  · simp [safe_write_iff hs, hget]
  · exact iff_of_true hs fun h => absurd h (by tauto)

/-- An accepted `AT+SPENHA` has an index in bounds, or does not use it. -/
theorem safe_engDiagAudio_spenha {s : AudioDiag} {e : AudioEvent} (hs : s.Safe)
    (hdata : s.gIsData = ∅) (hsadm : ¬ atSadm.isPrefixOf e.ptr)
    (hspenha : atSpenha.isPrefixOf e.ptr)
    (hindex : s.cmdType = 0 ∨ 0 ≤ s.gIndex ∧ s.gIndex < MAX_AUDIO_VOLUME_MODE_COUNT) :
    (s.engDiagAudio e).Safe := by
  rw [engDiagAudio, if_neg (by simp [hdata]), if_neg hsadm, if_pos hspenha]
  rcases hindex with hcount | hindex
  · simpa [hcount] using hs
  · have hflag : ∀ x, (s.setFlag x).Safe := fun x => (safe_setFlag_iff hs x).mpr hindex
    split_ifs
    · exact hflag _
    · exact hs
    · exact hflag _
    · exact hflag _
    · exact (safe_write_iff hs _).mpr hindex
    · exact hs
    · exact hs

/-- While no data is waited for, an `AT+SADM4AP` request keeps the state safe exactly when its
index is in bounds or not waited on. -/
theorem safe_handle_atSadm_iff {s : AudioDiag} {e : AudioEvent} (hs : s.Safe)
    (hdata : s.gIsData = ∅) (hsadm : atSadm.isPrefixOf e.ptr) :
    (s.handle e (s.isAudioAtCmdNeedToHandle e.ptr)).Safe ↔ s.RequestSafe e := by
  rw [isAudioAtCmdNeedToHandle, if_neg (by simp [hdata]), if_pos hsadm, RequestSafe]
  simp only [hsadm, true_implies]
  by_cases hmem : 7 ≤ s.sadmCmd e.ptr ∧ s.sadmCmd e.ptr ≤ 12
  · by_cases hcount : s.sadmCmd e.ptr = 7
    · rw [sadm_count hcount]
      have hnext : ({ s with cmdType := s.sadmCmd e.ptr } : AudioDiag).Safe := hs
      refine (safe_engDiagAudio_sadm_iff hnext hdata hsadm).trans ?_
      simp [hcount]
    · have hcmd : 8 ≤ s.sadmCmd e.ptr ∧ s.sadmCmd e.ptr ≤ 12 := by omega
      cases hcur : (firstInt e.ptr).cur with
      | none =>
          rw [sadm_null hcmd hcur]
          refine iff_of_true hs ?_
          simp
      | some rest =>
          rw [sadm_index hcmd hcur]
          have hnext : ({ s with
              cmdType := s.sadmCmd e.ptr, gIndex := charValue rest } : AudioDiag).Safe :=
            safe_of_gIsData_eq_empty hs hdata rfl
          by_cases hlt : charValue rest < MAX_AUDIO_VOLUME_MODE_COUNT
          · rw [decide_eq_true hlt]
            refine (safe_engDiagAudio_sadm_iff hnext hdata hsadm).trans ?_
            simp [hlt]
          · rw [decide_eq_false hlt]
            refine iff_of_true hnext fun _ rest' hrest' => ?_
            rw [Option.some.inj hrest', MAX_AUDIO_VOLUME_MODE_COUNT] at hlt
            omega
  · rw [sadm_of_not_mem hmem]
    refine iff_of_true (safe_of_gIsData_eq_empty hs hdata rfl) ?_
    intro h
    omega

/-- While no data is waited for, an `AT+SPENHA` request keeps the state safe. -/
theorem safe_handle_atSpenha {s : AudioDiag} {e : AudioEvent} (hs : s.Safe)
    (hdata : s.gIsData = ∅) (hsadm : ¬ atSadm.isPrefixOf e.ptr)
    (hspenha : atSpenha.isPrefixOf e.ptr) :
    (s.handle e (s.isAudioAtCmdNeedToHandle e.ptr)).Safe := by
  rw [isAudioAtCmdNeedToHandle, if_neg (by simp [hdata]), if_neg hsadm, if_pos hspenha]
  by_cases hmem : 0 ≤ s.spenhaCmd e.ptr ∧ s.spenhaCmd e.ptr ≤ 4
  · by_cases hcount : s.spenhaCmd e.ptr = 0
    · rw [spenha_count hcount]
      exact safe_engDiagAudio_spenha (safe_of_gIsData_eq_empty hs hdata rfl) hdata hsadm
        hspenha (Or.inl hcount)
    · have hcmd : 1 ≤ s.spenhaCmd e.ptr ∧ s.spenhaCmd e.ptr ≤ 4 := by omega
      by_cases hrange : 0 < s.spenhaIndex e.ptr ∧
          s.spenhaIndex e.ptr ≤ MAX_AUDIO_VOLUME_MODE_COUNT
      · by_cases hnull : s.spenhaCmd e.ptr = 2 ∧ (thirdInt e.ptr).cur = none
        · rw [spenha_null hnull.1 hrange hnull.2]
          exact hs
        · obtain ⟨sel, hsel⟩ :=
            exists_spenha_eq hcmd hrange fun h2 hnone => hnull ⟨h2, hnone⟩
          rw [hsel]
          refine safe_engDiagAudio_spenha (safe_of_gIsData_eq_empty hs hdata rfl) hdata hsadm
            hspenha (Or.inr ?_)
          simp only
          omega
      · rw [spenha_index_out hcmd (by omega)]
        exact safe_of_gIsData_eq_empty hs hdata rfl
  · rw [spenha_of_not_mem hmem]
    exact safe_of_gIsData_eq_empty hs hdata rfl

/-- While no data is waited for, a frame keeps the state safe exactly under
`RequestSafe`. -/
theorem safe_handle_iff_requestSafe {s : AudioDiag} {e : AudioEvent} (hs : s.Safe)
    (hdata : s.gIsData = ∅) :
    (s.handle e (s.isAudioAtCmdNeedToHandle e.ptr)).Safe ↔ s.RequestSafe e := by
  by_cases hsadm : atSadm.isPrefixOf e.ptr
  · exact safe_handle_atSadm_iff hs hdata hsadm
  have hrequest : s.RequestSafe e := by
    rw [RequestSafe]
    exact fun h => absurd h hsadm
  refine iff_of_true ?_ hrequest
  by_cases hspenha : atSpenha.isPrefixOf e.ptr
  · exact safe_handle_atSpenha hs hdata hsadm hspenha
  · rw [isAudioAtCmdNeedToHandle, if_neg (by simp [hdata]), if_neg hsadm, if_neg hspenha]
    exact hs

theorem safe_engDiag_iff {s : AudioDiag} (hs : s.Safe) (e : AudioEvent) :
    (s.engDiag e).Safe ↔ s.FrameSafe e := by
  by_cases htaken : s.crashed = false ∧ (readHead e.frame.buf).type = DIAG_CMD_AUDIO
  · rw [engDiag_eq_handle htaken.1 htaken.2, FrameSafe]
    simp only [htaken.1, htaken.2, true_implies]
    split_ifs with hdata
    · exact safe_handle_iff_dataSafe hs hdata
    · exact safe_handle_iff_requestSafe hs (not_not.mp hdata)
  · rw [engDiag_eq_self htaken]
    exact iff_of_true hs fun hcrash htype => absurd ⟨hcrash, htype⟩ htaken

/-- The runs that store inside the structures only, with an index in bounds whenever data
is waited for, are those whose frames all meet their condition. -/
theorem safe_iff_meets (es : List AudioEvent) :
    (∀ fs, fs <+: es → (Run.run engDiag start fs).Safe) ↔
      Run.Meets engDiag FrameSafe start es :=
  @Run.forall_prefix_iff_meets _ _ engDiag FrameSafe (fun _ => True) Safe
    (fun _ _ _ => trivial) (fun _ e _ hs => safe_engDiag_iff hs e) start trivial safe_start es

/-! ## An index past the modes -/

theorem ptr_eq {f : DiagFrame} (hlong : 8 ≤ f.body.length) (hnul : 0 ∉ f.body.drop 8)
    (mapped : Bool) : AudioEvent.ptr ⟨f, [], mapped⟩ = f.body.drop 8 ++ [0x7E] := by
  have hdrop : (f.buf ++ []).drop 9 = (f.body.drop 8 ++ [0x7E]) ++
      List.replicate (DATA_EXT_DIAG_SIZE - (f.body.length + 2)) 0 := by
    rw [List.append_nil, DiagFrame.buf, List.drop_succ_cons, List.drop_append_of_le_length hlong,
      List.append_assoc]
    rfl
  have hmem : 0 ∉ f.body.drop 8 ++ [0x7E] := by simpa using hnul
  rw [AudioEvent.ptr, hdrop, cstring_append_replicate, cstring_of_not_mem hmem]

/-- A request for a mode name with the index 9 is turned down, but while data is waited
for, its index stays, and the data that comes next is stored there. -/
theorem not_safe_rejected_index :
    ¬ ∀ es : List AudioEvent, (Run.run engDiag start es).Safe := by
  let set : AudioEvent := ⟨⟨[0, 0, 0, 0, 24, 0, 0x68, 0] ++ ofAscii "AT+SADM4AP=10,0\r".toList,
    by decide, by decide⟩, [], true⟩
  let ask : AudioEvent := ⟨⟨[0, 0, 0, 0, 23, 0, 0x68, 0] ++ ofAscii "AT+SADM4AP=8,9\r".toList,
    by decide, by decide⟩, [], true⟩
  let data : AudioEvent := ⟨⟨[0, 0, 0, 0, 11, 0, 0x68, 0] ++ ofAscii "7F\r".toList,
    by decide, by decide⟩, [], true⟩
  have hset : set.ptr = ofAscii "AT+SADM4AP=10,0\r~".toList := ptr_eq (by decide) (by decide) _
  have hask : ask.ptr = ofAscii "AT+SADM4AP=8,9\r~".toList := ptr_eq (by decide) (by decide) _
  have hdata : data.ptr = ofAscii "7F\r~".toList := ptr_eq (by decide) (by decide) _
  have hfirst : start.engDiag set = ⟨{.nvArmDataMemory}, 0, 10, 0, 0, [], false⟩ := by
    have hneed : start.isAudioAtCmdNeedToHandle set.ptr =
        some (⟨∅, 0, 10, 0, 0, [], false⟩, true) := by
      rw [hset]
      rfl
    rw [engDiag_eq_handle rfl rfl, hneed, handle, engDiagAudio, hset]
    rfl
  have hsecond : (start.engDiag set).engDiag ask =
      ⟨{.nvArmDataMemory}, 9, 8, 0, 0, [], false⟩ := by
    rw [hfirst, engDiag_eq_handle rfl rfl, hask]
    rfl
  have hthird : Run.run engDiag start [set, ask, data] =
      ⟨∅, 9, 8, 0, 0, [⟨.memory, .nvArmMode, 9, 1⟩], false⟩ := by
    have hwlen : data.wlen = 2 := by decide
    rw [Run.run_cons, Run.run_cons, Run.run_cons, hsecond, engDiag_eq_handle rfl rfl, hdata,
      isAudioAtCmdNeedToHandle, if_pos (by decide), handle, engDiagAudio, if_pos (by decide),
      if_pos rfl, hwlen]
    rfl
  intro h
  have hbounds := (h [set, ask, data]).1 ⟨.memory, .nvArmMode, 9, 1⟩ (by simp [hthird])
  exact absurd hbounds.2.1 (by decide)

end AudioDiag

end Engcs

end Tarako
