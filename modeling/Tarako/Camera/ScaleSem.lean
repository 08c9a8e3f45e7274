import Mathlib.Data.Int.Notation
import Mathlib.Data.List.Basic
import Mathlib.Tactic.Common
import Tarako.Lib.Run

/-!
# The semaphore of the scaler

`cmr_scale_start` and `cmr_scale_next` of `cmr_cvt.c` take `scaler_sem`, set the device up
and start it; the scaler thread posts the semaphore when the device is done. One thread
uses the two functions, after `cmr_scale_init` has succeeded. Of the images only what the
device calls depend on is kept; their arguments are left out.
-/

namespace Tarako

namespace ScaleSem

def CMR_SLICE_HEIGHT : UInt32 := 128

def CVT_RET_LAST : ℤ := 1

inductive Ioctl where
  | inputSize
  | inputRect
  | inputFormat
  | inputEndian
  | inputAddr
  | outputSize
  | outputFormat
  | outputEndian
  | outputAddr
  | scaleMode
  | tempBuff
  | sliceScaleHeight
  | start
  | continue
  deriving DecidableEq

/-- The first result that is not 0, at which `CVT_EXIT_IF_ERR` leaves. -/
def firstError (ioctl : Ioctl → ℤ) : List Ioctl → ℤ
  | [] => 0
  | i :: rest => if ioctl i ≠ 0 then ioctl i else firstError ioctl rest

theorem firstError_eq_zero_iff (ioctl : Ioctl → ℤ) (l : List Ioctl) :
    firstError ioctl l = 0 ↔ ∀ i ∈ l, ioctl i = 0 := by
  induction l with
  | nil => simp [firstError]
  | cons i rest ih =>
      rw [firstError, List.forall_mem_cons]
      by_cases hi : ioctl i = 0
      · rw [if_neg (not_not.mpr hi), ih]
        exact (and_iff_right hi).symm
      · rw [if_pos hi]
        exact iff_of_false hi fun h => hi h.1

inductive WorkMode where
  | frame
  | sliceExternal
  | sliceInternal
  deriving DecidableEq

structure ScaleCxt where
  sliceHeight : UInt32
  readyHeight : UInt32
  startY : UInt32
  rectHeight : UInt32
  dstHeight : UInt32
  totalOutHeight : UInt32
  tmpBuffer : UInt32
  scWorkMode : WorkMode
  isStarted : Bool

/-- The arguments of `cmr_scale_start`: the heights of the slice, of the crop window and
of the images, and the address of the temporary frame, 0 without one. -/
structure StartArgs where
  sliceHeight : UInt32
  startY : UInt32
  rectHeight : UInt32
  dstWidth : UInt32
  dstHeight : UInt32
  tmpFrm : UInt32

/-- `cmr_scale_local_init`; `scThreshold` is read from the device. -/
def localInit (scThreshold : UInt32) (a : StartArgs) : ScaleCxt where
  sliceHeight :=
    if a.sliceHeight ≥ a.rectHeight ∧ a.dstWidth > scThreshold then CMR_SLICE_HEIGHT
    else a.sliceHeight
  readyHeight := a.sliceHeight
  startY := a.startY
  rectHeight := a.rectHeight
  dstHeight := a.dstHeight
  totalOutHeight := 0
  tmpBuffer := a.tmpFrm
  scWorkMode :=
    if a.sliceHeight ≥ a.rectHeight then
      if a.dstWidth > scThreshold then .sliceInternal else .frame
    else .sliceExternal
  isStarted := a.sliceHeight > a.startY

/-- The calls of the device in `cmr_scale_start`, each of them checked. -/
def startIoctls (c : ScaleCxt) : List Ioctl :=
  [.inputSize, .inputRect, .inputFormat, .inputEndian, .inputAddr, .outputSize,
    .outputFormat, .outputEndian, .outputAddr, .scaleMode] ++
  (if c.scWorkMode = .frame then []
    else (if c.tmpBuffer ≠ 0 then [.tempBuff] else []) ++
      (if c.isStarted then [.sliceScaleHeight] else [])) ++
  (if c.isStarted then [.start] else [])

/-- The arguments of `cmr_scale_next`: which of its pointers are given. -/
structure NextArgs where
  sliceHeight : UInt32
  srcFrm : Bool
  rect : Bool
  dstFrm : Bool

def NextArgs.auto (a : NextArgs) : Bool := a.sliceHeight = 0 ∧ !a.srcFrm ∧ !a.rect

def ScaleCxt.isEnd (c : ScaleCxt) : Bool :=
  c.readyHeight + c.sliceHeight > c.startY + c.rectHeight

def ScaleCxt.advance (c : ScaleCxt) : ScaleCxt :=
  let readyHeight :=
    if c.isEnd then c.readyHeight + (c.startY + c.rectHeight - c.readyHeight)
    else c.readyHeight + c.sliceHeight
  { c with readyHeight := readyHeight, isStarted := c.isStarted || readyHeight > c.startY }

/-- The context that `cmr_scale_next` goes on with. -/
def NextArgs.cxt (a : NextArgs) (c : ScaleCxt) : ScaleCxt := if a.auto then c.advance else c

/-- The checked calls of the device in `cmr_scale_next` before `SCALE_IO_CONTINUE`. -/
def nextIoctls (a : NextArgs) (c : ScaleCxt) : List Ioctl :=
  (if a.auto then
    -- The result of `SCALE_IO_SLICE_SCALE_HEIGHT` between the two is not looked at.
    if c.isStarted then [.inputRect, .inputAddr] else []
  else
    (if a.srcFrm then [.inputAddr] else []) ++ (if a.rect then [.inputRect] else []) ++
      (if a.sliceHeight ≠ 0 then [.sliceScaleHeight] else [])) ++
  (if c.isStarted then [.outputAddr] else [])

inductive Call where
  | none
  | startWait (scThreshold : UInt32) (a : StartArgs) (ioctl : Ioctl → ℤ)
  | startCond
  | nextWait (a : NextArgs) (ioctl : Ioctl → ℤ)

/-- The device has `jobs` under way; `posting` is set while the scaler thread is between
`SCALE_IO_IS_DONE` and its `sem_post`. `ret` is the result of the last call. -/
structure Scaler where
  scalerSem : ℕ
  jobs : ℕ
  posting : Bool
  scalerEvtCb : Bool
  scCxt : ScaleCxt
  call : Call
  ret : ℤ

/-- A callback is registered; a function is called, with the results that the device will
give; `sem_wait` or `pthread_cond_wait` returns; a job is done, with its output height;
the scaler thread posts. -/
inductive Event where
  | evtReg (cb : Bool)
  | start (scThreshold : UInt32) (a : StartArgs) (ioctl : Ioctl → ℤ)
  | next (a : NextArgs) (ioctl : Ioctl → ℤ)
  | proceed
  | wake
  | done (height : UInt32)
  | post

namespace Scaler

def init (scCxt : ScaleCxt) : Scaler where
  scalerSem := 1
  jobs := 0
  posting := false
  scalerEvtCb := false
  scCxt := scCxt
  call := .none
  ret := 0

def runStart (s : Scaler) (scThreshold : UInt32) (a : StartArgs) (ioctl : Ioctl → ℤ) : Scaler :=
  let c := localInit scThreshold a
  let err := firstError ioctl (startIoctls c)
  if err ≠ 0 then
    { s with scCxt := c, scalerSem := s.scalerSem + 1, call := .none, ret := err }
  else if c.isStarted then
    { s with
      scCxt := c
      jobs := s.jobs + 1
      call := if s.scalerEvtCb then .none else .startCond
      ret := 0 }
  else { s with scCxt := c, call := .none, ret := 0 }

def runNext (s : Scaler) (a : NextArgs) (ioctl : Ioctl → ℤ) : Scaler :=
  if s.scCxt.totalOutHeight ≥ s.scCxt.dstHeight then { s with call := .none, ret := 0 }
  else
    let c := a.cxt s.scCxt
    let err := firstError ioctl (nextIoctls a c)
    let last := a.auto && s.scCxt.isEnd
    if err ≠ 0 then
      { s with scCxt := c, call := .none, ret := if last then CVT_RET_LAST else err }
    else if c.isStarted then
      { s with
        scCxt := c
        jobs := if ioctl .continue = 0 then s.jobs + 1 else s.jobs
        call := .none
        ret := if last then CVT_RET_LAST else ioctl .continue }
    else { s with scCxt := c, call := .none, ret := if last then CVT_RET_LAST else 0 }

def proceed (s : Scaler) : Scaler :=
  if 0 < s.scalerSem then
    let s' := { s with scalerSem := s.scalerSem - 1 }
    match s.call with
    | .startWait scThreshold a ioctl => s'.runStart scThreshold a ioctl
    | .nextWait a ioctl => s'.runNext a ioctl
    | _ => s
  else s

/-- The scaler thread counts the output when there is a callback to tell about it. -/
def done (s : Scaler) (height : UInt32) : Scaler :=
  { s with
    jobs := s.jobs - 1
    posting := true
    scCxt :=
      if s.scalerEvtCb then
        { s.scCxt with totalOutHeight := s.scCxt.totalOutHeight + height }
      else s.scCxt }

def step (s : Scaler) : Event → Scaler
  | .evtReg cb => { s with scalerEvtCb := cb }
  | .start scThreshold a ioctl =>
      match s.call with
      | .none => { s with call := .startWait scThreshold a ioctl }
      | _ => s
  | .next a ioctl =>
      match s.call with
      | .none =>
          if s.scCxt.isStarted then { s with call := .nextWait a ioctl }
          else s.runNext a ioctl
      | _ => s
  | .proceed => s.proceed
  | .wake =>
      match s.call with
      | .startCond => { s with call := .none }
      | _ => s
  | .done height => if 0 < s.jobs ∧ s.posting = false then s.done height else s
  | .post =>
      if s.posting then { s with scalerSem := s.scalerSem + 1, posting := false } else s

/-- The tokens in the semaphore and those that will come back to it. -/
def tokens (s : Scaler) : ℕ := s.scalerSem + s.jobs + s.posting.toNat

/-- There is one token: the semaphore has it, a job, or the scaler thread. -/
def Balanced (s : Scaler) : Prop := s.tokens = 1

def Quiet (s : Scaler) : Prop :=
  (match s.call with | .none => True | _ => False) ∧ s.jobs = 0 ∧ s.posting = false

instance : DecidablePred Quiet := fun s =>
  match h : s.call with
  | .none => decidable_of_iff (s.jobs = 0 ∧ s.posting = false) (by simp [Quiet, h])
  | .startWait _ _ _ => .isFalse (by simp [Quiet, h])
  | .startCond => .isFalse (by simp [Quiet, h])
  | .nextWait _ _ => .isFalse (by simp [Quiet, h])

/-- The slices are not finished, enough lines are ready, and no device call fails. -/
def NextSucceeds (c : ScaleCxt) (a : NextArgs) (ioctl : Ioctl → ℤ) : Prop :=
  c.totalOutHeight < c.dstHeight ∧ (a.cxt c).isStarted = true ∧
    (∀ i ∈ nextIoctls a (a.cxt c), ioctl i = 0) ∧ ioctl .continue = 0

/-- A device call fails, or the first slice reaches into the crop window. -/
def StartReturns (scThreshold : UInt32) (a : StartArgs) (ioctl : Ioctl → ℤ) : Prop :=
  (∃ i ∈ startIoctls (localInit scThreshold a), ioctl i ≠ 0) ∨ a.startY < a.sliceHeight

/-- The condition on a step: a start that takes the semaphore has a failing device call or
a slice to scale; a next that takes it succeeds, and one that does not take it does not. -/
def Keeps (s : Scaler) : Event → Prop
  | .proceed => 0 < s.scalerSem →
      match s.call with
      | .startWait scThreshold a ioctl => StartReturns scThreshold a ioctl
      | .nextWait a ioctl => NextSucceeds s.scCxt a ioctl
      | _ => True
  | .next a ioctl =>
      match s.call with
      | .none => s.scCxt.isStarted = false → ¬ NextSucceeds s.scCxt a ioctl
      | _ => True
  | _ => True

/-! ### Tokens -/

variable (s : Scaler)

theorem tokens_runStart (scThreshold : UInt32) (a : StartArgs) (ioctl : Ioctl → ℤ) :
    (StartReturns scThreshold a ioctl →
      (s.runStart scThreshold a ioctl).tokens = s.tokens + 1) ∧
    (¬ StartReturns scThreshold a ioctl →
      (s.runStart scThreshold a ioctl).tokens = s.tokens) := by
  have hstarted : (localInit scThreshold a).isStarted = true ↔ a.startY < a.sliceHeight :=
    decide_eq_true_iff
  have hzero := firstError_eq_zero_iff ioctl (startIoctls (localInit scThreshold a))
  simp only [runStart, StartReturns]
  by_cases herr : firstError ioctl (startIoctls (localInit scThreshold a)) = 0
  · have hall := hzero.mp herr
    have hno : ¬ ∃ i ∈ startIoctls (localInit scThreshold a), ioctl i ≠ 0 := by
      rintro ⟨i, hi, hne⟩
      exact hne (hall i hi)
    rw [if_neg (not_not.mpr herr), or_iff_right hno, ← hstarted]
    by_cases h : (localInit scThreshold a).isStarted = true
    · rw [if_pos h]
      refine ⟨fun _ => ?_, fun hcon => absurd h hcon⟩
      simp only [tokens]
      omega
    · rw [if_neg h]
      exact ⟨fun hcon => absurd hcon h, fun _ => rfl⟩
  · have hsome : ∃ i ∈ startIoctls (localInit scThreshold a), ioctl i ≠ 0 := by
      by_contra hno
      refine herr (hzero.mpr fun i hi => ?_)
      by_contra hne
      exact hno ⟨i, hi, hne⟩
    rw [if_pos herr]
    refine ⟨fun _ => ?_, fun hcon => absurd (Or.inl hsome) hcon⟩
    simp only [tokens]
    omega

theorem tokens_runNext (a : NextArgs) (ioctl : Ioctl → ℤ) :
    (NextSucceeds s.scCxt a ioctl → (s.runNext a ioctl).tokens = s.tokens + 1) ∧
    (¬ NextSucceeds s.scCxt a ioctl → (s.runNext a ioctl).tokens = s.tokens) := by
  have hzero := firstError_eq_zero_iff ioctl (nextIoctls a (a.cxt s.scCxt))
  simp only [runNext, NextSucceeds]
  by_cases hdone : s.scCxt.totalOutHeight ≥ s.scCxt.dstHeight
  · rw [if_pos hdone]
    exact ⟨fun h => absurd h.1 (UInt32.not_lt.mpr hdone), fun _ => rfl⟩
  · rw [if_neg hdone, and_iff_right (UInt32.not_le.mp hdone), hzero.symm]
    by_cases herr : firstError ioctl (nextIoctls a (a.cxt s.scCxt)) = 0
    · rw [if_neg (not_not.mpr herr), and_iff_right herr]
      by_cases h : (a.cxt s.scCxt).isStarted = true
      · rw [if_pos h, and_iff_right h]
        refine ⟨fun hc => ?_, fun hc => ?_⟩
        · simp only [tokens, if_pos hc]
          omega
        · simp only [tokens, if_neg hc]
      · rw [if_neg h]
        exact ⟨fun hcon => absurd hcon.1 h, fun _ => rfl⟩
    · rw [if_pos herr]
      exact ⟨fun hcon => absurd hcon.2.1 herr, fun _ => rfl⟩

variable {s}

theorem balanced_proceed_iff (h : s.Balanced) : s.proceed.Balanced ↔ Keeps s .proceed := by
  unfold proceed Keeps
  by_cases hpos : 0 < s.scalerSem
  · rw [if_pos hpos]
    have htake : ({ s with scalerSem := s.scalerSem - 1 } : Scaler).tokens = 0 := by
      unfold Balanced tokens at *
      dsimp only
      omega
    cases hcall : s.call with
    | none => exact iff_of_true h fun _ => trivial
    | startCond => exact iff_of_true h fun _ => trivial
    | startWait scThreshold a ioctl =>
        have htokens := tokens_runStart { s with scalerSem := s.scalerSem - 1 } scThreshold a
          ioctl
        rw [htake] at htokens
        by_cases hret : StartReturns scThreshold a ioctl
        · exact iff_of_true (htokens.1 hret) fun _ => hret
        · refine iff_of_false (fun hcon => ?_) fun hcon => hret (hcon hpos)
          exact absurd ((htokens.2 hret).symm.trans hcon) (by decide)
    | nextWait a ioctl =>
        have htokens := tokens_runNext { s with scalerSem := s.scalerSem - 1 } a ioctl
        rw [htake] at htokens
        by_cases hret : NextSucceeds s.scCxt a ioctl
        · exact iff_of_true (htokens.1 hret) fun _ => hret
        · refine iff_of_false (fun hcon => ?_) fun hcon => hret (hcon hpos)
          exact absurd ((htokens.2 hret).symm.trans hcon) (by decide)
  · rw [if_neg hpos]
    exact iff_of_true h fun hcon => absurd hcon hpos

theorem balanced_next_iff (h : s.Balanced) (a : NextArgs) (ioctl : Ioctl → ℤ) :
    (s.step (.next a ioctl)).Balanced ↔ Keeps s (.next a ioctl) := by
  unfold step Keeps
  cases hcall : s.call with
  | none =>
      by_cases hstarted : s.scCxt.isStarted = true
      · simp only [if_pos hstarted]
        exact iff_of_true h fun hcon => absurd hstarted (by simp [hcon])
      · simp only [if_neg hstarted]
        rw [Bool.not_eq_true] at hstarted
        obtain ⟨hjob, hnone⟩ := tokens_runNext s a ioctl
        by_cases hret : NextSucceeds s.scCxt a ioctl
        · refine iff_of_false (fun hcon => ?_) fun hcon => hcon hstarted hret
          have hsum := (hjob hret).symm.trans hcon
          rw [h] at hsum
          exact absurd hsum (by decide)
        · exact iff_of_true ((hnone hret).trans h) fun _ => hret
  | startCond => exact iff_of_true h trivial
  | startWait scThreshold b ret => exact iff_of_true h trivial
  | nextWait b ret => exact iff_of_true h trivial

theorem balanced_done (h : s.Balanced) (height : UInt32) :
    (s.step (.done height)).Balanced := by
  unfold step
  dsimp only
  split
  · rename_i hjob
    unfold Balanced tokens at *
    rw [hjob.2] at h
    simp only [done, Bool.toNat_true]
    simp only [Bool.toNat_false] at h
    omega
  · exact h

theorem balanced_post (h : s.Balanced) : (s.step .post).Balanced := by
  unfold step
  dsimp only
  split
  · rename_i hpost
    unfold Balanced tokens at *
    rw [hpost] at h
    simp only [Bool.toNat_false]
    simp only [Bool.toNat_true] at h
    omega
  · exact h

theorem balanced_step_iff (h : s.Balanced) (e : Event) :
    (s.step e).Balanced ↔ Keeps s e := by
  cases e with
  | evtReg cb => exact iff_of_true h trivial
  | start scThreshold a ioctl =>
      refine iff_of_true ?_ trivial
      unfold step
      cases s.call <;> exact h
  | next a ioctl => exact balanced_next_iff h a ioctl
  | proceed => exact balanced_proceed_iff h
  | wake =>
      refine iff_of_true ?_ trivial
      unfold step
      cases s.call <;> exact h
  | done height => exact iff_of_true (balanced_done h height) trivial
  | post => exact iff_of_true (balanced_post h) trivial

theorem Balanced.sem_eq_one (h : s.Balanced) (hquiet : s.Quiet) : s.scalerSem = 1 := by
  obtain ⟨-, hjobs, hposting⟩ := hquiet
  unfold Balanced tokens at h
  rw [hjobs, hposting, Bool.toNat_false] at h
  omega

/-- The token is accounted for throughout a run exactly if all its steps meet the
condition, and then the semaphore is 1 whenever nothing is under way. -/
theorem balanced_run_iff (scCxt : ScaleCxt) (es : List Event) :
    ((∀ fs, fs <+: es → (Run.run step (init scCxt) fs).Balanced) ↔
      Run.Meets step Keeps (init scCxt) es) ∧
    (Run.Meets step Keeps (init scCxt) es →
      ∀ fs, fs <+: es → (Run.run step (init scCxt) fs).Quiet →
        (Run.run step (init scCxt) fs).scalerSem = 1) := by
  have hiff := @Run.forall_prefix_iff_meets Scaler Event step Keeps (fun _ => True) Balanced
    (fun _ _ h => h) (fun _ e _ h => balanced_step_iff h e) (init scCxt) trivial rfl es
  refine ⟨hiff, ?_⟩
  intro hmeets fs hfs hquiet
  exact (hiff.mpr hmeets fs hfs).sem_eq_one hquiet

def zeroCxt : ScaleCxt where
  sliceHeight := 0
  readyHeight := 0
  startY := 0
  rectHeight := 0
  dstHeight := 0
  totalOutHeight := 0
  tmpBuffer := 0
  scWorkMode := .frame
  isStarted := false

def slices (startY : UInt32) : StartArgs where
  sliceHeight := 128
  startY := startY
  rectHeight := 256
  dstWidth := 64
  dstHeight := 128
  tmpFrm := 0

def autoNext : NextArgs := ⟨0, false, false, false⟩

def succeeds : Ioctl → ℤ := fun _ => 0

/-- A start whose first slice ends above the crop window, a failed `SCALE_IO_CONTINUE`, and
a next behind the last line. -/
def losingRuns : List (List Event) :=
  [[.evtReg true, .start 1024 (slices 128) succeeds, .proceed],
    [.evtReg true, .start 1024 (slices 0) succeeds, .proceed, .done 64, .post,
      .next autoNext (fun i => if i = .continue then -1 else 0), .proceed],
    [.evtReg true, .start 1024 (slices 0) succeeds, .proceed, .done 128, .post,
      .next autoNext succeeds, .proceed]]

theorem token_lost : losingRuns.Forall fun es =>
    (Run.run step (init zeroCxt) es).Quiet ∧ (Run.run step (init zeroCxt) es).scalerSem = 0 := by
  rw [List.forall_iff_forall_mem]
  decide +kernel

end Scaler

end ScaleSem

end Tarako
