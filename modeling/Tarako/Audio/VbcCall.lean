import Mathlib.Data.List.Basic
import Mathlib.Data.List.Nodup
import Mathlib.Data.Int.Notation
import Mathlib.Tactic.Common
import Tarako.Lib.Run

/-!
# The voice call of the VBC control thread

`vbc_ctrl_thread_routine` opens the two PCMs of the modem when the CP asks for it, closes
them when the call ends or the pipe does, and keeps `call_start` and `call_connected`.
A command changes them under `adev->lock`; the states are those between two reads of the
pipe. The parameters of the commands are left out: of the functions that read them only
the result is kept.
-/

namespace Tarako

namespace Vbc

/-- The cases of `cmd_type` in `vbc_ctrl_thread_routine`. -/
inductive Command where
  | setMode
  | setGain
  | switchCtrl
  | setMute
  | deviceCtrl
  | halOpen
  | halClose
  | unknown
  deriving DecidableEq

/-- The PCMs in the order in which they are opened, each of them with the answer of
`pcm_is_ready`, and the calls of `pcm_close`. -/
structure Pcms where
  ready : List Bool
  closes : List ℕ

namespace Pcms

/-- The PCM that `pcm_open` returns next. -/
def next (p : Pcms) : ℕ := p.ready.length

def pcmOpen (p : Pcms) (ready : Bool) : Pcms := { p with ready := p.ready ++ [ready] }

/-- `pcm_close`; there is nothing to close before the first call. -/
def pcmClose (p : Pcms) (pcm : Option ℕ) : Pcms :=
  { p with closes := p.closes ++ pcm.toList }

def isOpen (p : Pcms) (pcm : ℕ) : Bool := p.ready[pcm]? = some true ∧ pcm ∉ p.closes

theorem isOpen_iff (p : Pcms) (pcm : ℕ) :
    p.isOpen pcm = true ↔ p.ready[pcm]? = some true ∧ pcm ∉ p.closes := decide_eq_true_iff

theorem isOpen_pcmClose (p : Pcms) (pcm other : ℕ) :
    (p.pcmClose (some pcm)).isOpen other = true ↔ p.isOpen other = true ∧ other ≠ pcm := by
  rw [isOpen_iff, isOpen_iff, pcmClose, Option.toList_some, List.mem_append,
    List.mem_singleton, not_or, and_assoc]

/-- A PCM is closed at most once, and not before it is opened. -/
structure Valid (p : Pcms) : Prop where
  once : p.closes.Nodup
  lt : ∀ pcm ∈ p.closes, pcm < p.next

variable {p : Pcms}

theorem Valid.pcmOpen (hp : p.Valid) (ready : Bool) : (p.pcmOpen ready).Valid where
  once := hp.once
  lt pcm hpcm := by
    rw [next, Pcms.pcmOpen, List.length_append]
    exact Nat.lt_of_lt_of_le (hp.lt pcm hpcm) (Nat.le_add_right _ _)

theorem Valid.pcmClose (hp : p.Valid) {pcm : ℕ} (h : p.isOpen pcm = true) :
    (p.pcmClose (some pcm)).Valid where
  once := by
    rw [Pcms.pcmClose, Option.toList_some, List.nodup_append_comm]
    exact List.nodup_cons.mpr ⟨((isOpen_iff p pcm).mp h).2, hp.once⟩
  lt other hother := by
    rw [Pcms.pcmClose, Option.toList_some, List.mem_append, List.mem_singleton] at hother
    obtain hother | rfl := hother
    · exact hp.lt other hother
    · exact List.getElem?_eq_some_iff.mp ((isOpen_iff p other).mp h).1 |>.1

theorem isOpen_pcmOpen_next (hp : p.Valid) (ready : Bool) :
    (p.pcmOpen ready).isOpen p.next = ready := by
  have hnot : p.next ∉ p.closes := fun h => Nat.lt_irrefl _ (hp.lt _ h)
  have hget : (p.ready ++ [ready])[p.next]? = some ready := List.getElem?_concat_length
  rw [Bool.eq_iff_iff, isOpen_iff, pcmOpen, hget, Option.some_inj]
  exact and_iff_left hnot

theorem isOpen_pcmOpen_of_lt {pcm : ℕ} (hpcm : pcm < p.next) (ready : Bool) :
    (p.pcmOpen ready).isOpen pcm = p.isOpen pcm := by
  rw [Bool.eq_iff_iff, isOpen_iff, isOpen_iff, pcmOpen, List.getElem?_append_left hpcm]

theorem lt_next_of_isOpen {pcm : ℕ} (h : p.isOpen pcm = true) : pcm < p.next :=
  (List.getElem?_eq_some_iff.mp ((isOpen_iff p pcm).mp h).1).1

end Pcms

/-- What the thread keeps of a call: `s_is_exit`, whether the pipe is open, and the fields
of `tiny_audio_device`. `replaced` has the PCMs that were open when a field that designated
them got another one. -/
structure Call where
  isExit : Bool
  pipeOpen : Bool
  callStart : Bool
  callConnected : Bool
  pcmModemDl : Option ℕ
  pcmModemUl : Option ℕ
  pcms : Pcms
  replaced : List ℕ

/-- The answers to a command: of `pcm_is_ready` for the two PCMs, and of the function that
reads the parameters. -/
structure Answers where
  dlReady : Bool
  ulReady : Bool
  ret : ℤ

/-- What a read of a head gives, or how `open` ends. -/
inductive Event where
  | readError
  | eof
  | wrongTag
  | command (c : Command) (a : Answers)
  | openPipe (ok : Bool)

namespace Call

/-- After `adev_open`. -/
def init : Call where
  isExit := false
  pipeOpen := false
  callStart := false
  callConnected := false
  pcmModemDl := none
  pcmModemUl := none
  pcms := ⟨[], []⟩
  replaced := []

def exit (s : Call) : Call := { s with isExit := true }

/-- `adev->pcm_modem_dl = pcm_open (…)` and the check behind it. -/
def openDl (s : Call) (ready : Bool) : Call :=
  let s' := { s with
    pcmModemDl := some s.pcms.next
    pcms := s.pcms.pcmOpen ready
    replaced := s.replaced ++ s.pcmModemDl.toList.filter s.pcms.isOpen }
  if ready then s' else { s' with pcms := s'.pcms.pcmClose s'.pcmModemDl }.exit

/-- `adev->pcm_modem_ul = pcm_open (…)` and the check behind it. -/
def openUl (s : Call) (ready : Bool) : Call :=
  let s' := { s with
    pcmModemUl := some s.pcms.next
    pcms := s.pcms.pcmOpen ready
    replaced := s.replaced ++ s.pcmModemUl.toList.filter s.pcms.isOpen }
  if ready then s'
  else
    { s' with pcms := (s'.pcms.pcmClose s'.pcmModemUl).pcmClose s'.pcmModemDl }.exit

/-- `VBC_CMD_HAL_OPEN`: the call starts whatever the checks said. -/
def halOpen (s : Call) (a : Answers) : Call :=
  { (s.openDl a.dlReady).openUl a.ulReady with callStart := true }

/-- The end of a call, on `VBC_CMD_HAL_CLOSE`, at the end of the pipe and when it does not
open again. -/
def endCall (s : Call) : Call :=
  if s.callStart then
    { s with
      pcms := (s.pcms.pcmClose s.pcmModemUl).pcmClose s.pcmModemDl
      callStart := false
      callConnected := false }
  else s

/-- A negative result makes the thread leave its loop. -/
def checkRet (s : Call) (ret : ℤ) : Call := if ret < 0 then s.exit else s

/-- One pass of the `switch`. -/
def serve (s : Call) (c : Command) (a : Answers) : Call :=
  match c with
  | .halOpen => s.halOpen a
  | .halClose => s.endCall
  | .setMode => s.checkRet a.ret
  | .setGain => s.checkRet a.ret
  | .switchCtrl => { s.checkRet a.ret with callConnected := true }
  | .setMute => s
  | .deviceCtrl => s.checkRet a.ret
  | .unknown => s

def reading (s : Call) : Bool := !s.isExit && s.pipeOpen

def step (s : Call) : Event → Call
  | .readError => s
  | .eof => if s.reading then { s.endCall with pipeOpen := false } else s
  | .wrongTag => s
  | .command c a => if s.reading then s.serve c a else s
  | .openPipe ok =>
      if s.isExit || s.pipeOpen then s
      else if ok then { s with pipeOpen := true }
      else s.endCall

/-- The field designates a PCM that is open. -/
def Designates (s : Call) (field : Option ℕ) : Prop :=
  ∃ pcm, field = some pcm ∧ s.pcms.isOpen pcm = true

/-- The flags and the PCMs agree, no PCM is closed twice and none is lost. -/
structure Sound (s : Call) : Prop where
  connected : s.callConnected = true → s.callStart = true
  started : s.callStart = true → s.Designates s.pcmModemDl ∧ s.Designates s.pcmModemUl
  closedOnce : s.pcms.closes.Nodup
  notReplaced : s.replaced = []

/-- The condition on a step: a call is opened only when there is none and both PCMs are
ready, and control is switched only during a call. -/
def Regular (s : Call) : Event → Prop
  | .command .halOpen a =>
      s.reading = true → s.callStart = false ∧ a.dlReady = true ∧ a.ulReady = true
  | .command .switchCtrl _ => s.reading = true → s.callStart = true
  | _ => True

/-- The field designates a PCM that the thread has opened and that is not open any more. -/
def Spent (s : Call) (field : Option ℕ) : Prop :=
  ∀ pcm, field = some pcm → pcm < s.pcms.next ∧ s.pcms.isOpen pcm = false

/-- What the regular steps keep: between calls the fields designate no open PCM. -/
structure Settled (s : Call) : Prop where
  valid : s.pcms.Valid
  connected : s.callConnected = true → s.callStart = true
  started : s.callStart = true →
    s.Designates s.pcmModemDl ∧ s.Designates s.pcmModemUl ∧ s.pcmModemDl ≠ s.pcmModemUl
  idle : s.callStart = false → s.Spent s.pcmModemDl ∧ s.Spent s.pcmModemUl
  notReplaced : s.replaced = []

variable {s : Call}

theorem Settled.sound (h : s.Settled) : s.Sound where
  connected := h.connected
  started hs := ⟨(h.started hs).1, (h.started hs).2.1⟩
  closedOnce := h.valid.once
  notReplaced := h.notReplaced

theorem spent_none (s : Call) : s.Spent none := by
  intro pcm hpcm
  cases hpcm

theorem settled_init : init.Settled where
  valid := ⟨List.nodup_nil, fun _ h => absurd h List.not_mem_nil⟩
  connected h := absurd h (by decide)
  started h := absurd h (by decide)
  idle _ := ⟨spent_none init, spent_none init⟩
  notReplaced := rfl

/-! ### The end of a call -/

theorem Settled.endCall (h : s.Settled) : s.endCall.Settled := by
  unfold Call.endCall
  split
  · rename_i hstart
    obtain ⟨⟨dl, hdl, hdlOpen⟩, ⟨ul, hul, hulOpen⟩, hne⟩ := h.started hstart
    rw [hdl, hul] at hne
    have hne : dl ≠ ul := fun heq => hne (congrArg some heq)
    have hdlStill : (s.pcms.pcmClose (some ul)).isOpen dl = true :=
      (Pcms.isOpen_pcmClose _ _ _).mpr ⟨hdlOpen, hne⟩
    have hclosed : ∀ pcm, pcm = dl ∨ pcm = ul →
        ((s.pcms.pcmClose (some ul)).pcmClose (some dl)).isOpen pcm = false := by
      intro pcm hpcm
      rw [Bool.eq_false_iff, ne_eq, Pcms.isOpen_pcmClose, Pcms.isOpen_pcmClose]
      obtain rfl | rfl := hpcm
      · exact fun hcon => hcon.2 rfl
      · exact fun hcon => hcon.1.2 rfl
    rw [hdl, hul]
    refine ⟨(h.valid.pcmClose hulOpen).pcmClose hdlStill, fun hcon => Bool.noConfusion hcon,
      fun hcon => Bool.noConfusion hcon, fun _ => ⟨?_, ?_⟩, h.notReplaced⟩
    · rintro pcm ⟨⟩
      exact ⟨Pcms.lt_next_of_isOpen (p := s.pcms) hdlOpen, hclosed _ (Or.inl rfl)⟩
    · rintro pcm ⟨⟩
      exact ⟨Pcms.lt_next_of_isOpen (p := s.pcms) hulOpen, hclosed _ (Or.inr rfl)⟩
  · exact h

/-! ### The opening of a call -/

theorem filter_isOpen_of_spent {field : Option ℕ} (h : s.Spent field) :
    field.toList.filter s.pcms.isOpen = [] := by
  rw [List.filter_eq_nil_iff]
  intro pcm hpcm
  rw [(h pcm (Option.mem_toList.mp hpcm)).2]
  exact Bool.false_ne_true

theorem Settled.halOpen (h : s.Settled) (hidle : s.callStart = false) {a : Answers}
    (hdl : a.dlReady = true) (hul : a.ulReady = true) : (s.halOpen a).Settled := by
  obtain ⟨hdlSpent, hulSpent⟩ := h.idle hidle
  have hvalid := h.valid.pcmOpen true
  have hdlOpen : (s.pcms.pcmOpen true).isOpen s.pcms.next = true :=
    Pcms.isOpen_pcmOpen_next h.valid true
  have hlt : s.pcms.next < (s.pcms.pcmOpen true).next := Pcms.lt_next_of_isOpen hdlOpen
  have hulSpent' : (s.openDl true).Spent s.pcmModemUl := fun pcm hpcm => by
    obtain ⟨hpcmLt, hpcmOpen⟩ := hulSpent pcm hpcm
    exact ⟨hpcmLt.trans hlt, (Pcms.isOpen_pcmOpen_of_lt hpcmLt true).trans hpcmOpen⟩
  unfold Call.halOpen
  rw [hdl, hul]
  refine ⟨hvalid.pcmOpen true, fun _ => rfl, fun _ => ⟨⟨_, rfl, ?_⟩, ⟨_, rfl, ?_⟩, ?_⟩,
    fun hcon => Bool.noConfusion hcon, ?_⟩
  · exact (Pcms.isOpen_pcmOpen_of_lt hlt true).trans hdlOpen
  · exact Pcms.isOpen_pcmOpen_next hvalid true
  · exact fun hcon => hlt.ne (Option.some.inj hcon)
  · have hfirst := filter_isOpen_of_spent hdlSpent
    have hsecond := filter_isOpen_of_spent hulSpent'
    show s.replaced ++ _ ++ (s.pcmModemUl.toList.filter (s.openDl true).pcms.isOpen) = []
    rw [h.notReplaced, hfirst, hsecond]
    rfl

theorem pcmModemDl_halOpen (s : Call) (a : Answers) :
    (s.halOpen a).pcmModemDl = some s.pcms.next := by
  unfold halOpen openUl openDl
  cases a.dlReady <;> cases a.ulReady <;> rfl

theorem replaced_halOpen_of_started (h : s.Designates s.pcmModemDl) (a : Answers) :
    (s.halOpen a).replaced ≠ [] := by
  obtain ⟨dl, hdl, hopen⟩ := h
  have hdlMem : dl ∈ (s.openDl a.dlReady).replaced := by
    have hmem : dl ∈ s.pcmModemDl.toList.filter s.pcms.isOpen := by
      rw [List.mem_filter, Option.mem_toList]
      exact ⟨hdl, hopen⟩
    unfold openDl
    cases a.dlReady <;> exact List.mem_append_right _ hmem
  have hmem : dl ∈ (s.halOpen a).replaced := by
    unfold halOpen openUl
    cases a.ulReady <;> exact List.mem_append_left _ hdlMem
  exact List.ne_nil_of_mem hmem

theorem dlReady_of_designates {a : Answers}
    (h : (s.halOpen a).Designates (s.halOpen a).pcmModemDl) : a.dlReady = true := by
  by_contra hready
  rw [Bool.not_eq_true] at hready
  obtain ⟨dl, hdl, hopen⟩ := h
  rw [pcmModemDl_halOpen, Option.some_inj] at hdl
  have hclosed : dl ∈ (s.halOpen a).pcms.closes := by
    unfold halOpen openUl openDl
    rw [hready, ← hdl]
    cases a.ulReady <;> simp [Pcms.pcmClose, Pcms.pcmOpen, exit]
  exact ((Pcms.isOpen_iff _ _).mp hopen).2 hclosed

theorem ulReady_of_designates {a : Answers}
    (h : (s.halOpen a).Designates (s.halOpen a).pcmModemUl) : a.ulReady = true := by
  by_contra hready
  rw [Bool.not_eq_true] at hready
  obtain ⟨ul, hul, hopen⟩ := h
  have hclosed : ul ∈ (s.halOpen a).pcms.closes := by
    unfold halOpen openUl at hul ⊢
    rw [hready] at hul ⊢
    simp only [Bool.false_eq_true, if_false, exit, Option.some_inj] at hul
    simp [Pcms.pcmClose, exit, hul]
  exact ((Pcms.isOpen_iff _ _).mp hopen).2 hclosed

/-! ### Runs -/

theorem Settled.checkRet (h : s.Settled) (ret : ℤ) : (s.checkRet ret).Settled := by
  unfold Call.checkRet
  split
  · exact ⟨h.valid, h.connected, h.started, h.idle, h.notReplaced⟩
  · exact h

theorem callStart_checkRet (s : Call) (ret : ℤ) :
    (s.checkRet ret).callStart = s.callStart := by
  unfold checkRet
  split <;> rfl

theorem Settled.serve (h : s.Settled) (hread : s.reading = true) {c : Command} {a : Answers}
    (hreg : s.Regular (.command c a)) : (s.serve c a).Settled := by
  cases c with
  | halOpen =>
      obtain ⟨hidle, hdl, hul⟩ := hreg hread
      exact h.halOpen hidle hdl hul
  | halClose => exact h.endCall
  | setMode => exact h.checkRet a.ret
  | setGain => exact h.checkRet a.ret
  | switchCtrl =>
      have hstart : (s.checkRet a.ret).callStart = true :=
        (callStart_checkRet s a.ret).trans (hreg hread)
      obtain ⟨hvalid, -, hstarted, hidle, hnone⟩ := h.checkRet a.ret
      exact ⟨hvalid, fun _ => hstart, hstarted, hidle, hnone⟩
  | setMute => exact h
  | deviceCtrl => exact h.checkRet a.ret
  | unknown => exact h

theorem Settled.step (h : s.Settled) {e : Event} (hreg : s.Regular e) :
    (s.step e).Settled := by
  unfold Call.step
  cases e with
  | readError => exact h
  | eof =>
      dsimp only
      split
      · obtain ⟨hvalid, hconn, hstarted, hidle, hnone⟩ := h.endCall
        exact ⟨hvalid, hconn, hstarted, hidle, hnone⟩
      · exact h
  | wrongTag => exact h
  | command c a =>
      dsimp only
      split
      · exact h.serve ‹_› hreg
      · exact h
  | openPipe ok =>
      dsimp only
      split
      · exact h
      · split
        · exact ⟨h.valid, h.connected, h.started, h.idle, h.notReplaced⟩
        · exact h.endCall

/-- Only the steps that meet the condition lead out of a settled state to a sound one. -/
theorem regular_of_sound_step (h : s.Settled) {e : Event} (hsound : (s.step e).Sound) :
    s.Regular e := by
  cases e with
  | readError => trivial
  | eof => trivial
  | wrongTag => trivial
  | openPipe ok => trivial
  | command c a =>
      cases c with
      | halOpen =>
          intro hread
          have hstep : s.step (.command .halOpen a) = s.halOpen a := if_pos hread
          rw [hstep] at hsound
          obtain ⟨hdl, hul⟩ := hsound.started rfl
          refine ⟨?_, dlReady_of_designates hdl, ulReady_of_designates hul⟩
          by_contra hstart
          rw [Bool.not_eq_false] at hstart
          exact replaced_halOpen_of_started (h.started hstart).1 a hsound.notReplaced
      | switchCtrl =>
          intro hread
          have hstep : s.step (.command .switchCtrl a) =
              { s.checkRet a.ret with callConnected := true } := if_pos hread
          rw [hstep] at hsound
          exact (callStart_checkRet s a.ret).symm.trans (hsound.connected rfl)
      | setMode => trivial
      | setGain => trivial
      | setMute => trivial
      | deviceCtrl => trivial
      | halClose => trivial
      | unknown => trivial

/-- The flags and the PCMs agree in every state of a run exactly when each of its steps
meets the condition. -/
theorem sound_call_run_iff (es : List Event) :
    (∀ fs, fs <+: es → (Run.run step init fs).Sound) ↔ Run.Meets step Regular init es :=
  @Run.forall_prefix_iff_meets_of_invariant Call Event step Regular Settled Sound
    (fun _ => Settled.sound) (fun _ _ hreg h => h.step hreg)
    (fun _ _ h hsound => regular_of_sound_step h hsound) init settled_init es

theorem connected_outside_call :
    ¬ ∀ es : List Event, (Run.run step init es).Sound := by
  intro h
  have hsound := h [.openPipe true, .command .switchCtrl ⟨true, true, 4⟩]
  exact absurd (hsound.connected rfl) (by decide)

end Call

end Vbc

end Tarako
