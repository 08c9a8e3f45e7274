import Mathlib.Tactic.Common
import Tarako.Lib.Run
import Tarako.Lib.SlotTable

/-!
# The capture streams of the audio HAL

`adev_open_input_stream` of `audio_hw.c` chooses the configuration of a stream and derives
its resampler and its buffer from it; `start_input_stream` opens the PCM when a read finds
the stream in standby. Both look at `call_start`. A call that begins or ends forces the
active input into standby. Streams are numbered as `calloc` finds room for them.
-/

namespace Tarako

namespace InputStream

open SlotTable

/-- `struct pcm_config`; the format is the same in all of them. -/
structure PcmConfig where
  channels : ℕ
  rate : ℕ
  periodSize : ℕ
  periodCount : ℕ
  deriving DecidableEq

def VBC_BASE_FRAME_COUNT : ℕ := 160

def SHORT_PERIOD_MULTIPLIER : ℕ := 10

def pcmConfigMmUl : PcmConfig :=
  ⟨2, 48000, VBC_BASE_FRAME_COUNT * SHORT_PERIOD_MULTIPLIER, 2⟩

def pcmConfigVrecVx : PcmConfig := ⟨1, 8000, 320, 8⟩

/-- The PCM delivers what the stream was built for. -/
def PcmConfig.Agrees (opened config : PcmConfig) : Prop :=
  opened.rate = config.rate ∧ opened.channels = config.channels ∧
    opened.periodSize = config.periodSize

/-- `audio_stream_frame_size`: two bytes for each channel of `in_get_channels`. -/
def PcmConfig.frameSize (config : PcmConfig) : ℕ := (if config.channels = 1 then 1 else 2) * 2

/-- The bytes that `get_next_buffer` reads at once. -/
def PcmConfig.periodBytes (config : PcmConfig) : ℕ := config.periodSize * config.frameSize

/-- The arguments of `create_resampler`. -/
structure Resampler where
  inRate : ℕ
  outRate : ℕ
  channels : ℕ
  deriving DecidableEq

/-- `struct tiny_stream_in`, with the configuration that its PCM is open with. `inCall`
keeps `call_start` of the time at which the stream was built, `buffer` the size of the
buffer of the resampler. -/
structure Stream where
  config : PcmConfig
  inCall : Bool
  requestedRate : ℕ
  resampler : Option Resampler
  buffer : Option ℕ
  device : UInt32
  standby : Bool
  pcm : Option PcmConfig

/-- The arguments of `adev_open_input_stream`, and whether the buffer and the resampler can
be had. -/
structure OpenArgs where
  devices : UInt32
  pcm16 : Bool
  channelCount : ℕ
  sampleRate : ℕ
  bufferOk : Bool
  resamplerOk : Bool

def checkInputParameters (sampleRate : ℕ) (pcm16 : Bool) (channelCount : ℕ) : Bool :=
  pcm16 ∧ 1 ≤ channelCount ∧ channelCount ≤ 2 ∧
    sampleRate ∈ [8000, 11025, 16000, 22050, 24000, 32000, 44100, 48000]

/-- `in->config` of a stream that is built. -/
def inConfig (callStart : Bool) (channelCount : ℕ) : PcmConfig :=
  { (if callStart then pcmConfigVrecVx else pcmConfigMmUl) with channels := channelCount }

def openInputStream (callStart : Bool) (a : OpenArgs) : Option Stream :=
  let config := inConfig callStart a.channelCount
  let resample : Bool := a.sampleRate ≠ config.rate
  if checkInputParameters a.sampleRate a.pcm16 a.channelCount then
    if resample && !(a.bufferOk && a.resamplerOk) then none
    else some
      { config := config
        inCall := callStart
        requestedRate := a.sampleRate
        resampler :=
          if resample then some ⟨config.rate, a.sampleRate, config.channels⟩ else none
        buffer := if resample then some config.periodBytes else none
        device := a.devices
        standby := true
        pcm := none }
  else none

/-- A read that goes on with an open PCM. -/
structure Use where
  opened : PcmConfig
  stream : Stream

/-- The device with its streams and the reads that have taken samples. -/
structure Hal where
  callStart : Bool
  modeInCall : Bool
  streams : List (Option Stream)
  activeInput : Option ℕ
  uses : List Use

/-- A stream is opened, closed, put into standby or given another device; a call begins or
ends; the mode is set; a stream is read, with the answer of `pcm_is_ready` and whether the
reads of the PCM succeed. -/
inductive Event where
  | openInput (a : OpenArgs)
  | closeInput (i : ℕ)
  | inStandby (i : ℕ)
  | setDevice (i : ℕ) (device : UInt32)
  | callStart
  | callEnd
  | setMode (inCall : Bool)
  | inRead (i : ℕ) (ready ok : Bool)

namespace Hal

def init : Hal := ⟨false, false, [], none, []⟩

def stream (s : Hal) (i : ℕ) : Option Stream := get s.streams i

def doInputStandby (s : Hal) (i : ℕ) : Hal :=
  match s.stream i with
  | some st =>
      if st.standby then s
      else
        { s with
          streams := put s.streams i { st with standby := true, pcm := none }
          activeInput := none }
  | none => s

/-- `force_all_standby` knows the input that was started last. -/
def forceAllStandby (s : Hal) : Hal :=
  match s.activeInput with
  | some i => s.doInputStandby i
  | none => s

/-- The part of `in_read` behind the start of the stream. -/
def takeSamples (s : Hal) (i : ℕ) (ok : Bool) : Hal :=
  match s.stream i with
  | some st =>
      match st.pcm with
      | some opened =>
          let s' := { s with uses := s.uses ++ [⟨opened, st⟩] }
          if ok then s' else s'.doInputStandby i
      | none => s
  | none => s

/-- The configuration that `start_input_stream` opens the PCM with. -/
def startConfig (s : Hal) (st : Stream) : PcmConfig :=
  if s.callStart then pcmConfigVrecVx else st.config

/-- `start_input_stream`, with `in->standby` cleared behind it when it succeeds. -/
def startInputStream (s : Hal) (i : ℕ) (st : Stream) (ready : Bool) : Hal :=
  if ready then
    { s with
      streams := put s.streams i { st with standby := false, pcm := some (s.startConfig st) }
      activeInput := some i }
  else { s with activeInput := none }

variable (inVoiceCall : UInt32)

/-- `in_bypass_data`: silence for the capture of a call that has ended. -/
def inBypassData (s : Hal) (st : Stream) : Bool :=
  !s.callStart && s.modeInCall && st.device = inVoiceCall

def inRead (s : Hal) (i : ℕ) (ready ok : Bool) : Hal :=
  match s.stream i with
  | some st =>
      if s.inBypassData inVoiceCall st then s
      else if st.standby then
        if ready then (s.startInputStream i st ready).takeSamples i ok
        else s.startInputStream i st ready
      else s.takeSamples i ok
  | none => s

def step (s : Hal) : Event → Hal
  | .openInput a =>
      match openInputStream s.callStart a with
      | some st => { s with streams := alloc s.streams st }
      | none => s
  | .closeInput i => { s.doInputStandby i with streams := free (s.doInputStandby i).streams i }
  | .inStandby i => s.doInputStandby i
  | .setDevice i device =>
      match s.stream i with
      | some st => { s with streams := put s.streams i { st with device := device } }
      | none => s
  | .callStart => { s.forceAllStandby with callStart := true }
  | .callEnd => { s.forceAllStandby with callStart := false }
  | .setMode inCall => { s with modeInCall := inCall }
  | .inRead i ready ok => s.inRead inVoiceCall i ready ok

/-- Every read was from a PCM that was opened as the stream was built. -/
def Faithful (s : Hal) : Prop := ∀ u ∈ s.uses, u.opened.Agrees u.stream.config

/-- The condition on a step: a read that starts a stream during a call starts one that was
built during a call, with one channel. -/
def Regular (s : Hal) : Event → Prop
  | .inRead i ready _ => ∀ st, s.stream i = some st → st.standby = true →
      s.callStart = true → ready = true → st.inCall = true ∧ st.config.channels = 1
  | _ => True

end Hal

/-! ### What a stream is built with -/

/-- The configuration is the one chosen when the stream was built, and the resampler and
its buffer are derived from it. -/
structure Stream.Built (st : Stream) : Prop where
  config : st.config = inConfig st.inCall st.config.channels
  resampler : st.resampler = if st.requestedRate ≠ st.config.rate then
    some ⟨st.config.rate, st.requestedRate, st.config.channels⟩ else none
  buffer : st.buffer = if st.requestedRate ≠ st.config.rate then
    some st.config.periodBytes else none

/-- An open PCM delivers what the stream was built for. -/
def Stream.Agreed (st : Stream) : Prop := ∀ opened, st.pcm = some opened → opened.Agrees st.config

theorem openInputStream_built {callStart : Bool} {a : OpenArgs} {st : Stream}
    (h : openInputStream callStart a = some st) : st.Built ∧ st.pcm = none := by
  unfold openInputStream at h
  dsimp only at h
  by_cases hcheck : checkInputParameters a.sampleRate a.pcm16 a.channelCount = true
  · rw [if_pos hcheck] at h
    split at h
    · cases h
    · obtain rfl := Option.some.inj h
      refine ⟨⟨rfl, ?_, ?_⟩, rfl⟩
      · simp only [decide_eq_true_eq]
      · simp only [decide_eq_true_eq]
  · rw [if_neg hcheck] at h
    cases h

theorem agrees_refl (config : PcmConfig) : config.Agrees config := ⟨rfl, rfl, rfl⟩

/-- Of the streams that can be built, the PCM of a call suits those of a call with one
channel. -/
theorem vrecVx_agrees_iff {config : PcmConfig} {inCall : Bool}
    (h : config = inConfig inCall config.channels) :
    pcmConfigVrecVx.Agrees config ↔ inCall = true ∧ config.channels = 1 := by
  constructor
  · rintro ⟨hrate, hchannels, -⟩
    refine ⟨?_, hchannels.symm⟩
    by_contra hcall
    rw [h, Bool.not_eq_true _ |>.mp hcall] at hrate
    exact absurd hrate (by decide : (8000 : ℕ) ≠ 48000)
  · rintro ⟨hcall, hchannels⟩
    rw [hcall, hchannels] at h
    rw [h]
    exact ⟨rfl, rfl, rfl⟩

namespace Hal

/-! ### What a step does to the streams -/

/-- Every stream satisfies `P`. -/
def All (P : Stream → Prop) (s : Hal) : Prop := ∀ i st, s.stream i = some st → P st

variable {s : Hal} {P : Stream → Prop} {inVoiceCall : UInt32}

theorem All.put (h : s.All P) {i : ℕ} {st : Stream} (hst : P st) {t : Hal}
    (ht : t.streams = put s.streams i st) : t.All P := by
  intro j st' hj
  rw [stream, ht, get_put] at hj
  split_ifs at hj
  · obtain rfl := Option.some.inj hj
    exact hst
  · exact h j st' hj

theorem All.doInputStandby (h : s.All P)
    (hstandby : ∀ st, P st → P { st with standby := true, pcm := none }) (i : ℕ) :
    (s.doInputStandby i).All P := by
  unfold Hal.doInputStandby
  split
  · rename_i st hst
    split
    · exact h
    · exact h.put (hstandby st (h i st hst)) rfl
  · exact h

theorem All.forceAllStandby (h : s.All P)
    (hstandby : ∀ st, P st → P { st with standby := true, pcm := none }) :
    s.forceAllStandby.All P := by
  unfold Hal.forceAllStandby
  split
  · exact h.doInputStandby hstandby _
  · exact h

theorem All.takeSamples (h : s.All P)
    (hstandby : ∀ st, P st → P { st with standby := true, pcm := none }) (i : ℕ) (ok : Bool) :
    (s.takeSamples i ok).All P := by
  unfold Hal.takeSamples
  split
  · split
    · cases ok with
      | true => exact h
      | false =>
          have h' : ∀ uses, ({ s with uses := uses } : Hal).All P := fun _ => h
          exact (h' _).doInputStandby hstandby i
    · exact h
  · exact h

theorem All.inRead (h : s.All P)
    (hstandby : ∀ st, P st → P { st with standby := true, pcm := none }) {i : ℕ}
    {ready ok : Bool} (hstart : ∀ st, s.stream i = some st → st.standby = true →
      ready = true → P { st with standby := false, pcm := some (s.startConfig st) }) :
    (s.inRead inVoiceCall i ready ok).All P := by
  unfold Hal.inRead
  split
  · rename_i st hst
    split_ifs with hbypass hsb hready
    · exact h
    · have hstarted : (s.startInputStream i st ready).All P := by
        rw [startInputStream, if_pos hready]
        exact h.put (hstart st hst hsb hready) rfl
      exact hstarted.takeSamples hstandby i ok
    · rw [startInputStream, if_neg hready]
      exact h
    · exact h.takeSamples hstandby i ok
  · exact h

/-- What the standby, a new device and the start of a stream keep, and a new stream has,
every stream has. -/
theorem All.step (h : s.All P) {e : Event}
    (hopen : ∀ callStart a st, openInputStream callStart a = some st → P st)
    (hstandby : ∀ st, P st → P { st with standby := true, pcm := none })
    (hdevice : ∀ st device, P st → P { st with device := device })
    (hstart : ∀ i ready ok, e = .inRead i ready ok → ∀ st, s.stream i = some st →
      st.standby = true → ready = true →
        P { st with standby := false, pcm := some (s.startConfig st) }) :
    (s.step inVoiceCall e).All P := by
  unfold Hal.step
  cases e with
  | openInput a =>
      dsimp only
      split
      · rename_i st hst
        intro j st' hj
        rw [stream, get_alloc] at hj
        split_ifs at hj
        · obtain rfl := Option.some.inj hj
          exact hopen _ _ _ hst
        · exact h j st' hj
      · exact h
  | closeInput i =>
      intro j st' hj
      rw [stream, get_free] at hj
      split_ifs at hj
      exact h.doInputStandby hstandby i j st' hj
  | inStandby i => exact h.doInputStandby hstandby i
  | setDevice i device =>
      dsimp only
      split
      · rename_i st hst
        exact h.put (hdevice st device (h i st hst)) rfl
      · exact h
  | callStart => exact h.forceAllStandby hstandby
  | callEnd => exact h.forceAllStandby hstandby
  | setMode inCall => exact h
  | inRead i ready ok => exact h.inRead hstandby (hstart i ready ok rfl)

theorem built_step (h : s.All Stream.Built) (e : Event) :
    (s.step inVoiceCall e).All Stream.Built := by
  refine h.step (fun _ _ _ hst => (openInputStream_built hst).1)
    (fun st hst => ⟨hst.config, hst.resampler, hst.buffer⟩)
    (fun st _ hst => ⟨hst.config, hst.resampler, hst.buffer⟩) ?_
  intro i _ _ _ st hst _ _
  obtain ⟨hconfig, hresampler, hbuffer⟩ := h i st hst
  exact ⟨hconfig, hresampler, hbuffer⟩

theorem startConfig_agrees (hbuilt : s.All Stream.Built) {i : ℕ} {ready ok : Bool}
    (hreg : s.Regular (.inRead i ready ok)) {st : Stream} (hst : s.stream i = some st)
    (hsb : st.standby = true) (hready : ready = true) :
    (s.startConfig st).Agrees st.config := by
  unfold startConfig
  split
  · rename_i hcall
    exact (vrecVx_agrees_iff (hbuilt i st hst).config).mpr (hreg st hst hsb hcall hready)
  · exact agrees_refl st.config

theorem agreed_step (hbuilt : s.All Stream.Built) (h : s.All Stream.Agreed) {e : Event}
    (hreg : s.Regular e) : (s.step inVoiceCall e).All Stream.Agreed := by
  refine h.step (fun _ _ _ hst opened hopened => ?_) (fun _ _ opened hopened => nomatch hopened)
    (fun _ _ hst => hst) ?_
  · rw [(openInputStream_built hst).2] at hopened
    cases hopened
  · rintro i ready ok rfl st hst hsb hready opened ⟨⟩
    exact startConfig_agrees hbuilt hreg hst hsb hready

/-! ### The reads -/

theorem uses_doInputStandby (s : Hal) (i : ℕ) : (s.doInputStandby i).uses = s.uses := by
  unfold doInputStandby
  split
  · split <;> rfl
  · rfl

theorem uses_forceAllStandby (s : Hal) : s.forceAllStandby.uses = s.uses := by
  unfold forceAllStandby
  split
  · exact uses_doInputStandby s _
  · rfl

theorem uses_startInputStream (s : Hal) (i : ℕ) (st : Stream) (ready : Bool) :
    (s.startInputStream i st ready).uses = s.uses := by
  unfold startInputStream
  split <;> rfl

theorem uses_takeSamples {i : ℕ} {ok : Bool} {st : Stream} (hst : s.stream i = some st)
    {opened : PcmConfig} (hopened : st.pcm = some opened) :
    (s.takeSamples i ok).uses = s.uses ++ [⟨opened, st⟩] := by
  unfold takeSamples
  rw [hst]
  dsimp only
  rw [hopened]
  cases ok with
  | true => rfl
  | false => exact uses_doInputStandby _ i

theorem Faithful.takeSamples (h : s.Faithful) (hagreed : s.All Stream.Agreed) (i : ℕ)
    (ok : Bool) : (s.takeSamples i ok).Faithful := by
  cases hst : s.stream i with
  | none =>
      unfold Hal.takeSamples
      rw [hst]
      exact h
  | some st =>
      cases hopened : st.pcm with
      | none =>
          unfold Hal.takeSamples
          rw [hst]
          dsimp only
          rw [hopened]
          exact h
      | some opened =>
          unfold Faithful
          rw [uses_takeSamples hst hopened]
          intro u hu
          obtain hu | hu := List.mem_append.mp hu
          · exact h u hu
          · rw [List.mem_singleton.mp hu]
            exact hagreed i st hst opened hopened

theorem stream_startInputStream {i : ℕ} {st : Stream} :
    (s.startInputStream i st true).stream i =
      some { st with standby := false, pcm := some (s.startConfig st) } := by
  rw [startInputStream, if_pos rfl, stream, get_put, if_pos rfl]

theorem faithful_step (hbuilt : s.All Stream.Built) (hagreed : s.All Stream.Agreed)
    (h : s.Faithful) {e : Event} (hreg : s.Regular e) :
    (s.step inVoiceCall e).Faithful := by
  have hsame : ∀ t : Hal, t.uses = s.uses → t.Faithful := fun t ht => by
    unfold Faithful
    rwa [ht]
  unfold Hal.step
  cases e with
  | openInput a =>
      dsimp only
      split <;> exact h
  | closeInput i => exact hsame _ (uses_doInputStandby s i)
  | inStandby i => exact hsame _ (uses_doInputStandby s i)
  | setDevice i device =>
      dsimp only
      split <;> exact h
  | callStart => exact hsame _ (uses_forceAllStandby s)
  | callEnd => exact hsame _ (uses_forceAllStandby s)
  | setMode inCall => exact h
  | inRead i ready ok =>
      dsimp only
      unfold Hal.inRead
      split
      · rename_i st hst
        split_ifs with hbypass hsb hready
        · exact h
        · have hstarted : (s.startInputStream i st ready).All Stream.Agreed := by
            rw [startInputStream, if_pos hready]
            refine hagreed.put (fun opened hopened => ?_) rfl
            obtain rfl := Option.some.inj hopened
            exact startConfig_agrees hbuilt hreg hst hsb hready
          exact (hsame _ (uses_startInputStream s i st ready)).takeSamples hstarted i ok
        · exact hsame _ (uses_startInputStream s i st ready)
        · exact h.takeSamples hagreed i ok
      · exact h

/-- Only the steps that meet the condition lead to a state without a wrong read. -/
theorem regular_of_faithful_step (hbuilt : s.All Stream.Built) {e : Event}
    (hfaith : (s.step inVoiceCall e).Faithful) : s.Regular e := by
  cases e with
  | inRead i ready ok =>
      rintro st hst hsb hcall rfl
      have hbypass : s.inBypassData inVoiceCall st = false := by
        rw [inBypassData, hcall]
        rfl
      have hread : s.step inVoiceCall (.inRead i true ok) =
          (s.startInputStream i st true).takeSamples i ok := by
        unfold Hal.step Hal.inRead
        dsimp only
        rw [hst]
        dsimp only
        rw [hbypass, hsb]
        rfl
      rw [hread, Faithful, uses_takeSamples stream_startInputStream rfl] at hfaith
      have hagrees := hfaith _ (List.mem_append_right _ (List.mem_singleton_self _))
      rw [startConfig, if_pos hcall] at hagrees
      exact (vrecVx_agrees_iff (hbuilt i st hst).config).mp hagrees
  | openInput a => trivial
  | closeInput i => trivial
  | inStandby i => trivial
  | setDevice i device => trivial
  | callStart => trivial
  | callEnd => trivial
  | setMode inCall => trivial

/-! ### Runs -/

/-- What the regular steps keep. -/
structure Settled (s : Hal) : Prop where
  built : s.All Stream.Built
  agreed : s.All Stream.Agreed
  faithful : s.Faithful

theorem settled_init : init.Settled where
  built _ _ hst := by cases hst
  agreed _ _ hst := by cases hst
  faithful _ hu := by cases hu

/-- Whatever happens to a stream, its resampler and its buffer are those of `in->config`. -/
theorem built_run (inVoiceCall : UInt32) (es : List Event) :
    (Run.run (step inVoiceCall) init es).All Stream.Built := by
  have hstep : ∀ (s : Hal) (e : Event), True → s.All Stream.Built →
      (s.step inVoiceCall e).All Stream.Built := fun _ e _ h => built_step h e
  have hmeets : Run.Meets (step inVoiceCall) (fun _ _ => True) init es :=
    Run.meets_of_forall_mem (P := fun _ => True) (fun _ _ => trivial) _
  exact Run.invariant_run hstep hmeets settled_init.built

/-- Every read of a run is from a PCM that was opened as the stream was built exactly when
each step of the run meets the condition. -/
theorem faithful_capture_run_iff (inVoiceCall : UInt32) (es : List Event) :
    (∀ fs, fs <+: es → (Run.run (step inVoiceCall) init fs).Faithful) ↔
      Run.Meets (step inVoiceCall) Regular init es :=
  @Run.forall_prefix_iff_meets_of_invariant Hal Event (step inVoiceCall) Regular Settled
    Faithful (fun _ h => h.faithful)
    (fun _ e hreg h => ⟨built_step h.built e, agreed_step h.built h.agreed hreg,
      faithful_step h.built h.agreed h.faithful hreg⟩)
    (fun _ _ h hfaith => regular_of_faithful_step h.built hfaith) init settled_init es

theorem read_at_other_rate :
    ¬ ∀ (inVoiceCall : UInt32) (es : List Event),
      (Run.run (step inVoiceCall) init es).Faithful := by
  intro h
  have hfaith := h 0 [.openInput ⟨4, true, 1, 8000, true, true⟩, .callStart,
    .inRead 0 true true]
  obtain ⟨hrate, -⟩ := hfaith _ (List.mem_singleton_self _)
  exact absurd hrate (by decide)

end Hal

end InputStream

end Tarako
