import Mathlib.Data.PNat.Defs
import Mathlib.Data.List.Basic
import Mathlib.Tactic.Common
import Tarako.Lib.Run

/-!
# The requests of the stream routing thread

The entry points of `audio_hw.c` change `adev->devices` and post `device_switch_sem`; the
stream routing thread takes the semaphore and sets the route for the devices that it reads.
`adev_open` posts for the default route, and creates the semaphore and the thread. There is
no voice call. `adev_close`, which destroys the semaphore and frees `adev`, ends the model.
-/

namespace Tarako

namespace Routing

/-- `AUDIO_DEVICE_OUT_ALL`, `AUDIO_DEVICE_IN_ALL` and `AUDIO_DEVICE_OUT_SPEAKER`. -/
structure Masks where
  outAll : UInt32
  inAll : UInt32
  outSpeaker : UInt32

/-- What a thread does to `adev->devices`, a load or a store at a time, and
`select_devices_signal`. -/
inductive Action where
  | load
  | storeAnd (mask : UInt32)
  | storeOr (bits : UInt32)
  | signal
  deriving DecidableEq

/-- The entry points that signal or that decide on a signal, with the `in->device` of
their stream. An input stream goes to standby without `adev->lock` when its `in_read`
fails. -/
inductive Request where
  | muteCodec (mute : Bool)
  | outRouting (val : UInt32)
  | startOutput
  | startInput (device : UInt32)
  | inputStandby (locked : Bool)
  | inRouting (device val : UInt32)
  | setMode (inCall : Bool)

structure Caller where
  locked : Bool
  tmp : UInt32
  rest : List Action

inductive Opening where
  | defaultRoute
  | signal
  | semInit
  | createThread
  | opened
  | failed
  deriving DecidableEq

/-- Where the routing thread is: at its `sem_wait`, behind it, or behind the read of
`adev->devices` in `do_select_devices`. -/
inductive Place where
  | absent
  | waiting
  | taken
  | applying
  deriving DecidableEq

structure Route where
  version : ℕ
  devices : UInt32

/-- The device with its threads. `writes` numbers the stores to `adev->devices`, `signalled`
is its value at the latest `select_devices_signal`, and `requests` counts the signals of
the entry points. -/
structure Hal where
  opening : Opening
  devices : UInt32
  inCall : Bool
  codecMute : Bool
  deviceSwitchSem : ℕ
  thread : Place
  callers : List Caller
  writes : ℕ
  signalled : ℕ
  requests : ℕ
  lastRoute : Option Route

inductive Event where
  | openStep (ok : Bool)
  | enter (r : Request)
  | act (i : ℕ)
  | route

namespace Hal

def init : Hal where
  opening := .defaultRoute
  devices := 0
  inCall := false
  codecMute := false
  deviceSwitchSem := 0
  thread := .absent
  callers := []
  writes := 0
  signalled := 0
  requests := 0
  lastRoute := none

def store (s : Hal) (devices : UInt32) : Hal :=
  { s with devices := devices, writes := s.writes + 1 }

/-- `select_devices_signal`; `sem_post` fails at the greatest value. -/
def selectDevicesSignal (semValueMax : ℕ+) (s : Hal) : Hal :=
  { s with
    deviceSwitchSem :=
      if s.deviceSwitchSem < semValueMax then s.deviceSwitchSem + 1 else s.deviceSwitchSem
    signalled := s.writes }

variable (m : Masks) (semValueMax : ℕ+)

/-- The statements of `adev_open` from the default route on. -/
def openStep (s : Hal) (ok : Bool) : Hal :=
  match s.opening with
  | .defaultRoute => { s.store m.outSpeaker with inCall := false, opening := .signal }
  | .signal =>
      { s.selectDevicesSignal semValueMax with opening := if ok then .semInit else .failed }
  | .semInit =>
      if ok then { s with deviceSwitchSem := 0, opening := .createThread }
      else { s with opening := .failed }
  | .createThread =>
      if ok then { s with thread := .waiting, opening := .opened }
      else { s with opening := .failed }
  | .opened => s
  | .failed => s

def clear (mask : UInt32) : List Action := [.load, .storeAnd (~~~mask)]

def set (bits : UInt32) : List Action := [.load, .storeOr bits]

/-- What is left to do for an entry point that has looked at the state. -/
def actions (s : Hal) : Request → List Action
  | .muteCodec mute => if s.codecMute = mute then [] else [.signal]
  | .outRouting val =>
      if s.devices &&& m.outAll ≠ val ∧ val ≠ 0 ∨ s.inCall then
        clear m.outAll ++ set val ++ [.signal]
      else []
  | .startOutput => [.signal]
  | .startInput device => clear m.inAll ++ set device ++ [.signal]
  | .inputStandby _ => if s.inCall then [] else clear m.inAll ++ [.signal]
  | .inRouting device val =>
      if device ≠ val ∧ val ≠ 0 then clear m.inAll ++ set val ++ [.signal] else []
  | .setMode _ => []

/-- Whether the entry point holds `adev->lock`. -/
def Request.locked : Request → Bool
  | .inputStandby locked => locked
  | _ => true

def settle (s : Hal) : Request → Hal
  | .muteCodec mute => { s with codecMute := mute }
  | .setMode inCall => { s with inCall := inCall }
  | _ => s

/-- An entry point is called once `adev_open` has returned; one that locks waits for the
caller that holds the lock. -/
def enter (s : Hal) (r : Request) : Hal :=
  if s.opening = .opened ∧ ¬ (Request.locked r = true ∧ s.callers.any (·.locked)) then
    { s.settle r with callers := s.callers ++ [⟨Request.locked r, 0, s.actions m r⟩] }
  else s

/-- The next action of the `i`-th caller, or its return. -/
def act (s : Hal) (i : ℕ) : Hal :=
  match s.callers[i]? with
  | none => s
  | some c =>
      match c.rest with
      | [] => { s with callers := s.callers.eraseIdx i }
      | .load :: rest =>
          { s with callers := s.callers.set i { c with tmp := s.devices, rest := rest } }
      | .storeAnd mask :: rest =>
          { s.store (c.tmp &&& mask) with callers := s.callers.set i { c with rest := rest } }
      | .storeOr bits :: rest =>
          { s.store (c.tmp ||| bits) with callers := s.callers.set i { c with rest := rest } }
      | .signal :: rest =>
          { s.selectDevicesSignal semValueMax with
            callers := s.callers.set i { c with rest := rest }
            requests := s.requests + 1 }

def routeStep (s : Hal) : Hal :=
  match s.thread with
  | .absent => s
  | .waiting =>
      if 0 < s.deviceSwitchSem then
        { s with deviceSwitchSem := s.deviceSwitchSem - 1, thread := .taken }
      else s
  | .taken => { s with lastRoute := some ⟨s.writes, s.devices⟩, thread := .applying }
  | .applying => { s with thread := .waiting }

def step (s : Hal) : Event → Hal
  | .openStep ok => s.openStep m semValueMax ok
  | .enter r => s.enter m r
  | .act i => s.act semValueMax i
  | .route => s.routeStep

def Idle (s : Hal) : Prop := s.thread = .waiting ∧ s.deviceSwitchSem = 0

/-- The last run of `do_select_devices` has seen what the latest signal was for. -/
def Routed (s : Hal) : Prop := ∃ r, s.lastRoute = some r ∧ s.signalled ≤ r.version

def Fresh (s : Hal) : Prop := s.Idle → s.Routed

/-- What every state satisfies: nothing runs before `adev_open` has returned, the
semaphore is 0 until an entry point signals, and a signal of one is in the semaphore, with
the routing thread, or seen. -/
structure Inv (s : Hal) : Prop where
  closed : s.opening ≠ .opened → s.thread = .absent ∧ s.callers = [] ∧ s.requests = 0
  created : s.opening = .createThread → s.deviceSwitchSem = 0
  lost : s.requests = 0 → s.lastRoute = none ∧
    (s.opening = .opened → s.thread = .waiting ∧ s.deviceSwitchSem = 0)
  served : 0 < s.requests → 0 < s.deviceSwitchSem ∨ s.thread = .taken ∨ s.Routed
  le : s.signalled ≤ s.writes
  current : ∀ r, s.lastRoute = some r → r.version ≤ s.writes ∧
    (r.version = s.writes → r.devices = s.devices)

variable {m semValueMax}
variable {s : Hal}

theorem inv_init : init.Inv where
  closed _ := ⟨rfl, rfl, rfl⟩
  created h := absurd h (by decide)
  lost _ := ⟨rfl, fun h => absurd h (by decide)⟩
  served h := absurd h (by decide)
  le := Nat.le_refl 0
  current r h := nomatch (h : none = some r)

theorem Inv.store (h : s.Inv) (devices : UInt32) : (s.store devices).Inv where
  closed := h.closed
  created := h.created
  lost := h.lost
  served := h.served
  le := Nat.le_succ_of_le h.le
  current r hr := by
    obtain ⟨hle, -⟩ := h.current r hr
    refine ⟨Nat.le_succ_of_le hle, fun heq => ?_⟩
    have heq : r.version = s.writes + 1 := heq
    exact absurd hle (by rw [heq]; exact Nat.not_succ_le_self _)

theorem Inv.callers (h : s.Inv) (hopened : s.opening = .opened) (callers : List Caller) :
    ({ s with callers := callers } : Hal).Inv where
  closed hne := absurd hopened hne
  created := h.created
  lost := h.lost
  served := h.served
  le := h.le
  current := h.current

theorem Inv.settle (h : s.Inv) (r : Request) : (s.settle r).Inv := by
  obtain ⟨hclosed, hcreated, hlost, hserved, hle, hcurrent⟩ := h
  cases r <;> exact ⟨hclosed, hcreated, hlost, hserved, hle, hcurrent⟩

theorem opening_settle (s : Hal) (r : Request) : (s.settle r).opening = s.opening := by
  cases r <;> rfl

theorem Inv.enter (h : s.Inv) (r : Request) : (s.enter m r).Inv := by
  unfold Hal.enter
  split
  · rename_i hcan
    exact (h.settle r).callers ((opening_settle s r).trans hcan.1) _
  · exact h

theorem deviceSwitchSem_signal_pos (s : Hal) :
    0 < (s.selectDevicesSignal semValueMax).deviceSwitchSem := by
  unfold selectDevicesSignal
  dsimp only
  split
  · exact Nat.succ_pos _
  · rename_i hmax
    exact Nat.lt_of_lt_of_le semValueMax.pos (Nat.not_lt.mp hmax)

theorem Inv.act (h : s.Inv) (i : ℕ) : (s.act semValueMax i).Inv := by
  unfold Hal.act
  cases hi : s.callers[i]? with
  | none => exact h
  | some c =>
      have hopened : s.opening = .opened := by
        by_contra hne
        rw [(h.closed hne).2.1] at hi
        cases hi
      dsimp only
      cases c.rest with
      | nil => exact h.callers hopened _
      | cons a rest =>
          cases a with
          | load => exact h.callers hopened _
          | storeAnd mask => exact (h.store _).callers hopened _
          | storeOr bits => exact (h.store _).callers hopened _
          | signal =>
              exact ⟨fun hne => absurd hopened hne, fun hcon => absurd (hopened.symm.trans hcon)
                (by decide), fun hcon => absurd hcon (Nat.succ_ne_zero _),
                fun _ => Or.inl (deviceSwitchSem_signal_pos s), Nat.le_refl _, h.current⟩

theorem Inv.openStep (h : s.Inv) (ok : Bool) : (s.openStep m semValueMax ok).Inv := by
  unfold Hal.openStep
  cases hopening : s.opening with
  | opened => exact h
  | failed => exact h
  | defaultRoute =>
      obtain ⟨hthread, hcallers, hrequests⟩ := h.closed (by rw [hopening]; decide)
      have hstore := h.store m.outSpeaker
      exact ⟨fun _ => ⟨hthread, hcallers, hrequests⟩, fun hcon => (nomatch hcon),
        fun hzero => ⟨(h.lost hzero).1, fun hcon => (nomatch hcon)⟩, hstore.served, hstore.le,
        hstore.current⟩
  | signal =>
      obtain ⟨hthread, hcallers, hrequests⟩ := h.closed (by rw [hopening]; decide)
      have hnot : ∀ o : Opening, o = .semInit ∨ o = .failed →
          o ≠ .opened ∧ o ≠ .createThread := by
        rintro o (rfl | rfl) <;> decide
      obtain ⟨hne, hne'⟩ := hnot (if ok then .semInit else .failed) (by cases ok <;> simp)
      exact ⟨fun _ => ⟨hthread, hcallers, hrequests⟩, fun hcon => absurd hcon hne',
        fun hzero => ⟨(h.lost hzero).1, fun hcon => absurd hcon hne⟩,
        fun hpos => absurd hrequests hpos.ne', Nat.le_refl _, h.current⟩
  | semInit =>
      obtain ⟨hthread, hcallers, hrequests⟩ := h.closed (by rw [hopening]; decide)
      cases ok with
      | true =>
          exact ⟨fun _ => ⟨hthread, hcallers, hrequests⟩, fun _ => rfl,
            fun hzero => ⟨(h.lost hzero).1, fun hcon => (nomatch hcon)⟩,
            fun hpos => absurd hrequests hpos.ne', h.le, h.current⟩
      | false =>
          exact ⟨fun _ => ⟨hthread, hcallers, hrequests⟩, fun hcon => (nomatch hcon),
            fun hzero => ⟨(h.lost hzero).1, fun hcon => (nomatch hcon)⟩, h.served, h.le,
            h.current⟩
  | createThread =>
      obtain ⟨hthread, hcallers, hrequests⟩ := h.closed (by rw [hopening]; decide)
      cases ok with
      | true =>
          exact ⟨fun hcon => absurd rfl hcon, fun hcon => (nomatch hcon),
            fun hzero => ⟨(h.lost hzero).1, fun _ => ⟨rfl, h.created hopening⟩⟩,
            fun hpos => absurd hrequests hpos.ne', h.le, h.current⟩
      | false =>
          exact ⟨fun _ => ⟨hthread, hcallers, hrequests⟩, fun hcon => (nomatch hcon),
            fun hzero => ⟨(h.lost hzero).1, fun hcon => (nomatch hcon)⟩, h.served, h.le,
            h.current⟩

theorem Inv.opened_of_thread (h : s.Inv) (hthread : s.thread ≠ .absent) :
    s.opening = .opened := by
  by_contra hne
  exact hthread (h.closed hne).1

theorem Inv.routeStep (h : s.Inv) : s.routeStep.Inv := by
  unfold Hal.routeStep
  cases hthread : s.thread with
  | absent => exact h
  | waiting =>
      have hopened := h.opened_of_thread (by rw [hthread]; decide)
      dsimp only
      split
      · rename_i hsem
        have hrequests : s.requests ≠ 0 := fun hzero =>
          hsem.ne' ((h.lost hzero).2 hopened).2
        exact ⟨fun hne => absurd hopened hne, fun hcon => absurd (hopened.symm.trans hcon)
          (by decide), fun hzero => absurd hzero hrequests, fun _ => Or.inr (Or.inl rfl), h.le,
          h.current⟩
      · exact h
  | taken =>
      have hopened := h.opened_of_thread (by rw [hthread]; decide)
      have hrequests : s.requests ≠ 0 := fun hzero => by
        have hwait := ((h.lost hzero).2 hopened).1
        rw [hthread] at hwait
        cases hwait
      refine ⟨fun hne => absurd hopened hne, fun hcon => absurd (hopened.symm.trans hcon)
        (by decide), fun hzero => absurd hzero hrequests,
        fun _ => Or.inr (Or.inr ⟨_, rfl, h.le⟩), h.le, ?_⟩
      rintro r ⟨⟩
      exact ⟨Nat.le_refl _, fun _ => rfl⟩
  | applying =>
      have hopened := h.opened_of_thread (by rw [hthread]; decide)
      have hrequests : s.requests ≠ 0 := fun hzero => by
        have hwait := ((h.lost hzero).2 hopened).1
        rw [hthread] at hwait
        cases hwait
      refine ⟨fun hne => absurd hopened hne, fun hcon => absurd (hopened.symm.trans hcon)
        (by decide), fun hzero => absurd hzero hrequests, fun hpos => ?_, h.le, h.current⟩
      obtain hsem | htaken | hrouted := h.served hpos
      · exact Or.inl hsem
      · rw [hthread] at htaken
        cases htaken
      · exact Or.inr (Or.inr hrouted)

theorem Inv.step (h : s.Inv) (e : Event) : (s.step m semValueMax e).Inv := by
  cases e with
  | openStep ok => exact h.openStep ok
  | enter r => exact h.enter r
  | act i => exact h.act i
  | route => exact h.routeStep

theorem inv_run (m : Masks) (semValueMax : ℕ+) (es : List Event) :
    (Run.run (step m semValueMax) init es).Inv :=
  Run.invariant_run (fun _ e _ h => h.step e)
    (Run.meets_of_forall_mem (P := fun _ => True) (fun _ _ => trivial) _) inv_init

/-- A routing thread that waits has seen every signal of the entry points, and none when
there was none. -/
theorem Inv.fresh_iff (h : s.Inv) : s.Fresh ↔ (s.Idle → 0 < s.requests) := by
  constructor
  · intro hfresh hidle
    by_contra hzero
    obtain ⟨r, hr, -⟩ := hfresh hidle
    rw [(h.lost (Nat.eq_zero_of_not_pos hzero)).1] at hr
    cases hr
  · intro hsome hidle
    obtain hsem | htaken | hrouted := h.served (hsome hidle)
    · exact absurd hidle.2 hsem.ne'
    · exact absurd (hidle.1.symm.trans htaken) (by decide)
    · exact hrouted

/-- In a state of a run in which the routing thread waits on 0, no request is lost exactly
when an entry point has signalled since `adev_open` made the semaphore. -/
theorem fresh_run_iff (m : Masks) (semValueMax : ℕ+) (es : List Event) :
    (Run.run (step m semValueMax) init es).Fresh ↔
      ((Run.run (step m semValueMax) init es).Idle →
        0 < (Run.run (step m semValueMax) init es).requests) :=
  (inv_run m semValueMax es).fresh_iff

/-- The semaphore is made anew behind the signal for the default route. -/
theorem default_route_lost :
    ¬ ∀ (m : Masks) (semValueMax : ℕ+) (es : List Event),
      (Run.run (step m semValueMax) init es).Fresh := by
  intro h
  obtain ⟨r, hr, -⟩ := h ⟨0x3fff, 0x3fff0000, 2⟩ 0x3fffffff
    [.openStep true, .openStep true, .openStep true, .openStep true] ⟨rfl, rfl⟩
  cases hr

/-- With no store since the latest signal, the route is that of `adev->devices`. -/
theorem devices_of_idle (m : Masks) (semValueMax : ℕ+) (es : List Event)
    (hidle : (Run.run (step m semValueMax) init es).Idle)
    (hsome : 0 < (Run.run (step m semValueMax) init es).requests)
    (hlast : (Run.run (step m semValueMax) init es).signalled =
      (Run.run (step m semValueMax) init es).writes) :
    ∃ r, (Run.run (step m semValueMax) init es).lastRoute = some r ∧
      r.devices = (Run.run (step m semValueMax) init es).devices := by
  have hinv := inv_run m semValueMax es
  obtain ⟨r, hr, hle⟩ := hinv.fresh_iff.mpr (fun _ => hsome) hidle
  obtain ⟨hle', hdevices⟩ := hinv.current r hr
  rw [hlast] at hle
  exact ⟨r, hr, hdevices (Nat.le_antisymm hle' hle)⟩

end Hal

end Routing

end Tarako
