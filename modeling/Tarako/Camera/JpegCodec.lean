import Tarako.Lib.Run
import Tarako.Lib.Tokens

/-!
# The JPEG worker and its callers

The API of `jpeg_codec.c` under any number of threads, with the loop of `_thread_proc`.
A call posts a message to the queue of the worker, which is a FIFO of
`JPEG_MSG_QUEUE_SIZE` messages; `jpeg_stop` waits on `stop_sem`, and the two synchronous
requests, for the EXIF data and for a thumbnail, wait on `sync_sem` and read a static
result. Calls and the worker interleave between their accesses to `jcontext`, to the
handles and to the semaphores.

`jpeg_enc_start` and `jpeg_dec_start` allocate a handle and a codec context; session `n`
is the `n`-th such pair. The worker notes for each message that goes through a handle
whether handle and context were there, and for each `_dec_callback` what `active_handle`
led to. Allocations succeed, and what the codecs and the EXIF writer compute comes with
the events.
-/

namespace Tarako

namespace JpegCodec

def JPEG_MSG_QUEUE_SIZE : ℕ := 40

inductive Kind
  | enc
  | dec
  deriving DecidableEq, Repr

inductive Sync
  | exif
  | thumb
  deriving DecidableEq, Repr

/-- A message: `data` is a session's context or handle, or a request by its number. -/
inductive Msg
  | start (n : ℕ)
  | next (kind : Kind) (n : ℕ)
  | stop (n : ℕ)
  | kill
  | sync (kind : Sync) (r : ℕ)
  deriving DecidableEq, Repr

def Msg.isStop : Msg → Bool
  | stop _ => true
  | _ => false

/-- How far the call that starts a session has got: it has posted its message, stored
`active_handle`, stored the context in the handle, or stored `type` and returned. -/
inductive Stage
  | posted
  | active
  | published
  | returned
  deriving DecidableEq, Repr

structure Session where
  kind : Kind
  stage : Stage
  freed : Bool
  deriving DecidableEq, Repr

inductive Caller
  | idle
  | starting (n : ℕ)
  | nexting (kind : Kind) (n : ℕ)
  | stopping (n : ℕ)
  | waitingStop
  | clearing
  | joining
  | syncing (kind : Sync) (r : ℕ)
  | reading (kind : Sync) (r : ℕ)
  deriving DecidableEq, Repr

inductive Worker
  | waiting
  | got (m : Msg)
  | calling (n : ℕ)
  | answered
  | exited
  deriving DecidableEq, Repr

/-- What a request is answered with: an address and a size, which is 0 after a failure. -/
structure Result where
  addr : UInt32
  size : UInt32
  deriving DecidableEq, Repr

/-- A session that a message leads to, and whether its handle and context are there. -/
structure Access where
  session : ℕ
  live : Bool
  deriving DecidableEq, Repr

/-- A run of `_dec_callback` for a message of session `session`, and the session whose
context it reaches through `active_handle`. -/
structure Callback where
  session : ℕ
  reached : Option ℕ
  deriving DecidableEq, Repr

/-- `jcontext`, the static results, the sessions, the threads and the worker, and what
has been noted: the sessions that a STOP has been posted for, the accesses and callbacks
of the worker, the results it computed and those that callers received. -/
structure State where
  activeHandle : Option ℕ
  isStop : Bool
  stopSem : ℕ
  syncSem : ℕ
  queue : List Msg
  results : Sync → Result
  sessions : List Session
  callers : List Caller
  worker : Worker
  requests : ℕ
  stopPosted : List ℕ
  accesses : List Access
  callbacks : List Callback
  computed : List (ℕ × Option Result)
  received : List (ℕ × Option Result)

inductive Call
  | start (kind : Kind)
  | next (kind : Kind) (n : ℕ)
  | stop (n : ℕ)
  | deinit
  | sync (kind : Sync)
  deriving DecidableEq, Repr

/-- Thread `t` begins a call or goes on with it, or the worker takes its next step:
`result` is what a request yields, `again` that `_dec_callback` runs (once more). -/
inductive Event
  | call (t : ℕ) (c : Call)
  | resume (t : ℕ)
  | worker (result : Option Result) (again : Bool)
  deriving DecidableEq, Repr

namespace Session

def published (x : Session) : Bool := x.stage = .published || x.stage = .returned

end Session

def answer (r : Result) : Option Result := if r.size ≠ 0 then some r else none

def storeResult (old : Result) (kind : Sync) (result : Option Result) : Result :=
  match kind, result with
  | .exif, some r => r
  | .exif, none => { old with size := 0 }
  | .thumb, some r => ⟨0, r.size⟩
  | .thumb, none => ⟨0, 0⟩

namespace State

/-- `jpeg_init`, and `n` threads. -/
def start (n : ℕ) : State where
  activeHandle := none
  isStop := false
  stopSem := 0
  syncSem := 0
  queue := []
  results := fun _ => ⟨0, 0⟩
  sessions := []
  callers := List.replicate n .idle
  worker := .waiting
  requests := 0
  stopPosted := []
  accesses := []
  callbacks := []
  computed := []
  received := []

def setCaller (s : State) (t : ℕ) (c : Caller) : State := { s with callers := s.callers.set t c }

def setStage (s : State) (n : ℕ) (stage : Stage) : State :=
  { s with sessions := s.sessions.modify n fun x => { x with stage } }

def post (s : State) (m : Msg) : Option State :=
  if s.queue.length < JPEG_MSG_QUEUE_SIZE then some { s with queue := s.queue ++ [m] } else none

/-! ## The callers -/

/-- A call up to its first wait or its next access to shared data. A post that is refused
ends the call, and a `start` frees what it has allocated. -/
def call (s : State) (t : ℕ) : Call → State
  | .start kind =>
      let n := s.sessions.length
      match s.post (.start n) with
      | none => s
      | some s =>
          let s : State := { s with sessions := s.sessions ++ [⟨kind, .posted, false⟩] }
          s.setCaller t (.starting n)
  | .next kind n => if s.activeHandle ≠ some n then s else s.setCaller t (.nexting kind n)
  | .stop n => { s with isStop := true }.setCaller t (.stopping n)
  | .deinit =>
      match s.post .kill with
      | none => s
      | some s => s.setCaller t .joining
  | .sync kind =>
      match s.post (.sync kind s.requests) with
      | none => s
      | some s => { s with requests := s.requests + 1 }.setCaller t (.syncing kind s.requests)

/-- The rest of `jpeg_enc_start` and `jpeg_dec_start`. -/
def resumeStart (s : State) (t n : ℕ) : State :=
  match s.sessions[n]? with
  | none => s
  | some x =>
      match x.stage with
      | .posted => { s with activeHandle := some n }.setStage n .active
      | .active => s.setStage n .published
      | .published => (s.setStage n .returned).setCaller t .idle
      | .returned => s

def resume (s : State) (t : ℕ) : Caller → State
  | .idle => s
  | .starting n => s.resumeStart t n
  | .nexting kind n => ((s.post (.next kind n)).getD s).setCaller t .idle
  | .stopping n =>
      match s.post (.stop n) with
      -- is_stop stays set
      | none => s.setCaller t .idle
      | some s => { s with stopPosted := n :: s.stopPosted }.setCaller t .waitingStop
  | .waitingStop =>
      if s.stopSem = 0 then s else { s with stopSem := s.stopSem - 1 }.setCaller t .clearing
  | .clearing => { s with isStop := false }.setCaller t .idle
  | .joining => if s.worker = .exited then s.setCaller t .idle else s
  | .syncing kind r =>
      if s.syncSem = 0 then s else { s with syncSem := s.syncSem - 1 }.setCaller t (.reading kind r)
  | .reading kind r =>
      { s with received := s.received ++ [(r, answer (s.results kind))] }.setCaller t .idle

/-! ## The worker -/

/-- The handle of session `n` is there and leads to its context. -/
def live (s : State) (n : ℕ) : Bool := s.sessions[n]?.any fun x => !x.freed && x.published

/-- `_jpeg_stop` on a handle: it needs `type` as well, and clears `active_handle`. -/
def jpegStop (s : State) (n : ℕ) : State :=
  { s with
    accesses := s.accesses ++
      [⟨n, s.sessions[n]?.any fun x => !x.freed && x.stage = .returned⟩]
    sessions := s.sessions.modify n fun x => { x with freed := true }
    activeHandle := none }

/-- After the codec's work for session `n`: a decoder's message goes on to `_dec_callback`. -/
def afterCodec (s : State) (kind : Kind) (n : ℕ) : State :=
  match kind with
  | .enc => { s with worker := .waiting }
  | .dec => { s with worker := .calling n }

def process (s : State) (result : Option Result) : Msg → State
  | .start n =>
      match s.sessions[n]? with
      | none => { s with worker := .waiting }
      | some x => s.afterCodec x.kind n
  | .next kind n =>
      let s : State := { s with accesses := s.accesses ++ [⟨n, s.live n⟩] }
      s.afterCodec kind n
  | .stop n =>
      { s.jpegStop n with worker := .waiting, stopSem := s.stopSem + 1 }
  | .kill =>
      match s.activeHandle with
      | none => { s with worker := .exited }
      | some n => { s.jpegStop n with worker := .exited }
  | .sync kind r =>
      let value := storeResult (s.results kind) kind result
      { s with
        results := Function.update s.results kind value
        computed := s.computed ++ [(r, answer value)]
        worker := .answered }

def reached (s : State) : Option ℕ := s.activeHandle.filter s.live

def workerStep (s : State) (result : Option Result) (again : Bool) : State :=
  match s.worker with
  | .waiting =>
      match s.queue with
      | [] => s
      | m :: queue => { s with worker := .got m, queue }
  | .got m =>
      if s.isStop && !m.isStop then { s with worker := .waiting } else s.process result m
  | .calling n =>
      if again then { s with callbacks := s.callbacks ++ [⟨n, s.reached⟩] }
      else { s with worker := .waiting }
  | .answered => { s with worker := .waiting, syncSem := s.syncSem + 1 }
  | .exited => s

def step (s : State) : Event → State
  | .call t c => if s.callers[t]? = some .idle then s.call t c else s
  | .resume t => (s.callers[t]?.map (s.resume t)).getD s
  | .worker result again => s.workerStep result again

def run (s : State) (es : List Event) : State := Run.run step s es

theorem eq_of_post {s s' : State} {m : Msg} (h : s.post m = some s') :
    s' = { s with queue := s.queue ++ [m] } := by
  rw [post] at h
  split_ifs at h
  exact (Option.some.inj h).symm

theorem step_resume {s : State} {t : ℕ} {x : Caller} (h : s.callers[t]? = some x) :
    s.step (.resume t) = s.resume t x := by
  simp only [step, h, Option.map_some, Option.getD_some]

end State

end JpegCodec

end Tarako
