import Tarako.Lib.Run
import Tarako.Lib.Words
import Tarako.Slog.ConfigReport

/-!
# The commands of the clients

`command_handler` takes one connection after the other, receives a `struct slog_cmd` from each
and acts on it. `cmd` is one variable for all connections, and `recv_socket` returns 0 when the
client closes, whatever it has received before. `complete_iff` says in which runs every command
acted on has been received whole.
-/

namespace Tarako

namespace Slog

open Run Text Splice

def sizeofSlogCmd : ℕ := 4 + MAX_LINE_LEN

/-- `struct slog_cmd` as it lies in memory. -/
abbrev SlogCmd := Bytes sizeofSlogCmd

inductive CtrlCmdType
  | reload
  | snap
  | snapAll
  | exec
  | on
  | off
  | query
  | clear
  | dump
  | screen
  | hookModem
  | rsp
deriving DecidableEq

namespace CtrlCmdType

def all : List CtrlCmdType :=
  [reload, snap, snapAll, exec, on, off, query, clear, dump, screen, hookModem, rsp]

def ofInt (n : UInt32) : Option CtrlCmdType := all[n.toNat]?

end CtrlCmdType

def CTRL_CMD_TYPE_RSP : UInt32 := 11

namespace SlogCmd

def type (cmd : SlogCmd) : UInt32 :=
  match cmd.bytes with
  | a :: b :: c :: d :: _ => Words.word32 a b c d
  | _ => 0

def content (cmd : SlogCmd) : Bytes MAX_LINE_LEN :=
  ⟨cmd.bytes.drop 4, by
    rw [List.length_drop, cmd.size_eq]
    rfl⟩

def mk (type : UInt32) (content : Bytes MAX_LINE_LEN) : SlogCmd :=
  ⟨Words.bytes32 type ++ content.bytes, by
    rw [List.length_append, Words.length_bytes32, content.size_eq]
    rfl⟩

end SlogCmd

inductive Action
  | reload
  | captureByName (name : List UInt8)
  | captureAll
  | notImplement
  | stop
  | genConfigString
  | clearAllLog
  | dumpAllLog (name : List UInt8)
  | hookModem
  | screenNotReady
  | screenShot (filename : List UInt8)
  | screenShotMisc
  | mkdirFailed
  | wrongCmd (type : UInt32) (content : List UInt8)
deriving DecidableEq

structure World where
  globals : Globals
  slogInitComplete : Bool
  mkdirOk : Bool
  result : ℤ

def sprintfContent (content : Bytes MAX_LINE_LEN) (text : List UInt8) : Bytes MAX_LINE_LEN :=
  content.load (text ++ [0])

def OK : List UInt8 := ofAscii ['O', 'K']

def FAIL : List UInt8 := ofAscii ['F', 'A', 'I', 'L']

/-- The `switch` on `cmd.type` with `ret` as it was before: what is done, and `ret` and
`cmd.content` after it. They are missing when slog exits, or when the configuration does not
fit into `cmd.content`. -/
def switchType (w : World) (cmd : SlogCmd) (ret : ℤ) :
    Action × Option (ℤ × Bytes MAX_LINE_LEN) :=
  match CtrlCmdType.ofInt cmd.type with
  | some .snap => (.captureByName (cstring cmd.content.bytes), some (w.result, cmd.content))
  | some .snapAll => (.captureAll, some (w.result, cmd.content))
  | some .exec => (.notImplement, some (-1, cmd.content))
  | some .on => (.notImplement, some (-1, cmd.content))
  | some .off => (.stop, some (w.result, cmd.content))
  | some .query =>
      (.genConfigString, (queryContent w.globals cmd.content).map fun content => (0, content))
  | some .clear => (.clearAllLog, some (w.result, cmd.content))
  | some .dump => (.dumpAllLog (cstring cmd.content.bytes), some (w.result, cmd.content))
  | some .hookModem => (.hookModem, some (0, cmd.content))
  | some .screen =>
      if w.globals.slogEnable ≠ .enable ∨ ¬ w.slogInitComplete then
        (.screenNotReady, some (ret, cmd.content))
      else if cstring cmd.content.bytes ≠ [] then
        (.screenShot (cstring cmd.content.bytes), some (w.result, cmd.content))
      else if w.mkdirOk then (.screenShotMisc, some (w.result, cmd.content))
      else (.mkdirFailed, none)
  | _ => (.wrongCmd cmd.type (cstring cmd.content.bytes), some (ret, cmd.content))

def answer (ret : ℤ) (content : Bytes MAX_LINE_LEN) : Bytes MAX_LINE_LEN :=
  if cstring content.bytes ≠ [] then content
  else if ret ≠ 0 then sprintfContent content FAIL
  else sprintfContent content OK

/-- A turn of `command_handler` behind `recv_socket`: what is done, and `cmd` as it is sent
back. -/
def actOn (w : World) (cmd : SlogCmd) (ret : ℤ) : Action × Option SlogCmd :=
  if CtrlCmdType.ofInt cmd.type = some .reload then
    (.reload, some (.mk CTRL_CMD_TYPE_RSP (sprintfContent cmd.content OK)))
  else
    let (action, after) := switchType w cmd ret
    (action, after.map fun r => .mk CTRL_CMD_TYPE_RSP (answer r.1 r.2))

/-! ## The connections -/

inductive RecvResult
  | data (bytes : List UInt8)
  | closed
  | error
deriving DecidableEq

/-- What happens to the handler; with the end of a connection, what its command finds. -/
inductive CmdEvent
  | accept (ok : Bool)
  | recv (result : RecvResult) (w : World)

/-- Where the handler is: in `accept`, in `recv_socket` with what it has received from the
client, or at its end. -/
inductive HandlerMode
  | accepting
  | receiving (received : List UInt8)
  | exited

/-- A command that the handler has acted on: what the client had sent, `cmd`, what was done,
and the answer. -/
structure Acted where
  received : List UInt8
  cmd : SlogCmd
  action : Action
  reply : Option SlogCmd

structure Handler where
  cmd : SlogCmd
  mode : HandlerMode
  acted : List Acted

namespace Handler

def start (cmd : SlogCmd) : Handler := ⟨cmd, .accepting, []⟩

def act (s : Handler) (w : World) (received : List UInt8) (ret : ℤ) : Handler :=
  let (action, reply) := actOn w s.cmd ret
  { cmd := reply.getD s.cmd
    mode := if reply.isSome then .accepting else .exited
    acted := s.acted ++ [⟨received, s.cmd, action, reply⟩] }

/-- A call of `recv` in `recv_socket`; it takes at least one byte, and no more than it is asked
for. -/
def recv (s : Handler) (w : World) (received : List UInt8) : RecvResult → Handler
  | .data bytes =>
      if h : bytes ≠ [] ∧ received.length + bytes.length ≤ sizeofSlogCmd then
        let s := { s with cmd := s.cmd.write received.length bytes h.2 }
        if received.length + bytes.length < sizeofSlogCmd then
          { s with mode := .receiving (received ++ bytes) }
        else s.act w (received ++ bytes) (received ++ bytes).length
      else s
  | .closed => s.act w received 0
  | .error => { s with mode := .accepting }

def step (s : Handler) : CmdEvent → Handler
  | .accept ok =>
      match s.mode with
      | .accepting => if ok then { s with mode := .receiving [] } else s
      | _ => s
  | .recv result w =>
      match s.mode with
      | .receiving received => s.recv w received result
      | _ => s

end Handler

/-- The whole command has been received from the client that it is performed for. -/
def Acted.Complete (a : Acted) : Prop :=
  a.received.length = sizeofSlogCmd ∧ a.cmd.bytes = a.received

/-- The client closes the connection while `recv_socket` still waits for bytes. -/
def Handler.ClosedEarly (s : Handler) (e : CmdEvent) : Prop :=
  ∃ received w, s.mode = .receiving received ∧ e = .recv .closed w

/-! ## What has been received -/

theorem bytes_take_write {n : ℕ} {b : Bytes n} {received bytes : List UInt8}
    (hb : b.bytes.take received.length = received) (h : received.length + bytes.length ≤ n) :
    (b.write received.length bytes h).bytes.take (received ++ bytes).length =
      received ++ bytes := by
  have hle : received.length ≤ b.bytes.length := by
    rw [b.size_eq]
    omega
  rw [List.length_append]
  change (splice b.bytes received.length bytes).take (received.length + bytes.length) = _
  rw [take_splice hle, hb]

namespace Handler

/-- While `recv_socket` waits, `cmd` starts with what it has received, and that is not all. -/
def Received (s : Handler) : Prop :=
  ∀ received, s.mode = .receiving received →
    received.length < sizeofSlogCmd ∧ s.cmd.bytes.take received.length = received

theorem received_act (s : Handler) (w : World) (received : List UInt8) (ret : ℤ) :
    (s.act w received ret).Received := by
  intro received' h
  simp only [act] at h
  split_ifs at h

theorem acted_act (s : Handler) (w : World) (received : List UInt8) (ret : ℤ) :
    (s.act w received ret).acted =
      s.acted ++ [⟨received, s.cmd, (actOn w s.cmd ret).1, (actOn w s.cmd ret).2⟩] := rfl

theorem received_recv {s : Handler} (hs : s.Received) (w : World) {received : List UInt8}
    (hmode : s.mode = .receiving received) (result : RecvResult) :
    (s.recv w received result).Received := by
  obtain ⟨-, htake⟩ := hs received hmode
  cases result with
  | closed => exact received_act s w received 0
  | error =>
      intro received' h
      cases h
  | data bytes =>
      rw [recv]
      split_ifs with hfits hmore
      · intro received' h
        cases h
        refine ⟨?_, bytes_take_write htake hfits.2⟩
        rw [List.length_append]
        exact hmore
      · exact received_act _ w _ _
      · exact hs

theorem received_step {s : Handler} (hs : s.Received) (e : CmdEvent) : (s.step e).Received := by
  cases e with
  | accept ok =>
      rw [step]
      split
      · split_ifs
        · intro received h
          cases h
          exact ⟨by decide, rfl⟩
        · exact hs
      · exact hs
  | recv result w =>
      rw [step]
      split
      · rename_i received hmode
        exact received_recv hs w hmode result
      · exact hs

theorem forall_acted_act_iff {s : Handler} (hq : ∀ a ∈ s.acted, a.Complete) (w : World)
    (received : List UInt8) (ret : ℤ) :
    (∀ a ∈ (s.act w received ret).acted, a.Complete) ↔
      received.length = sizeofSlogCmd ∧ s.cmd.bytes = received := by
  rw [acted_act, List.forall_mem_append, List.forall_mem_singleton]
  exact and_iff_right hq

/-- Of the calls of `recv` only one that returns 0 leads to a command that is not complete. -/
theorem forall_acted_recv_iff {s : Handler} (hs : s.Received)
    (hq : ∀ a ∈ s.acted, a.Complete) (w : World) {received : List UInt8}
    (hmode : s.mode = .receiving received) (result : RecvResult) :
    (∀ a ∈ (s.recv w received result).acted, a.Complete) ↔ result ≠ .closed := by
  obtain ⟨hlt, htake⟩ := hs received hmode
  cases result with
  | closed =>
      have hact := forall_acted_act_iff hq w received 0
      refine ⟨fun h => ?_, fun h => absurd rfl h⟩
      exact absurd (hact.mp h).1 (Nat.ne_of_lt hlt)
  | error => exact ⟨fun _ => RecvResult.noConfusion, fun _ => hq⟩
  | data bytes =>
      refine ⟨fun _ => RecvResult.noConfusion, fun _ => ?_⟩
      rw [recv]
      split_ifs with hfits hmore
      · exact hq
      · have hlen : (received ++ bytes).length = sizeofSlogCmd := by
          rw [List.length_append]
          omega
        have hbytes := bytes_take_write htake hfits.2
        rw [hlen, List.take_of_length_le (Nat.le_of_eq (Buffer.size_eq _))] at hbytes
        exact (@forall_acted_act_iff { s with cmd := s.cmd.write received.length bytes hfits.2 }
          hq w (received ++ bytes) (received ++ bytes).length).mpr ⟨hlen, hbytes⟩
      · exact hq

theorem forall_acted_step_iff {s : Handler} (hs : s.Received)
    (hq : ∀ a ∈ s.acted, a.Complete) (e : CmdEvent) :
    (∀ a ∈ (s.step e).acted, a.Complete) ↔ ¬ s.ClosedEarly e := by
  cases e with
  | accept ok =>
      have hacted : (s.step (.accept ok)).acted = s.acted := by
        rw [step]
        split
        · split_ifs <;> rfl
        · rfl
      rw [hacted]
      refine ⟨fun _ => ?_, fun _ => hq⟩
      rintro ⟨received, w, -, he⟩
      cases he
  | recv result w =>
      rw [step]
      split
      · rename_i received hmode
        rw [forall_acted_recv_iff hs hq w hmode]
        refine not_congr ⟨?_, ?_⟩
        · rintro rfl
          exact ⟨received, w, hmode, rfl⟩
        · rintro ⟨received', w', -, he⟩
          cases he
          rfl
      · rename_i hmode
        refine ⟨fun _ => ?_, fun _ => hq⟩
        rintro ⟨received, w', hreceiving, -⟩
        exact hmode received hreceiving

end Handler

/-- Whatever is in `cmd` at first and whatever the clients send: every command acted on has been
received whole on its own connection exactly in the runs in which no client closes while it is
received. -/
theorem acted_complete_iff (cmd : SlogCmd) (es : List CmdEvent) :
    (∀ fs, fs <+: es → ∀ a ∈ (run Handler.step (.start cmd) fs).acted, a.Complete) ↔
      Meets Handler.step (fun s e => ¬ s.ClosedEarly e) (.start cmd) es := by
  have hstart : (Handler.start cmd).Received := by
    intro received h
    cases h
  exact @forall_prefix_iff_meets Handler CmdEvent Handler.step (fun s e => ¬ s.ClosedEarly e)
    Handler.Received (fun s => ∀ a ∈ s.acted, a.Complete)
    (fun s e hs => Handler.received_step hs e)
    (fun s e hs hq => Handler.forall_acted_step_iff hs hq e) (.start cmd) hstart
    (by simp [Handler.start]) es

/-- The first client sends a type, `CTRL_CMD_TYPE_DUMP`, and one byte of a name, and its
connection fails; the second one closes without a byte. -/
def leftOver : List CmdEvent :=
  let w : World := ⟨shortConf, true, true, 0⟩
  [.accept true, .recv (.data [8, 0, 0, 0, 97]) w, .recv .error w, .accept true, .recv .closed w]

/-- `dump_all_log` is called for the second client with what the first one has sent. -/
theorem not_acted_complete_leftOver :
    ¬ ∀ (cmd : SlogCmd) (es : List CmdEvent),
      ∀ a ∈ (run Handler.step (.start cmd) es).acted, a.Complete := by
  intro h
  have hacted := h (Buffer.fill sizeofSlogCmd 0) leftOver
    ⟨[], _, .dumpAllLog [97], _⟩ (List.mem_singleton.mpr rfl)
  exact absurd hacted.1 (by decide)

end Slog

end Tarako
