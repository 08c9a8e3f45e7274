import Mathlib.Algebra.GroupWithZero.Nat
import Mathlib.Data.List.SplitLengths
import Tarako.Lib.Run
import Tarako.Lib.Splice
import Tarako.Lib.Words

/-!
# Commands of the ISP tool

`isp_diag_handler` reads the commands of the tool from a TCP connection: whatever one
`recv` leaves in `diag_cmd_buf` is handed to `handle_isp_data` as one command. The
connection is the stream of the commands' bytes, and a turn of the loop says what
`select` and `recv` find. No byte is lost or handed over twice (`Server.conserves`);
`sameCommands_iff_cuts` says for which cuts of the stream the calls are the commands.
-/

namespace Tarako

namespace IspVideo

open Words

def CMD_BUF_SIZE : ℕ := 1024

/-- `sizeof(MSG_HEAD_T)`: the structure is packed. -/
def msgHeadSize : ℕ := 8

structure MsgHead where
  seqNum : UInt32
  len : UInt16
  type : UInt8
  subtype : UInt8
  deriving DecidableEq, Repr

def MsgHead.bytes (h : MsgHead) : List UInt8 :=
  bytes32 h.seqNum ++ bytes16 h.len ++ [h.type, h.subtype]

@[simp] theorem MsgHead.length_bytes (h : MsgHead) : h.bytes.length = msgHeadSize := rfl

/-- A command as the tool sends it: `len` is the size of the head and the payload. -/
structure Command where
  head : MsgHead
  payload : List UInt8
  len_eq : head.len.toNat = msgHeadSize + payload.length

namespace Command

def bytes (c : Command) : List UInt8 := 0x7E :: (c.head.bytes ++ c.payload ++ [0x7E])

/-- The bytes of a command on the wire: its `len` and the two flags. -/
def size (c : Command) : ℕ := c.head.len.toNat + 2

theorem length_bytes (c : Command) : c.bytes.length = c.size := by
  simp only [bytes, size, List.length_cons, List.length_append, MsgHead.length_bytes,
    List.length_nil, c.len_eq]

end Command

def stream (cmds : List Command) : List UInt8 := (cmds.map Command.bytes).flatten

/-- The checks with which `handle_isp_data` begins, and the subtype it goes on with. -/
def handleIspData (buf : List UInt8) (len : ℕ) : Except Int UInt8 :=
  if len < msgHeadSize + 2 then .error (-1)
  else
    match buf[7]?, buf[8]? with
    | some type, some subtype => if type ≠ 0xfe then .error (-1) else .ok subtype
    | _, _ => .error (-1)

/-- What a turn of the loop finds: nothing to read within the time, bytes of which
`avail` have arrived, or a `recv` that fails. -/
inductive Turn
  | timeout
  | ready (avail : ℕ)
  | failed
  deriving DecidableEq, Repr

/-- The handler and its connection: the bytes not yet read, the static buffer, and the
calls of `handle_isp_data`, each with the bytes it is handed and its outcome. -/
structure Server where
  unread : List UInt8
  diagCmdBuf : Buffer UInt8 CMD_BUF_SIZE
  calls : List (List UInt8)
  results : List (Except Int UInt8)
  ended : Bool

namespace Server

def start (sent : List UInt8) : Server := ⟨sent, Buffer.fill CMD_BUF_SIZE 0, [], [], false⟩

/-- How many bytes `recv` returns. -/
def recvSize (avail unread : ℕ) : ℕ := min (min avail CMD_BUF_SIZE) unread

/-- One turn of the loop of `isp_diag_handler`; no code clears `wire_connected`. -/
def step (s : Server) (t : Turn) : Server :=
  if s.ended then s
  else
    match t with
    | .timeout => s
    | .failed => { s with ended := true }
    | .ready avail =>
        let cnt := recvSize avail s.unread.length
        if cnt = 0 then { s with ended := true }
        else
          let buf := s.diagCmdBuf.load (s.unread.take cnt)
          { unread := s.unread.drop cnt
            diagCmdBuf := buf
            calls := s.calls ++ [buf.bytes.take cnt]
            results := s.results ++ [handleIspData buf.bytes cnt]
            ended := false }

def run (s : Server) (ts : List Turn) : Server := Run.run step s ts

end Server

/-- Where the turns cut a stream: the sizes of what `recv` returns, for `unread` bytes. -/
def cuts (unread : ℕ) : List Turn → List ℕ
  | [] => []
  | .timeout :: ts => cuts unread ts
  | .failed :: _ => []
  | .ready avail :: ts =>
      let cnt := Server.recvSize avail unread
      if cnt = 0 then [] else cnt :: cuts (unread - cnt) ts

/-- The turns bring every byte of the commands to the handler. -/
def Delivers (cmds : List Command) (ts : List Turn) : Prop :=
  (cuts (stream cmds).length ts).sum = (stream cmds).length

/-- The calls of `handle_isp_data` on a connection. -/
def callsOf (cmds : List Command) (ts : List Turn) : List (List UInt8) :=
  ((Server.start (stream cmds)).run ts).calls

/-- Under both ways of cutting the stream the calls are the commands, each once. -/
def SameCommands (cmds : List Command) (ts us : List Turn) : Prop :=
  callsOf cmds ts = cmds.map Command.bytes ∧ callsOf cmds us = cmds.map Command.bytes

/-! ## One read -/

namespace Server

theorem recvSize_le_buffer (avail unread : ℕ) : recvSize avail unread ≤ CMD_BUF_SIZE := by
  rw [recvSize]
  omega

theorem recvSize_le (avail unread : ℕ) : recvSize avail unread ≤ unread := by
  rw [recvSize]
  omega

/-- What `recv` puts at the start of the buffer is what it returned. -/
theorem take_load (b : Buffer UInt8 CMD_BUF_SIZE) {d : List UInt8}
    (hd : d.length ≤ CMD_BUF_SIZE) : (b.load d).bytes.take d.length = d := by
  have htake : d.take CMD_BUF_SIZE = d := List.take_of_length_le hd
  have h := Splice.take_splice (d := d) (Nat.zero_le b.bytes.length)
  rw [Nat.zero_add, List.take_zero, List.nil_append] at h
  rw [Buffer.load]
  simp only [htake, h]

theorem handleIspData_take (buf : List UInt8) (cnt : ℕ) :
    handleIspData (buf.take cnt) cnt = handleIspData buf cnt := by
  by_cases h : cnt < msgHeadSize + 2
  · rw [handleIspData, handleIspData, if_pos h, if_pos h]
  · have hcnt : 10 ≤ cnt := Nat.not_lt.mp h
    have h7 : (buf.take cnt)[7]? = buf[7]? := List.getElem?_take_of_lt (by omega)
    have h8 : (buf.take cnt)[8]? = buf[8]? := List.getElem?_take_of_lt (by omega)
    rw [handleIspData, handleIspData, h7, h8]

theorem run_of_ended {s : Server} (h : s.ended = true) (ts : List Turn) : s.run ts = s := by
  induction ts with
  | nil => rfl
  | cons t ts ih =>
      have hstep : s.step t = s := by simp [step, h]
      rw [run, Run.run_cons, hstep]
      exact ih

theorem step_ready {s : Server} (h : s.ended = false) {avail : ℕ}
    (hcnt : recvSize avail s.unread.length ≠ 0) :
    (s.step (.ready avail)).unread = s.unread.drop (recvSize avail s.unread.length) ∧
      (s.step (.ready avail)).calls =
        s.calls ++ [s.unread.take (recvSize avail s.unread.length)] ∧
      (s.step (.ready avail)).results = s.results ++
        [handleIspData (s.unread.take (recvSize avail s.unread.length))
          (recvSize avail s.unread.length)] ∧
      (s.step (.ready avail)).ended = false := by
  have hlen : (s.unread.take (recvSize avail s.unread.length)).length =
      recvSize avail s.unread.length :=
    List.length_take_of_le (recvSize_le avail s.unread.length)
  have htake := take_load s.diagCmdBuf (hlen.le.trans (recvSize_le_buffer avail _))
  rw [hlen] at htake
  have hres := handleIspData_take
    (s.diagCmdBuf.load (s.unread.take (recvSize avail s.unread.length))).bytes
    (recvSize avail s.unread.length)
  rw [htake] at hres
  simp [step, h, hcnt, htake, hres]

end Server

/-! ## A whole connection -/

theorem sum_cuts_le (unread : ℕ) (ts : List Turn) : (cuts unread ts).sum ≤ unread := by
  induction ts generalizing unread with
  | nil => exact Nat.zero_le _
  | cons t ts ih =>
      cases t with
      | timeout => exact ih unread
      | failed => exact Nat.zero_le _
      | ready avail =>
          have hle := Server.recvSize_le avail unread
          by_cases hcnt : Server.recvSize avail unread = 0
          · simp [cuts, hcnt]
          · have hrest := ih (unread - Server.recvSize avail unread)
            simp only [cuts, hcnt, if_false, List.sum_cons]
            omega

namespace Server

/-- The calls of a connection are the pieces into which its stream is cut. -/
theorem calls_run {s : Server} (h : s.ended = false) (ts : List Turn) :
    (s.run ts).calls = s.calls ++ (cuts s.unread.length ts).splitLengths s.unread := by
  induction ts generalizing s with
  | nil => simp [run, cuts]
  | cons t ts ih =>
      rw [run, Run.run_cons, ← run]
      cases t with
      | timeout =>
          have hstep : s.step .timeout = s := by simp [step, h]
          rw [hstep, ih h, cuts]
      | failed =>
          have hstep : s.step .failed = { s with ended := true } := by simp [step, h]
          rw [hstep, run_of_ended rfl, cuts]
          simp
      | ready avail =>
          by_cases hcnt : recvSize avail s.unread.length = 0
          · have hstep : s.step (.ready avail) = { s with ended := true } := by
              simp [step, h, hcnt]
            rw [hstep, run_of_ended rfl]
            simp [cuts, hcnt]
          · obtain ⟨hunread, hcalls, -, hended⟩ := step_ready h hcnt
            rw [ih hended, hcalls, hunread, List.length_drop]
            simp [cuts, hcnt]

end Server

theorem callsOf_eq (cmds : List Command) (ts : List Turn) :
    callsOf cmds ts = (cuts (stream cmds).length ts).splitLengths (stream cmds) := by
  rw [callsOf, Server.calls_run rfl]
  rfl

theorem callsOf_eq_commands_iff (cmds : List Command) (ts : List Turn) :
    callsOf cmds ts = cmds.map Command.bytes ↔
      cuts (stream cmds).length ts = cmds.map Command.size := by
  have hsizes : (cmds.map Command.bytes).map List.length = cmds.map Command.size := by
    rw [List.map_map]
    exact List.map_congr_left fun c _ => c.length_bytes
  rw [callsOf_eq]
  constructor
  · intro h
    have hlen := List.map_splitLengths_length (stream cmds) _ (sum_cuts_le (stream cmds).length ts)
    rw [← hlen, h, hsizes]
  · intro h
    have hsum : (cuts (stream cmds).length ts).sum = (stream cmds).length := by
      rw [h, ← hsizes, stream, List.length_flatten]
    rw [List.eq_iff_flatten_eq]
    refine ⟨List.flatten_splitLengths _ _ hsum.ge, ?_⟩
    rw [List.map_splitLengths_length _ _ hsum.le, h, hsizes]

/-- Two ways of cutting the stream give the commands, each once, just when both cut it
between the commands. -/
theorem sameCommands_iff_cuts (cmds : List Command) (ts us : List Turn) :
    SameCommands cmds ts us ↔
      cuts (stream cmds).length ts = cmds.map Command.size ∧
        cuts (stream cmds).length us = cmds.map Command.size :=
  and_congr (callsOf_eq_commands_iff cmds ts) (callsOf_eq_commands_iff cmds us)

def startPreview : Command := ⟨⟨0, 8, 0xfe, 1⟩, [], rfl⟩

def stopPreview : Command := ⟨⟨1, 8, 0xfe, 2⟩, [], rfl⟩

/-- Both commands arrive in one segment: the handler makes one call with all the bytes. -/
theorem merged_commands_one_call :
    ∃ cmds ts us, Delivers cmds ts ∧ Delivers cmds us ∧ ¬ SameCommands cmds ts us := by
  refine ⟨[startPreview, stopPreview], [.ready 20], [.ready 10, .ready 10], ?_, ?_, ?_⟩
  · rw [Delivers]
    decide
  · rw [Delivers]
    decide
  · rintro ⟨h, -⟩
    rw [callsOf_eq_commands_iff] at h
    revert h
    decide

end IspVideo

end Tarako
