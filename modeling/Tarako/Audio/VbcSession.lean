import Mathlib.Algebra.Group.Nat.Defs
import Mathlib.Data.List.Infix
import Mathlib.Tactic.Common
import Tarako.Audio.VbcCall
import Tarako.Lib.Words

/-!
# The packets of the VBC control thread

The CP sends packets of a head and parameters; `vbc_ctrl_thread_routine` reads the head
and then, in the function of the command, its parameters, each with one call of `read`,
and answers with heads. `read` gives at least one byte and at most what is asked for, and
blocks while there is none. What the commands set in the mixer is left out.
-/

namespace Tarako

namespace Vbc

open Words

/-- The `case` of `cmd_type`. -/
def Command.ofType (cmdType : UInt32) : Command :=
  if cmdType = 1 then .setMode
  else if cmdType = 3 then .setGain
  else if cmdType = 5 then .switchCtrl
  else if cmdType = 7 then .setMute
  else if cmdType = 9 then .deviceCtrl
  else if cmdType = 11 then .halOpen
  else if cmdType = 13 then .halClose
  else .unknown

/-- The size of the structure of a command: `paras_mode_gain_t`, `switch_ctrl_t`,
`set_mute_t`, `device_ctrl_t` and `open_hal_t`. -/
def Command.structSize : Command → Option ℕ
  | .setMode => some 52
  | .setGain => some 52
  | .switchCtrl => some 4
  | .setMute => some 4
  | .deviceCtrl => some 64
  | .halOpen => some 4
  | .halClose => none
  | .unknown => none

/-- The bytes that the case of a command asks `read` for. `ReadParas_Mute` is not used. -/
def Command.readSize : Command → Option ℕ
  | .setMute => none
  | c => c.structSize

/-- `"VBC"` with its NUL. -/
def tag : List UInt8 := [0x56, 0x42, 0x43, 0]

/-- `parameters_head_t`. -/
def head (cmdType parasSize : UInt32) : List UInt8 :=
  tag ++ bytes32 cmdType ++ bytes32 parasSize

def word32At (bytes : List UInt8) (i : ℕ) : UInt32 :=
  word32 (bytes.getD i 0) (bytes.getD (i + 1) 0) (bytes.getD (i + 2) 0) (bytes.getD (i + 3) 0)

def word16At (bytes : List UInt8) (i : ℕ) : UInt16 :=
  word16 (bytes.getD i 0) (bytes.getD (i + 1) 0)

/-- The check of `is_mode` and `is_volume` behind the read of the parameters. -/
def Command.accepts (c : Command) (paras : List UInt8) : Bool :=
  match c with
  | .setMode => word16At paras 0 ≠ 0
  | .setGain => word16At paras 2 ≠ 0
  | .deviceCtrl => word16At paras 12 ≠ 0 ∧ word16At paras 14 ≠ 0
  | _ => true

/-- A packet of the CP; a command with a structure has its bytes as parameters. -/
structure Packet where
  cmdType : UInt32
  paras : List UInt8
  lt : paras.length < 2 ^ 32
  size_eq : ∀ n, (Command.ofType cmdType).structSize = some n → paras.length = n

namespace Packet

def bytes (p : Packet) : List UInt8 :=
  head p.cmdType (UInt32.ofNat p.paras.length) ++ p.paras

def decoded (p : Packet) : UInt32 × List UInt8 := (p.cmdType, p.paras)

end Packet

def encode (pkts : List Packet) : List UInt8 := pkts.flatMap Packet.bytes

/-- The read at which the thread is: of a head, of the parameters of a command, of the
head that `VBC_CMD_HAL_CLOSE` waits for; or it has left its loop. -/
inductive Place where
  | readHead
  | paras (cmdType : UInt32)
  | closeHead
  | ended
  deriving DecidableEq

/-- A head that the thread writes, and the command that it is serving. -/
structure Reply where
  cmdType : UInt32
  head : List UInt8

/-- The thread with what is still in the pipe, its two heads, the commands that it has
decoded with their parameters, and its answers. -/
structure Session where
  input : List UInt8
  readCommonHead : List UInt8
  writeCommonHead : List UInt8
  place : Place
  call : Call
  served : List (UInt32 × List UInt8)
  replies : List Reply

/-- A call of `read` that gives up to `count` bytes, and the answers of `pcm_is_ready`. -/
structure ReadEvent where
  count : ℕ
  dlReady : Bool
  ulReady : Bool

namespace Session

def start (pkts : List Packet) : Session where
  input := encode pkts
  readCommonHead := List.replicate 12 0
  writeCommonHead := head 0 0
  place := .readHead
  call := { Call.init with pipeOpen := true }
  served := []
  replies := []

/-- How many bytes a `read` of `size` gives. -/
def amount (count size : ℕ) : ℕ := min (max count 1) size

/-- The bytes of the next `read`. -/
def got (s : Session) (count size : ℕ) : List UInt8 := s.input.take (amount count size)

def consume (s : Session) (count size : ℕ) : Session :=
  { s with input := s.input.drop (amount count size) }

/-- A read over a buffer: what it does not reach stays as it was. -/
def fill (buffer bytes : List UInt8) : List UInt8 := bytes ++ buffer.drop bytes.length

def writeRsp2cp (s : Session) (cmdType : UInt32) : Session :=
  { s with replies := s.replies ++ [⟨cmdType, head (cmdType + 1) 0⟩] }

/-- `VBC_CMD_HAL_CLOSE` answers from `write_common_head`. -/
def writeClose (s : Session) (cmdType : UInt32) : Session :=
  let writeCommonHead := s.writeCommonHead.take 4 ++ bytes32 14 ++ s.writeCommonHead.drop 8
  { s with
    writeCommonHead := writeCommonHead
    replies := s.replies ++ [⟨cmdType, writeCommonHead⟩] }

def decode (s : Session) (cmdType : UInt32) (paras : List UInt8) : Session :=
  { s with served := s.served ++ [(cmdType, paras)] }

def loop (s : Session) : Session :=
  { s with place := if s.call.isExit then .ended else .readHead }

/-- The `switch` up to the next read. -/
def serve (s : Session) (cmdType : UInt32) (e : ReadEvent) : Session :=
  let call := s.call.serve (.ofType cmdType) ⟨e.dlReady, e.ulReady, 0⟩
  match Command.ofType cmdType with
  | .setMute => s.decode cmdType []
  | .unknown => s.decode cmdType []
  | .halClose =>
      { (s.writeClose cmdType).decode cmdType [] with call := call, place := .closeHead }
  | .halOpen => { s.writeRsp2cp cmdType with call := call, place := .paras cmdType }
  | _ => { s.writeRsp2cp cmdType with place := .paras cmdType }

/-- `ReadParas_Head` and what follows up to the next read. -/
def readHead (s : Session) (e : ReadEvent) : Session :=
  let readCommonHead := fill s.readCommonHead (s.got e.count 12)
  let s' := { s.consume e.count 12 with readCommonHead := readCommonHead }
  if readCommonHead.take 3 = tag.take 3 then s'.serve (word32At readCommonHead 4) e else s'

/-- The read of the parameters into a structure of zeros, the check and the last answer. -/
def readParas (s : Session) (cmdType : UInt32) (size : ℕ) (e : ReadEvent) : Session :=
  let c := Command.ofType cmdType
  let bytes := s.got e.count size
  let paras := fill (List.replicate size 0) bytes
  let ret : ℤ := if c.accepts paras then bytes.length else -1
  let s' := (s.consume e.count size).decode cmdType paras
  -- `VBC_CMD_HAL_OPEN` opens its PCMs before it reads and does not look at the result.
  let call := if c = .halOpen then s.call else s.call.serve c ⟨e.dlReady, e.ulReady, ret⟩
  { (if ret < 0 then s' else s'.writeRsp2cp cmdType) with call := call }.loop

/-- `ReadParas_Head (s_vbpipe_fd, &write_common_head)` and the answer behind it. -/
def readCloseHead (s : Session) (e : ReadEvent) : Session :=
  let writeCommonHead := fill s.writeCommonHead (s.got e.count 12)
  ({ s.consume e.count 12 with writeCommonHead := writeCommonHead }.writeRsp2cp 13).loop

def step (s : Session) (e : ReadEvent) : Session :=
  if s.input = [] then s
  else
    match s.place with
    | .readHead => s.readHead e
    | .paras cmdType =>
        match (Command.ofType cmdType).readSize with
        | some size => s.readParas cmdType size e
        | none => s
    | .closeHead => s.readCloseHead e
    | .ended => s

/-- The state belongs to the packets: the decoded commands are the first of them, the
position in the pipe is behind the last of these (or behind the head of the next one),
the thread does not leave before the last one, and every answer is right. -/
structure Faithful (pkts : List Packet) (s : Session) : Prop where
  decoded : s.served <+: pkts.map Packet.decoded
  boundary : (∀ cmdType, s.place ≠ .paras cmdType) →
    s.input = encode (pkts.drop s.served.length)
  paras : ∀ cmdType, s.place = .paras cmdType → ∃ p rest,
    pkts.drop s.served.length = p :: rest ∧ p.cmdType = cmdType ∧
      s.input = p.paras ++ encode rest
  complete : s.place = .ended → s.served.length = pkts.length
  replies : ∀ r ∈ s.replies, r.head = head (r.cmdType + 1) 0

/-- The condition on a read that finds bytes: it gives all that is asked for; of a head,
the command reads its structure or has no parameters; of parameters, nothing follows them
when the command makes the thread leave; and no packet follows `VBC_CMD_HAL_CLOSE`. -/
def Regular (s : Session) (e : ReadEvent) : Prop :=
  s.input = [] ∨
    match s.place with
    | .readHead =>
        12 ≤ e.count ∧
          ((Command.ofType (word32At s.input 4)).readSize = none → word32At s.input 8 = 0)
    | .paras cmdType => ∀ size, (Command.ofType cmdType).readSize = some size →
        size ≤ e.count ∧
          (s.call.isExit = true ∨ (Command.ofType cmdType).accepts (s.input.take size) = false →
            s.input.length = size)
    | .closeHead => False
    | .ended => True

/-! ### Bytes -/

theorem length_head (cmdType parasSize : UInt32) : (head cmdType parasSize).length = 12 := rfl

theorem encode_cons (p : Packet) (rest : List Packet) :
    encode (p :: rest) =
      head p.cmdType (UInt32.ofNat p.paras.length) ++ (p.paras ++ encode rest) := by
  rw [encode, List.flatMap_cons, Packet.bytes, List.append_assoc]
  rfl

theorem length_encode_cons (p : Packet) (rest : List Packet) :
    (encode (p :: rest)).length = 12 + (p.paras.length + (encode rest).length) := by
  rw [encode_cons, List.length_append, List.length_append, length_head]

theorem encode_eq_nil_iff (pkts : List Packet) : encode pkts = [] ↔ pkts = [] := by
  cases pkts with
  | nil => exact iff_of_true rfl rfl
  | cons p rest =>
      have hpos : (encode (p :: rest)).length ≠ 0 := by
        rw [length_encode_cons]
        omega
      exact iff_of_false (fun h => hpos (List.length_eq_zero_iff.mpr h)) (List.cons_ne_nil _ _)

theorem word32At_head_cmdType (cmdType parasSize : UInt32) (l : List UInt8) :
    word32At (head cmdType parasSize ++ l) 4 = cmdType := word32_bytes32 cmdType

theorem word32At_head_parasSize (cmdType parasSize : UInt32) (l : List UInt8) :
    word32At (head cmdType parasSize ++ l) 8 = parasSize := word32_bytes32 parasSize

theorem fill_of_length {buffer bytes : List UInt8} (h : buffer.length = bytes.length) :
    fill buffer bytes = bytes := by
  rw [fill, List.drop_eq_nil_of_le h.le, List.append_nil]

theorem amount_pos {size : ℕ} (hsize : 0 < size) (count : ℕ) : 0 < amount count size :=
  Nat.lt_min.mpr ⟨Nat.lt_of_lt_of_le Nat.zero_lt_one (Nat.le_max_right _ _), hsize⟩

theorem amount_eq_iff {count size : ℕ} (hsize : 1 < size) :
    amount count size = size ↔ size ≤ count := by
  unfold amount
  omega

theorem four_le_readSize {c : Command} {size : ℕ} (h : c.readSize = some size) : 4 ≤ size := by
  cases c <;> simp [Command.readSize, Command.structSize] at h <;> omega

theorem structSize_of_readSize {c : Command} {size : ℕ} (h : c.readSize = some size) :
    c.structSize = some size := by
  cases c with
  | setMute => exact nomatch (h : none = some size)
  | _ => exact h

theorem Packet.length_paras {p : Packet} {size : ℕ}
    (h : (Command.ofType p.cmdType).readSize = some size) : p.paras.length = size :=
  p.size_eq size (structSize_of_readSize h)

theorem eq_of_ofType_halClose {cmdType : UInt32} (h : Command.ofType cmdType = .halClose) :
    cmdType = 13 := by
  unfold Command.ofType at h
  split_ifs at h
  assumption

/-! ### What a step does -/

variable {s : Session} {e : ReadEvent}

theorem serve_of_readSize_some {cmdType : UInt32} {size : ℕ}
    (h : (Command.ofType cmdType).readSize = some size) :
    ∃ call, s.serve cmdType e =
      { s.writeRsp2cp cmdType with call := call, place := .paras cmdType } := by
  unfold serve
  cases hc : Command.ofType cmdType with
  | setMute => exact nomatch (hc ▸ h : Command.readSize .setMute = some size)
  | unknown => exact nomatch (hc ▸ h : Command.readSize .unknown = some size)
  | halClose => exact nomatch (hc ▸ h : Command.readSize .halClose = some size)
  | halOpen => exact ⟨_, rfl⟩
  | _ => exact ⟨s.call, rfl⟩

theorem serve_of_readSize_none {cmdType : UInt32}
    (h : (Command.ofType cmdType).readSize = none) :
    s.serve cmdType e = s.decode cmdType [] ∨
      cmdType = 13 ∧ ∃ call, s.serve cmdType e =
        { (s.writeClose cmdType).decode cmdType [] with call := call, place := .closeHead } := by
  unfold serve
  cases hc : Command.ofType cmdType with
  | setMute => exact Or.inl rfl
  | unknown => exact Or.inl rfl
  | halClose => exact Or.inr ⟨eq_of_ofType_halClose hc, _, rfl⟩
  | halOpen => exact absurd (hc ▸ h) (by decide)
  | setMode => exact absurd (hc ▸ h) (by decide)
  | setGain => exact absurd (hc ▸ h) (by decide)
  | switchCtrl => exact absurd (hc ▸ h) (by decide)
  | deviceCtrl => exact absurd (hc ▸ h) (by decide)

theorem input_serve (s : Session) (cmdType : UInt32) (e : ReadEvent) :
    (s.serve cmdType e).input = s.input := by
  unfold serve
  cases Command.ofType cmdType <;> rfl

/-- A read of a head ends at one, at parameters, or with one more command decoded. -/
theorem readHead_cases (s : Session) (e : ReadEvent) :
    (s.readHead e).input = s.input.drop (amount e.count 12) ∧
      (((s.readHead e).place = s.place ∧ (s.readHead e).served = s.served) ∨
        (∃ c, (s.readHead e).place = .paras c ∧ (s.readHead e).served = s.served) ∨
        ((∀ c, s.place ≠ .paras c) → ∀ c, (s.readHead e).place ≠ .paras c) ∧
          (s.readHead e).served.length = s.served.length + 1) := by
  unfold readHead
  dsimp only
  split
  · refine ⟨input_serve _ _ _, ?_⟩
    rename_i htag
    cases hsize : (Command.ofType
        (word32At (fill s.readCommonHead (s.got e.count 12)) 4)).readSize with
    | some size =>
        obtain ⟨call, hserve⟩ := serve_of_readSize_some hsize
        rw [hserve]
        exact Or.inr (Or.inl ⟨_, rfl, rfl⟩)
    | none =>
        refine Or.inr (Or.inr ?_)
        obtain hserve | ⟨-, call, hserve⟩ := serve_of_readSize_none hsize
        · rw [hserve]
          exact ⟨fun h => h, List.length_append⟩
        · rw [hserve]
          exact ⟨fun _ c h => Place.noConfusion h, List.length_append⟩
  · exact ⟨rfl, Or.inl ⟨rfl, rfl⟩⟩

theorem readHead_of_head {cmdType parasSize : UInt32} {l : List UInt8}
    (hinput : s.input = head cmdType parasSize ++ l) (hlen : s.readCommonHead.length = 12)
    (hcount : 12 ≤ e.count) :
    s.readHead e =
      { s with input := l, readCommonHead := head cmdType parasSize }.serve cmdType e := by
  have hamount : amount e.count 12 = 12 := (amount_eq_iff (by decide)).mpr hcount
  have hgot : s.got e.count 12 = head cmdType parasSize := by
    rw [got, hamount, hinput]
    exact List.take_left' (length_head _ _)
  have hfill : fill s.readCommonHead (s.got e.count 12) = head cmdType parasSize := by
    rw [hgot, fill_of_length (hlen.trans (length_head _ _).symm)]
  have hrest : s.input.drop (amount e.count 12) = l := by
    rw [hamount, hinput]
    exact List.drop_left' (length_head _ _)
  have hcmd : word32At (head cmdType parasSize) 4 = cmdType := word32_bytes32 cmdType
  unfold readHead
  dsimp only
  have htag : (head cmdType parasSize).take 3 = tag.take 3 := rfl
  rw [hfill, if_pos htag, hcmd, consume, hrest]

theorem isExit_serve {c : Command} {size : ℕ} (h : c.readSize = some size)
    (hopen : c ≠ .halOpen) (call : Call) (a : Answers) :
    (call.serve c a).isExit = true ↔ call.isExit = true ∨ a.ret < 0 := by
  have hcheck : (call.checkRet a.ret).isExit = true ↔ call.isExit = true ∨ a.ret < 0 := by
    unfold Call.checkRet
    by_cases hret : a.ret < 0
    · rw [if_pos hret]
      exact iff_of_true rfl (Or.inr hret)
    · rw [if_neg hret, or_iff_left hret]
  cases c with
  | setMode => exact hcheck
  | setGain => exact hcheck
  | switchCtrl => exact hcheck
  | deviceCtrl => exact hcheck
  | halOpen => exact absurd rfl hopen
  | setMute => exact nomatch (h : none = some size)
  | halClose => exact nomatch (h : none = some size)
  | unknown => exact nomatch (h : none = some size)

theorem ret_neg_iff (accepts : Bool) (n : ℕ) :
    (if accepts then (n : ℤ) else -1) < 0 ↔ accepts = false := by
  cases accepts with
  | false => exact iff_of_true (by simp) rfl
  | true => exact iff_of_false (by simp) (by decide)

/-- A read of parameters decodes the command, whatever it has got. -/
theorem readParas_eq {cmdType : UInt32} {size : ℕ}
    (h : (Command.ofType cmdType).readSize = some size) :
    ∃ call replies, (s.readParas cmdType size e) =
        { (s.consume e.count size).decode cmdType
            (fill (List.replicate size 0) (s.got e.count size)) with
          call := call
          replies := s.replies ++ replies
          place := if call.isExit then .ended else .readHead } ∧
      (∀ r ∈ replies, r.head = head (r.cmdType + 1) 0) ∧
      (call.isExit = true ↔ s.call.isExit = true ∨ (Command.ofType cmdType).accepts
        (fill (List.replicate size 0) (s.got e.count size)) = false) := by
  unfold readParas
  dsimp only
  set paras := fill (List.replicate size 0) (s.got e.count size) with hparas
  set ret : ℤ := if (Command.ofType cmdType).accepts paras then
    ((s.got e.count size).length : ℤ) else -1 with hret
  have hneg : ret < 0 ↔ (Command.ofType cmdType).accepts paras = false := ret_neg_iff _ _
  set call := if Command.ofType cmdType = .halOpen then s.call else
    s.call.serve (.ofType cmdType) ⟨e.dlReady, e.ulReady, ret⟩ with hcall
  have hexit : call.isExit = true ↔
      s.call.isExit = true ∨ (Command.ofType cmdType).accepts paras = false := by
    by_cases hopen : Command.ofType cmdType = .halOpen
    · rw [hcall, if_pos hopen, hopen]
      exact (or_iff_left fun hcon => Bool.noConfusion hcon).symm
    · rw [hcall, if_neg hopen, isExit_serve h hopen, hneg]
  by_cases hr : ret < 0
  · refine ⟨call, [], ?_, fun r hr => absurd hr List.not_mem_nil, hexit⟩
    rw [if_pos hr, List.append_nil]
    rfl
  · refine ⟨call, [⟨cmdType, head (cmdType + 1) 0⟩], ?_, fun r hr => ?_, hexit⟩
    · rw [if_neg hr]
      rfl
    · rw [List.mem_singleton.mp hr]

/-! ### Runs -/

/-- The position of a thread that has `rest` to decode. -/
def At (rest : List Packet) (s : Session) : Prop :=
  match s.place with
  | .paras cmdType => ∃ p rest', rest = p :: rest' ∧ p.cmdType = cmdType ∧
      s.input = p.paras ++ encode rest' ∧
      (Command.ofType cmdType).readSize = some p.paras.length
  | .ended => rest = [] ∧ s.input = []
  | _ => s.input = encode rest

/-- What regular reads keep: beside the position, the two heads are whole. -/
structure Inv (pkts : List Packet) (s : Session) (done rest : List Packet) : Prop where
  split : pkts = done ++ rest
  served : s.served = done.map Packet.decoded
  pos : s.At rest
  replies : ∀ r ∈ s.replies, r.head = head (r.cmdType + 1) 0
  readHead : s.readCommonHead.length = 12
  writeHead : ∃ cmdType, s.writeCommonHead = head cmdType 0

variable {pkts done rest : List Packet}

theorem Inv.length_served (h : s.Inv pkts done rest) : s.served.length = done.length := by
  rw [h.served, List.length_map]

theorem drop_of_split (hsplit : pkts = done ++ rest) {n : ℕ} (hn : n = done.length) :
    pkts.drop n = rest := by
  rw [hsplit, hn]
  exact List.drop_left

theorem Inv.faithful (h : s.Inv pkts done rest) : s.Faithful pkts := by
  have hdrop : pkts.drop s.served.length = rest := drop_of_split h.split h.length_served
  have hpos := h.pos
  unfold At at hpos
  refine ⟨?_, fun hplace => ?_, fun c hc => ?_, fun hended => ?_, h.replies⟩
  · rw [h.served, h.split, List.map_append]
    exact List.prefix_append _ _
  · rw [hdrop]
    cases hp : s.place with
    | paras c => exact absurd hp (hplace c)
    | ended =>
        rw [hp] at hpos
        rw [hpos.1, hpos.2]
        rfl
    | readHead => rwa [hp] at hpos
    | closeHead => rwa [hp] at hpos
  · rw [hc] at hpos
    obtain ⟨p, rest', hrest, hcmd, hinput, -⟩ := hpos
    exact ⟨p, rest', hdrop.trans hrest, hcmd, hinput⟩
  · rw [hended] at hpos
    rw [h.length_served, h.split, hpos.1, List.append_nil]

theorem inv_start (pkts : List Packet) : (start pkts).Inv pkts [] pkts :=
  ⟨rfl, rfl, rfl, fun _ h => absurd h List.not_mem_nil, rfl, 0, rfl⟩

theorem Inv.snoc {p : Packet} (h : s.Inv pkts done (p :: rest)) :
    pkts = (done ++ [p]) ++ rest ∧
      s.served ++ [p.decoded] = (done ++ [p]).map Packet.decoded := by
  rw [h.served, List.map_append, List.append_assoc]
  exact ⟨h.split, rfl⟩

theorem forall_replies_append {l r : List Reply}
    (hl : ∀ x ∈ l, x.head = head (x.cmdType + 1) 0)
    (hr : ∀ x ∈ r, x.head = head (x.cmdType + 1) 0) :
    ∀ x ∈ l ++ r, x.head = head (x.cmdType + 1) 0 := by
  intro x hx
  obtain hx | hx := List.mem_append.mp hx
  · exact hl x hx
  · exact hr x hx

theorem Inv.readHead_cons {p : Packet} (h : s.Inv pkts done (p :: rest))
    (hplace : s.place = .readHead) (hinput : s.input = encode (p :: rest))
    (hcount : 12 ≤ e.count)
    (hbare : (Command.ofType p.cmdType).readSize = none → p.paras = []) :
    ∃ done' rest', (s.readHead e).Inv pkts done' rest' := by
  rw [encode_cons] at hinput
  rw [readHead_of_head hinput h.readHead hcount]
  have hrsp : ∀ x ∈ [(⟨p.cmdType, head (p.cmdType + 1) 0⟩ : Reply)],
      x.head = head (x.cmdType + 1) 0 := fun x hx => by rw [List.mem_singleton.mp hx]
  cases hsize : (Command.ofType p.cmdType).readSize with
  | some size =>
      obtain ⟨call, hserve⟩ := serve_of_readSize_some hsize
      rw [hserve]
      refine ⟨done, p :: rest, h.split, h.served, ?_, forall_replies_append h.replies hrsp,
        rfl, h.writeHead⟩
      have hlen := Packet.length_paras hsize
      exact ⟨p, rest, rfl, rfl, rfl, hsize.trans (congrArg some hlen.symm)⟩
  | none =>
      have hnil := hbare hsize
      have hdecoded : p.decoded = (p.cmdType, []) := by rw [Packet.decoded, hnil]
      obtain ⟨hsplit, hserved⟩ := h.snoc
      rw [hdecoded] at hserved
      have hpos : p.paras ++ encode rest = encode rest := by rw [hnil, List.nil_append]
      obtain hserve | ⟨hclose, call, hserve⟩ := serve_of_readSize_none hsize
      · rw [hserve]
        refine ⟨done ++ [p], rest, hsplit, hserved, ?_, h.replies, rfl, h.writeHead⟩
        unfold At decode
        dsimp only
        rw [hplace]
        exact hpos
      · rw [hserve]
        obtain ⟨c, hwrite⟩ := h.writeHead
        have hhead : s.writeCommonHead.take 4 ++ bytes32 14 ++ s.writeCommonHead.drop 8 =
            head 14 0 := by
          rw [hwrite]
          rfl
        refine ⟨done ++ [p], rest, hsplit, hserved, hpos, ?_, rfl, 14, hhead⟩
        refine forall_replies_append h.replies fun x hx => ?_
        rw [List.mem_singleton.mp hx]
        exact hhead.trans (by rw [hclose]; rfl)

theorem Inv.readParas_cons {p : Packet} (h : s.Inv pkts done (p :: rest))
    (hinput : s.input = p.paras ++ encode rest)
    (hsize : (Command.ofType p.cmdType).readSize = some p.paras.length)
    (hcount : p.paras.length ≤ e.count)
    (hlast : s.call.isExit = true ∨ (Command.ofType p.cmdType).accepts p.paras = false →
      rest = []) :
    (s.readParas p.cmdType p.paras.length e).Inv pkts (done ++ [p]) rest := by
  have hfour : 4 ≤ p.paras.length := four_le_readSize hsize
  have hamount : amount e.count p.paras.length = p.paras.length :=
    (amount_eq_iff (by omega)).mpr hcount
  have hgot : s.got e.count p.paras.length = p.paras := by
    rw [got, hamount, hinput]
    exact List.take_left
  have hrest : s.input.drop (amount e.count p.paras.length) = encode rest := by
    rw [hamount, hinput]
    exact List.drop_left
  have hfill : fill (List.replicate p.paras.length 0) (s.got e.count p.paras.length) = p.paras := by
    rw [hgot]
    exact fill_of_length List.length_replicate
  obtain ⟨call, replies, heq, hreplies, hexit⟩ := readParas_eq (s := s) (e := e) hsize
  rw [hfill] at heq hexit
  obtain ⟨hsplit, hserved⟩ := h.snoc
  rw [heq]
  refine ⟨hsplit, hserved, ?_, forall_replies_append h.replies hreplies, h.readHead, h.writeHead⟩
  unfold At
  dsimp only
  by_cases hex : call.isExit = true
  · have hnil : rest = [] := hlast (hexit.mp hex)
    rw [if_pos hex]
    refine ⟨hnil, hrest.trans ?_⟩
    rw [hnil]
    rfl
  · rw [if_neg hex]
    exact hrest

theorem Inv.step (h : s.Inv pkts done rest) (hreg : s.Regular e) :
    ∃ done' rest', (s.step e).Inv pkts done' rest' := by
  unfold Session.step
  by_cases hempty : s.input = []
  · rw [if_pos hempty]
    exact ⟨done, rest, h⟩
  · rw [if_neg hempty]
    have hreg := hreg.resolve_left hempty
    have hpos := h.pos
    unfold At at hpos
    cases hplace : s.place with
    | readHead =>
        rw [hplace] at hreg hpos
        cases rest with
        | nil => exact absurd hpos hempty
        | cons p rest =>
            refine h.readHead_cons hplace hpos hreg.1 fun hbare => ?_
            have hinput := hpos
            dsimp only at hinput hreg
            rw [encode_cons] at hinput
            rw [hinput, word32At_head_cmdType, word32At_head_parasSize] at hreg
            have hzero : p.paras.length % 2 ^ 32 = 0 :=
              UInt32.toNat_ofNat'.symm.trans (congrArg UInt32.toNat (hreg.2 hbare))
            exact List.length_eq_zero_iff.mp ((Nat.mod_eq_of_lt p.lt).symm.trans hzero)
    | paras c =>
        rw [hplace] at hreg hpos
        obtain ⟨p, rest', rfl, rfl, hinput, hsize⟩ := hpos
        dsimp only
        rw [hsize]
        obtain ⟨hcount, hlast⟩ := hreg _ hsize
        have htake : s.input.take p.paras.length = p.paras := by
          rw [hinput]
          exact List.take_left
        refine ⟨_, _, h.readParas_cons hinput hsize hcount fun hexit => ?_⟩
        rw [htake] at hlast
        have hlen := hlast hexit
        rw [hinput, List.length_append] at hlen
        exact (encode_eq_nil_iff _).mp (List.length_eq_zero_iff.mp (by omega))
    | closeHead =>
        rw [hplace] at hreg
        exact absurd hreg id
    | ended => exact ⟨done, rest, h⟩

/-! ### The converse -/

theorem Inv.drop_succ {p : Packet} (h : s.Inv pkts done (p :: rest)) {t : Session}
    (ht : t.served.length = s.served.length + 1) : pkts.drop t.served.length = rest := by
  have hlen : t.served.length = (done ++ [p]).length := by
    rw [ht, h.length_served, List.length_append]
    rfl
  exact drop_of_split h.snoc.1 hlen

theorem Inv.drop_same (h : s.Inv pkts done rest) {t : Session} (ht : t.served = s.served) :
    pkts.drop t.served.length = rest :=
  drop_of_split h.split ((congrArg List.length ht).trans h.length_served)

/-- A head is read at a boundary and left behind another one only in one read. -/
theorem Inv.count_of_faithful_readHead {p : Packet} (h : s.Inv pkts done (p :: rest))
    (hplace : s.place = .readHead) (hinput : s.input = encode (p :: rest))
    (hfaith : (s.readHead e).Faithful pkts) :
    12 ≤ e.count ∧
      ((s.readHead e).served.length = s.served.length + 1 → p.paras.length = 0) := by
  have hpos := amount_pos (by decide : 0 < 12) e.count
  have hle : amount e.count 12 ≤ 12 := Nat.min_le_right _ _
  have hnot : ∀ c, s.place ≠ .paras c := fun c hc => by
    rw [hplace] at hc
    cases hc
  obtain ⟨hread, hcases⟩ := readHead_cases s e
  have hlen : (s.readHead e).input.length =
      12 + (p.paras.length + (encode rest).length) - amount e.count 12 := by
    rw [hread, List.length_drop, hinput, length_encode_cons]
  rw [← amount_eq_iff (by decide : 1 < 12)]
  obtain ⟨hsame, hserved⟩ | ⟨c, hc, hserved⟩ | ⟨hother, hserved⟩ := hcases
  · have hbound := hfaith.boundary fun c hc => hnot c (hsame.symm.trans hc)
    rw [h.drop_same hserved] at hbound
    rw [hbound, length_encode_cons] at hlen
    omega
  · obtain ⟨q, rest', hdrop, -, hparas⟩ := hfaith.paras c hc
    rw [h.drop_same hserved, List.cons_eq_cons] at hdrop
    obtain ⟨rfl, rfl⟩ := hdrop
    rw [hparas, List.length_append] at hlen
    refine ⟨by omega, fun hcon => ?_⟩
    rw [hserved] at hcon
    omega
  · have hbound := hfaith.boundary (hother hnot)
    rw [h.drop_succ hserved] at hbound
    rw [hbound] at hlen
    exact ⟨by omega, fun _ => by omega⟩

theorem Inv.parasSize_of_faithful_readHead {p : Packet} (h : s.Inv pkts done (p :: rest))
    (hplace : s.place = .readHead) (hinput : s.input = encode (p :: rest))
    (hfaith : (s.readHead e).Faithful pkts)
    (hbare : (Command.ofType (word32At s.input 4)).readSize = none) :
    word32At s.input 8 = 0 := by
  obtain ⟨hcount, hsucc⟩ := h.count_of_faithful_readHead hplace hinput hfaith
  rw [encode_cons] at hinput
  rw [hinput, word32At_head_cmdType] at hbare
  rw [hinput, word32At_head_parasSize]
  have hzero : p.paras.length = 0 := by
    refine hsucc ?_
    rw [readHead_of_head hinput h.readHead hcount]
    obtain hserve | ⟨-, call, hserve⟩ := serve_of_readSize_none hbare
    · rw [hserve]
      exact List.length_append
    · rw [hserve]
      exact List.length_append
  rw [hzero]
  rfl

/-- The parameters are read in one read, and the thread leaves only behind the last of them. -/
theorem Inv.regular_of_faithful_readParas {p : Packet} (h : s.Inv pkts done (p :: rest))
    (hinput : s.input = p.paras ++ encode rest)
    (hsize : (Command.ofType p.cmdType).readSize = some p.paras.length)
    (hfaith : (s.readParas p.cmdType p.paras.length e).Faithful pkts) :
    p.paras.length ≤ e.count ∧
      (s.call.isExit = true ∨
          (Command.ofType p.cmdType).accepts (s.input.take p.paras.length) = false →
        s.input.length = p.paras.length) := by
  have hfour := four_le_readSize hsize
  obtain ⟨call, replies, heq, -, hexit⟩ := readParas_eq (s := s) (e := e) hsize
  rw [heq] at hfaith
  have hserved : (s.served ++ [(p.cmdType, fill (List.replicate p.paras.length 0)
      (s.got e.count p.paras.length))]).length = s.served.length + 1 := List.length_append
  have hbound := hfaith.boundary fun c hc => by
    dsimp only at hc
    split at hc <;> cases hc
  have hdrop := h.drop_succ (t := { s with served := s.served ++ [(p.cmdType,
    fill (List.replicate p.paras.length 0) (s.got e.count p.paras.length))] }) hserved
  have hrest : s.input.drop (amount e.count p.paras.length) = encode rest :=
    hbound.trans (congrArg encode hdrop)
  have hlen := congrArg List.length hrest
  rw [List.length_drop, hinput, List.length_append] at hlen
  have hle : amount e.count p.paras.length ≤ p.paras.length := Nat.min_le_right _ _
  have hcount : amount e.count p.paras.length = p.paras.length := by omega
  refine ⟨(amount_eq_iff (by omega)).mp hcount, fun hleave => ?_⟩
  have hgot : s.got e.count p.paras.length = s.input.take p.paras.length := by
    rw [got, hcount]
  have htake : (s.input.take p.paras.length).length = p.paras.length := by
    rw [hinput, List.take_left]
  rw [hgot, fill_of_length (List.length_replicate.trans htake.symm)] at hexit
  have hended := hfaith.complete (if_pos (hexit.mpr hleave))
  have hall : pkts.length = s.served.length + 1 := hended.symm.trans hserved
  rw [h.split, h.length_served, List.length_append, List.length_cons] at hall
  have hnil : rest = [] := List.length_eq_zero_iff.mp (by omega)
  rw [hinput, hnil, List.length_append]
  rfl

theorem Inv.not_faithful_readCloseHead (h : s.Inv pkts done rest) (hinput : s.input = encode rest)
    (hlength : s.input.length ≠ 0) : ¬ (s.readCloseHead e).Faithful pkts := by
  intro hfaith
  have hamount := amount_pos (by decide : 0 < 12) e.count
  have hbound := hfaith.boundary fun c hc => by
    dsimp only [readCloseHead, loop] at hc
    split at hc <;> cases hc
  have hdrop : pkts.drop (s.readCloseHead e).served.length = rest := h.drop_same rfl
  have hrest : s.input.drop (amount e.count 12) = s.input :=
    hbound.trans ((congrArg encode hdrop).trans hinput.symm)
  have hlen := congrArg List.length hrest
  rw [List.length_drop] at hlen
  omega

/-- Out of the invariant only regular reads lead to a state that belongs to the packets. -/
theorem Inv.regular_of_faithful_step (h : s.Inv pkts done rest)
    (hfaith : (s.step e).Faithful pkts) : s.Regular e := by
  unfold Session.step at hfaith
  by_cases hempty : s.input = []
  · exact Or.inl hempty
  · rw [if_neg hempty] at hfaith
    refine Or.inr ?_
    have hpos := h.pos
    unfold At at hpos
    cases hplace : s.place with
    | ended => trivial
    | readHead =>
        rw [hplace] at hpos hfaith
        cases rest with
        | nil => exact absurd hpos hempty
        | cons p rest =>
            exact ⟨(h.count_of_faithful_readHead hplace hpos hfaith).1,
              h.parasSize_of_faithful_readHead hplace hpos hfaith⟩
    | paras c =>
        rw [hplace] at hpos hfaith
        obtain ⟨p, rest', rfl, rfl, hinput, hsize⟩ := hpos
        dsimp only at hfaith
        rw [hsize] at hfaith
        intro size hsize'
        obtain rfl : p.paras.length = size := Packet.length_paras hsize'
        exact h.regular_of_faithful_readParas hinput hsize hfaith
    | closeHead =>
        rw [hplace] at hpos hfaith
        exact h.not_faithful_readCloseHead hpos (mt List.length_eq_zero_iff.mp hempty) hfaith

/-- Every state of a run belongs to the packets exactly when each of its reads meets the
condition. -/
theorem faithful_session_run_iff (pkts : List Packet) (es : List ReadEvent) :
    (∀ fs, fs <+: es → (Run.run step (start pkts) fs).Faithful pkts) ↔
      Run.Meets step Regular (start pkts) es :=
  @Run.forall_prefix_iff_meets_of_invariant Session ReadEvent step Regular
    (fun s => ∃ done rest, s.Inv pkts done rest) (Faithful pkts)
    (fun _ ⟨_, _, h⟩ => h.faithful) (fun _ _ hreg ⟨_, _, h⟩ => h.step hreg)
    (fun _ _ ⟨_, _, h⟩ hfaith => h.regular_of_faithful_step hfaith) (start pkts)
    ⟨[], pkts, inv_start pkts⟩ es

/-- A packet that mutes, with the four bytes of `set_mute_t`. -/
def mutePacket : Packet := ⟨7, [1, 0, 0, 0], by decide, by decide⟩

theorem mute_not_decoded :
    ¬ ∀ (pkts : List Packet) (es : List ReadEvent),
      (Run.run step (start pkts) es).Faithful pkts := by
  intro h
  have hfaith := h [mutePacket] [⟨12, true, true⟩]
  have hbound := hfaith.boundary fun c hc => by
    have hplace : (Run.run step (start [mutePacket]) [⟨12, true, true⟩]).place = .readHead := by
      decide
    rw [hplace] at hc
    cases hc
  exact absurd hbound (by decide)

/-! ### The call of a session -/

/-- The thread serves a command only while its pipe is open and it is not to leave. -/
structure Live (s : Session) : Prop where
  pipeOpen : s.call.pipeOpen = true
  readHead : s.place = .readHead → s.call.isExit = false
  paras : ∀ cmdType, s.place = .paras cmdType → Command.ofType cmdType ≠ .halOpen →
    s.call.isExit = false

theorem pipeOpen_serve (call : Call) (c : Command) (a : Answers) :
    (call.serve c a).pipeOpen = call.pipeOpen := by
  have hcheck : (call.checkRet a.ret).pipeOpen = call.pipeOpen := by
    unfold Call.checkRet
    split <;> rfl
  cases c with
  | halOpen =>
      unfold Call.serve Call.halOpen Call.openUl Call.openDl
      cases a.dlReady <;> cases a.ulReady <;> rfl
  | halClose =>
      unfold Call.serve Call.endCall
      dsimp only
      split <;> rfl
  | setMode => exact hcheck
  | setGain => exact hcheck
  | switchCtrl => exact hcheck
  | deviceCtrl => exact hcheck
  | setMute => rfl
  | unknown => rfl

theorem call_step_command {call : Call} (hpipe : call.pipeOpen = true)
    (hexit : call.isExit = false) (c : Command) (a : Answers) :
    call.step (.command c a) = call.serve c a := by
  refine if_pos ?_
  rw [Call.reading, hpipe, hexit]
  rfl

theorem live_loop {t : Session} (hpipe : t.call.pipeOpen = true) : t.loop.Live where
  pipeOpen := hpipe
  readHead hplace := by
    unfold loop at hplace
    dsimp only at hplace
    split at hplace
    · cases hplace
    · exact eq_false_of_ne_true ‹_›
  paras c hplace := by
    unfold loop at hplace
    dsimp only at hplace
    split at hplace <;> cases hplace

/-- A command changes the call as one step of it does, or leaves it alone. -/
theorem Live.serve (h : s.Live) (hplace : s.place = .readHead) (cmdType : UInt32)
    (e : ReadEvent) :
    (s.serve cmdType e).Live ∧
      ((s.serve cmdType e).call = s.call ∨
        ∃ event, (s.serve cmdType e).call = s.call.step event) := by
  have hexit := h.readHead hplace
  have hsame : ∀ t : Session, t.call = s.call → t.Live := fun t ht =>
    ⟨ht ▸ h.pipeOpen, fun _ => ht ▸ hexit, fun _ _ _ => ht ▸ hexit⟩
  have hpipe := pipeOpen_serve s.call (.ofType cmdType) ⟨e.dlReady, e.ulReady, 0⟩
  have hstep := call_step_command h.pipeOpen hexit (.ofType cmdType) ⟨e.dlReady, e.ulReady, 0⟩
  unfold Session.serve
  cases hc : Command.ofType cmdType with
  | setMute => exact ⟨hsame _ rfl, Or.inl rfl⟩
  | unknown => exact ⟨hsame _ rfl, Or.inl rfl⟩
  | setMode => exact ⟨hsame _ rfl, Or.inl rfl⟩
  | setGain => exact ⟨hsame _ rfl, Or.inl rfl⟩
  | switchCtrl => exact ⟨hsame _ rfl, Or.inl rfl⟩
  | deviceCtrl => exact ⟨hsame _ rfl, Or.inl rfl⟩
  | halOpen =>
      rw [hc] at hpipe hstep
      refine ⟨⟨hpipe.trans h.pipeOpen, fun hcon => Place.noConfusion hcon, ?_⟩,
        Or.inr ⟨_, hstep.symm⟩⟩
      rintro c ⟨⟩ hne
      exact absurd hc hne
  | halClose =>
      rw [hc] at hpipe hstep
      exact ⟨⟨hpipe.trans h.pipeOpen, fun hcon => Place.noConfusion hcon,
        fun _ hcon => Place.noConfusion hcon⟩, Or.inr ⟨_, hstep.symm⟩⟩

theorem Live.readParas (h : s.Live) {cmdType : UInt32} (hplace : s.place = .paras cmdType)
    (size : ℕ) (e : ReadEvent) :
    (s.readParas cmdType size e).Live ∧
      ((s.readParas cmdType size e).call = s.call ∨
        ∃ event, (s.readParas cmdType size e).call = s.call.step event) := by
  unfold Session.readParas
  dsimp only
  by_cases hopen : Command.ofType cmdType = .halOpen
  · rw [if_pos hopen]
    exact ⟨live_loop h.pipeOpen, Or.inl rfl⟩
  · rw [if_neg hopen]
    have hexit := h.paras cmdType hplace hopen
    exact ⟨live_loop ((pipeOpen_serve _ _ _).trans h.pipeOpen),
      Or.inr ⟨_, (call_step_command h.pipeOpen hexit _ _).symm⟩⟩

theorem Live.step (h : s.Live) (e : ReadEvent) :
    (s.step e).Live ∧
      ((s.step e).call = s.call ∨ ∃ event, (s.step e).call = s.call.step event) := by
  unfold Session.step
  split
  · exact ⟨h, Or.inl rfl⟩
  · cases hplace : s.place with
    | readHead =>
        dsimp only
        unfold Session.readHead
        dsimp only
        have hnext : ({ s.consume e.count 12 with
            readCommonHead := fill s.readCommonHead (s.got e.count 12) } : Session).Live :=
          ⟨h.pipeOpen, h.readHead, h.paras⟩
        split
        · exact hnext.serve hplace _ _
        · exact ⟨hnext, Or.inl rfl⟩
    | paras c =>
        dsimp only
        cases (Command.ofType c).readSize with
        | some size => exact h.readParas hplace size e
        | none => exact ⟨h, Or.inl rfl⟩
    | closeHead => exact ⟨live_loop h.pipeOpen, Or.inl rfl⟩
    | ended => exact ⟨h, Or.inl rfl⟩

/-- The call of a session goes through a run of the call: what holds of every such run
holds of the calls that packets lead to. -/
theorem call_run (pkts : List Packet) (es : List ReadEvent) :
    ∃ events, (Run.run step (start pkts) es).call = Run.run Call.step Call.init events := by
  have hstart : (start pkts).Live ∧
      ∃ events, (start pkts).call = Run.run Call.step Call.init events :=
    ⟨⟨rfl, fun _ => rfl, fun _ _ _ => rfl⟩, [.openPipe true], rfl⟩
  have hstep : ∀ (s : Session) (e : ReadEvent), True →
      (s.Live ∧ ∃ events, s.call = Run.run Call.step Call.init events) →
      (s.step e).Live ∧ ∃ events, (s.step e).call = Run.run Call.step Call.init events := by
    rintro s e - ⟨hlive, events, hcall⟩
    obtain ⟨hnext, hsame | ⟨event, hevent⟩⟩ := hlive.step e
    · exact ⟨hnext, events, hsame.trans hcall⟩
    · refine ⟨hnext, events ++ [event], ?_⟩
      rw [Run.run_append, ← hcall]
      exact hevent
  have hmeets : Run.Meets step (fun _ _ => True) (start pkts) es :=
    Run.meets_of_forall_mem (P := fun _ => True) (fun _ _ => trivial) _
  exact (Run.invariant_run hstep hmeets hstart).2

end Session

end Vbc

end Tarako
