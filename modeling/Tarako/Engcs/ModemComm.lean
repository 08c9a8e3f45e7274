import Tarako.Engcs.AtResponse
import Tarako.Engcs.Readline

/-!
# Commands and answers in `eng_servermodem_comm`

For each request of a batch `eng_servermodem_comm` writes an AT command to the modem and
`eng_modem2server` reads the answer and sends it to the client. A request for which there
is no command sets `ret`, and `ret` is never reset: from there on the commands of the
batch are still written, and their answers stay in the modem's stream.

`eng_parsecmd` and `eng_atCommandRequest` make the command of a request and
`eng_atCommandResponse` makes the text of an answer; what each of them reads without having
written it comes with the turn.
-/

namespace Tarako

namespace Engcs

open Text

def ENG_AT_NOHANDLE_CMD : ℤ := 39

def ENG_AT_SPVER : ℤ := 44

/-! ## Ends of an answer -/

def allResponse : List (List UInt8) :=
  finalResponsesSuccess ++ finalResponsesError ++ [ascii ['>']]

/-- `rstrstr`: where the last occurrence of `needle` starts. -/
def rstrstr (haystack needle : List UInt8) : Option ℕ :=
  ((List.range (haystack.length + 1)).filter fun i =>
    needle.isPrefixOf (haystack.drop i)).getLast?

/-- `isAtNoHandleEnd`: a known response at the start of a line, and a line end at the
end of the text. -/
def isAtNoHandleEnd (data : List UInt8) : Bool :=
  let lineEnd := (data.drop (data.length - 2)) ∈ [[13, 10], [32, 10], [10, 13]]
  allResponse.any fun p =>
    match rstrstr data p with
    | none => false
    | some i => 2 ≤ i && (data.drop (i - 2)).take 2 ∈ [[10, 13], [13, 10]] && lineEnd

def engSpecialAT (cmd : ℤ) : Bool := cmd = ENG_AT_SPVER

/-! ## Reading an answer -/

structure Response where
  data : List UInt8
  atBuffer : List UInt8
  reads : List (List UInt8)

/-- The loop of `eng_modem2server` over the lines of an answer. -/
def readResponse (cmd : ℤ) :
    ℕ → Parcel → List UInt8 → List (List UInt8) → Option Response
  | 0, _, _, _ => none
  | fuel + 1, parcel, atBuffer, reads =>
      (engReadline atBuffer reads).bind fun r =>
        match r.line with
        | none =>
            -- an answer that may end without a final line
            if engSpecialAT cmd then some ⟨parcel.sendArray.array.bytes, r.atBuffer, r.reads⟩
            else readResponse cmd fuel parcel r.atBuffer r.reads
        | some line =>
            if isFinalResponseSuccess line || isFinalResponseError line then
              some ⟨parcel.sendData cmd line, r.atBuffer, r.reads⟩
            else
              (parcel.push cmd line).bind fun parcel =>
                readResponse cmd fuel parcel r.atBuffer r.reads

/-- The loop of `eng_modem2server` for `ENG_AT_NOHANDLE_CMD`, over `s_ATDictBuf`, `ptr` and
`counter`. The pointer moves on by all that has been read so far. -/
def readRaw : List (List UInt8) → Buffer UInt8 ENG_BUF_LEN → ℕ → ℕ →
    Option (List UInt8 × List (List UInt8))
  | [], _, _, _ => none
  | c :: reads, dict, ptr, counter =>
      if c = [] then
        if isAtNoHandleEnd (cstring dict.bytes) then some (cstring dict.bytes, reads)
        else readRaw reads dict ptr counter
      else if ENG_BUF_LEN ≤ ptr + c.length then none
      else
        (dict.write? ptr c).bind fun dict =>
          if isAtNoHandleEnd (cstring dict.bytes) then some (cstring dict.bytes, reads)
          else readRaw reads dict (ptr + (counter + c.length)) (counter + c.length)

/-! ## The modem -/

/-- The answer to a command: lines of which only the last one is final, and newlines. -/
structure Block where
  lines : List Line
  final : Line
  trail : List UInt8
  not_final : ∀ l ∈ lines,
    (isFinalResponseSuccess l.text || isFinalResponseError l.text) = false
  is_final : (isFinalResponseSuccess final.text || isFinalResponseError final.text) = true
  trail_newline : ∀ b ∈ trail, isNewline b = true

namespace Block

def bytesFrom (b : Block) (lines : List Line) : List UInt8 :=
  lines.flatMap Line.bytes ++ (b.final.bytes ++ b.trail)

def bytes (b : Block) : List UInt8 := b.bytesFrom b.lines

end Block

/-- How the modem answers a command: what the reads of the answer deliver, and whether
its first bytes come before `select` gives up. -/
structure Answer where
  block : Block
  reads : List (List UInt8)
  inTime : Bool
  flatten_eq : reads.flatten = block.bytes

/-! ## One call -/

structure Command where
  type : ℤ
  text : List UInt8

/-- Memory that a turn reads and has not written: for the request, and for its answer. -/
structure Leftover where
  residue : Residue
  stack : Stack

def ENG_AT_CMD_MAX_LEN : ℕ := 1024

/-- `eng_parsecmd` and `eng_atCommandRequest`: `at_oneint` behind a request, and the command,
if it fits in `at_cmd_req`. -/
def engCommand (atOneint : ℤ) (r : AtRequest) : Option (ℤ × Command) :=
  (engParsecmd atOneint r.residue r.text).bind fun parsed =>
    let text := engAtCommandRequest r.residue parsed.1 parsed.2
    if text.length < ENG_AT_CMD_MAX_LEN then
      some (afterRequest atOneint r, ⟨parsed.1, text⟩)
    else none

/-- The modem client: `at_oneint`, the collected lines, `s_ATBuffer`, what the reads of the
two modem devices deliver (`true` for SIM2), the number of requests so far, what has been
sent to the server, and `ret`. -/
structure Comm where
  atOneint : ℤ
  parcel : Parcel
  atBuffer : List UInt8
  modem : Bool → List (List UInt8)
  turn : ℕ
  replies : List (ℤ × List UInt8)
  ret : ℤ

def intText (n : ℤ) : List UInt8 :=
  if 0 ≤ n then decimal n.toNat else 45 :: decimal (-n).toNat

def FitsTmp (fd : ℤ) (data : List UInt8) : Prop :=
  (intText fd ++ 0x3B :: data).length < ENG_BUF_LEN

instance (fd : ℤ) (data : List UInt8) : Decidable (FitsTmp fd data) := by
  unfold FitsTmp
  infer_instance

section Call

variable (left : ℕ → Leftover) (answer : ℕ → Answer)

namespace Comm

def write2server (s : Comm) (fd : ℤ) (data : List UInt8) : Option Comm :=
  if FitsTmp fd data then some { s with replies := s.replies ++ [(fd, data)] } else none

/-- `eng_modem2server` for a command of type `cmd`; `ready` is whether `select` finds
something to read. -/
def modem2server (s : Comm) (stack : Stack) (r : Sent) (cmd : ℤ) (ready : Bool) : Option Comm :=
  let reads := s.modem (r.type = 1)
  if s.ret = -2 then some s
  else if s.ret < 0 ∨ ready = false then
    s.write2server r.fd (ascii ['E', 'R', 'R', 'O', 'R'])
  else if cmd ≠ ENG_AT_NOHANDLE_CMD then
    (readResponse cmd (reads.length + (s.atBuffer ++ reads.flatten).length + 1) s.parcel
      s.atBuffer reads).bind fun response =>
        (engAtCommandResponse stack cmd response.data).bind fun text =>
          write2server
            { s with
              parcel := .clear
              atBuffer := response.atBuffer
              modem := Function.update s.modem (r.type = 1) response.reads }
            r.fd text
  else
    (readRaw reads (Buffer.fill ENG_BUF_LEN 0) 0 0).bind fun raw =>
      write2server
        { s with parcel := .clear, modem := Function.update s.modem (r.type = 1) raw.2 }
        r.fd raw.1

def answered (s : Comm) (atOneint : ℤ) (sim2 : Bool) (reads : List (List UInt8)) : Comm :=
  { s with
    atOneint
    turn := s.turn + 1
    modem := Function.update s.modem sim2 (s.modem sim2 ++ reads) }

/-- One turn of the loop of `eng_servermodem_comm`, with the request in `data.buf`. -/
def turnOf (s : Comm) (r : Sent) : Option Comm :=
  (engCommand s.atOneint ⟨r.data, (left s.turn).residue⟩).bind fun next =>
    if next.2.text = [] then
      modem2server { s with atOneint := next.1, turn := s.turn + 1, ret := -1 }
        (left s.turn).stack r next.2.type false
    else
      modem2server (s.answered next.1 (r.type = 1) (answer s.turn).reads) (left s.turn).stack r
        next.2.type (!(s.modem (r.type = 1)).flatten.isEmpty || (answer s.turn).inTime)

def turns (s : Comm) (batch : List Sent) : Option Comm :=
  batch.foldlM (turnOf left answer) s

/-- `eng_servermodem_comm` when `eng_read` delivers `read`. -/
def call (s : Comm) (read : List UInt8) : Option Comm :=
  (engServermodemComm (fun (o : Option Comm) r => o.bind (turnOf left answer · r))
    (some { s with ret := 0 }) read).join

end Comm

end Call

end Engcs

end Tarako
