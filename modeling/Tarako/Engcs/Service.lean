import Tarako.Engcs.Register
import Tarako.Lib.Handles
import Tarako.Lib.Run

/-!
# The two threads of `engservice`

The main thread accepts clients and registers them. The thread of `fdevent_loop` waits in
`select` on a copy of `read_fds` and calls the callbacks of the clients that it finds there: the
request of an application goes to the modem client, a response of the modem client goes to the
client whose descriptor stands before it, and a client that has disconnected is unregistered,
which closes its descriptor twice. The threads share the tables of clients, the buffers
`eng_read_buf` and `eng_write_buf` and the descriptors of the process without a lock. A step is
what one of them does from one use of shared memory to the next.
-/

namespace Tarako

namespace Engcs

open Text SlotTable

def ENG_MAX_CONNECT_NUM : ℕ := 60

/-- A process can have as many descriptors as an `fd_set` holds. -/
def FD_SETSIZE : ℕ := 1024

def ENG_MONITOR : List UInt8 := ofAscii ['e', 'n', 'g', 'm', 'o', 'n', 'i', 't', 'o', 'r']

def ENG_MODEM : List UInt8 := ofAscii ['m', 'o', 'd', 'e', 'm']

def ENG_WELCOME : List UInt8 := ofAscii ['w', 'e', 'l', 'c', 'o', 'm', 'e']

def ENG_ERROR : List UInt8 := ofAscii ['e', 'r', 'r', 'o', 'r']

def ENG_DESTERROR : List UInt8 := ofAscii ['d', 'e', 's', 't', 'e', 'r', 'r']

def clientConnect : List UInt8 :=
  ofAscii ['c', 'l', 'i', 'e', 'n', 't', ' ', 'c', 'o', 'n', 'n', 'e', 'c', 't']

/-! ## Clients -/

inductive FdFunc
  | pcclient
  | modemclient
  | appclient
  | adrvclient
  | logclient
  | monitorclient
deriving DecidableEq

/-- Whether the callback calls `eng_event_unreg` when `eng_read` returns 0. -/
def FdFunc.unregisters : FdFunc → Bool
  | modemclient | appclient | monitorclient => true
  | pcclient | adrvclient | logclient => false

/-- What `fdevent_create` allocates, for the client of the connection `conn`. -/
structure Fdevent where
  conn : ℕ
  fd : ℕ
  func : FdFunc
deriving DecidableEq

structure ClientInfo where
  fe : Fdevent
  name : List UInt8
  type : ℤ
deriving DecidableEq

def getclientfunc (regname : List UInt8) : Option FdFunc :=
  if ofAscii ['p', 'c', 'c', 'l', 'i', 'e', 'n', 't'] <+: regname then some .pcclient
  else if ENG_MODEM <+: regname then some .modemclient
  else if ENG_APPCLIENT <+: regname then some .appclient
  else if ofAscii ['a', 'd', 'r', 'v', 'c', 'l', 'i', 'e', 'n', 't'] <+: regname then
    some .adrvclient
  else if ofAscii ['l', 'o', 'g', 'c', 'l', 'i', 'e', 'n', 't'] <+: regname then some .logclient
  else if ENG_MONITOR <+: regname then some .monitorclient
  else none

/-! ## Requests and responses -/

/-- What `setup_send_data` prints, `"%5d;%5d;%d;%s"`, for any type. -/
def requestText (fd : ℕ) (type : ℤ) (inbuf : List UInt8) : List UInt8 :=
  padded (6 + 6 + 2 + inbuf.length) ++
    0x3B :: (padded fd ++ 0x3B :: (decimalInt type ++ 0x3B :: inbuf))

theorem requestText_natCast (fd type : ℕ) (inbuf : List UInt8) :
    requestText fd type inbuf = sendData fd type inbuf := by
  rw [requestText, decimalInt_natCast, sendData]

/-- A request: the connection that it came from, the descriptor that it carries, and a number
that no other request has. -/
structure Origin where
  conn : ℕ
  fd : ℕ
  serial : ℕ
deriving DecidableEq

/-- A byte with the request that it answers, which the code does not see. -/
abbrev Tagged := Option Origin × UInt8

def untagged (data : List UInt8) : List Tagged := data.map fun b => (none, b)

/-- A request that the modem client on the connection `modem` has not answered. -/
structure Pending where
  modem : ℕ
  origin : Origin

/-- What `eng_write2server` prints: `"%d;%s"` into `tmp[ENG_BUF_LEN]`. -/
def write2server (fd : ℕ) (data : List UInt8) : List UInt8 := decimal fd ++ 0x3B :: data

/-- A response as the modem client has sent it. -/
structure Reply where
  origin : Origin
  text : List UInt8
deriving DecidableEq

def Reply.tagged (r : Reply) : List Tagged :=
  (write2server r.origin.fd r.text).map fun b => (some r.origin, b)

structure Write where
  conn : ℕ
  bytes : List Tagged
deriving DecidableEq

def stringOf (buf : List Tagged) : List Tagged := buf.takeWhile (·.2 ≠ 0)

/-- `data` over the start of a buffer. -/
def store (buf data : List Tagged) : List Tagged := data ++ buf.drop data.length

/-! ## The threads -/

/-- Where the main thread is: in `accept`, before `eng_event_can_reg`, before the `eng_read` of
the registration, before `clinet_info_getnametype`, before `fdevent_create`, before
`client_info_update`, or before it writes to the client and to the monitor. -/
inductive MainThread
  | accepting
  | accepted (conn fd : ℕ)
  | reading (conn fd : ℕ)
  | named (conn fd : ℕ)
  | creating (c : ClientInfo)
  | created (c : ClientInfo)
  | updated (fd : ℕ)

/-- Where the thread of `fdevent_loop` is. In a callback for `fe` it is before the `memset` of
`eng_read_buf` (`entered`), before `eng_read` (`reading`), behind it in `appclient_event_func`
(`sending`) or in `modemclient_event_func` (before `strchr`, the copy to `outbuf`, the NUL over
the separator, the copy to `fdstring` and `eng_write`). In `eng_event_unreg` it is before
`fdevent_destroy`, before the registry is cleared, or before the second `close`. -/
inductive SvcThread
  | unborn
  | looping
  | selecting (rfd : List ℕ)
  | entered (fe : Fdevent) (type : ℤ) (destFd : Option ℕ)
  | reading (fe : Fdevent) (type : ℤ) (destFd : Option ℕ)
  | sending (fe : Fdevent) (type : ℤ) (destFd : Option ℕ) (conn : ℕ) (eof : Bool)
  | scanning (fe : Fdevent) (eof : Bool)
  | copying (fe : Fdevent) (eof : Bool) (ptr : ℕ)
  | cutting (fe : Fdevent) (eof : Bool) (ptr : ℕ)
  | parsing (fe : Fdevent) (eof : Bool)
  | responding (fe : Fdevent) (eof : Bool) (destFd : ℤ)
  | leaving (fe : Fdevent)
  | destroyed (i : ℕ) (fe : Fdevent)
  | cleared (fe : Fdevent)

structure Engservice where
  files : Handles
  /-- `fd_table` of the event loop; `read_fds` has its descriptors. -/
  fdTable : List (Option Fdevent)
  /-- `list_pending` of the event loop. -/
  listPending : List Fdevent
  clientInfo : List (Option ClientInfo)
  monitorSvcFd : Option ℕ
  hasThread : Bool
  /-- The buffers, without NULs that reach to their ends. -/
  engReadBuf : List Tagged
  engWriteBuf : List Tagged
  main : MainThread
  svc : SvcThread
  /-- The connections so far, and those whose clients have disconnected. -/
  clients : List ℕ
  gone : List ℕ
  /-- What a client has sent and `engservice` has not read. -/
  inbox : ℕ → List Tagged
  /-- Clients that have been written `clientConnect` and have sent nothing since. -/
  told : List ℕ
  pending : List Pending
  requests : ℕ
  sent : List Reply
  /-- The responses that `modemclient_event_func` has read and not written. -/
  handling : List Reply
  written : List Write
  /-- A fault, `abort` or `SIGPIPE` has ended the process. -/
  ended : Bool

/-- What `eng_read` finds. -/
inductive Received
  | nothing
  | error
  | data (bytes : List Tagged)

def Received.bytes : Received → List Tagged
  | nothing | error => []
  | data bytes => bytes

def Received.eof : Received → Bool
  | nothing | error => false
  | data bytes => bytes = []

namespace Engservice

/-- `n` files are open when the first client connects. -/
def start (n : ℕ) : Engservice where
  files := Handles.start n
  fdTable := []
  listPending := []
  clientInfo := List.replicate ENG_MAX_CONNECT_NUM none
  monitorSvcFd := none
  hasThread := false
  engReadBuf := []
  engWriteBuf := []
  main := .accepting
  svc := .unborn
  clients := []
  gone := []
  inbox := fun _ => []
  told := []
  pending := []
  requests := 0
  sent := []
  handling := []
  written := []
  ended := false

/-! ## Reads and writes -/

/-- `eng_read` on `fd` when `k` bytes have arrived and `ok` says that the connection has no
error. Only the end of the connection reads as no data. -/
def engRead (s : Engservice) (fd k : ℕ) (ok : Bool) : Received :=
  match get s.files.slots fd with
  | none => .error
  | some conn =>
      if ok = false then .error
      else if s.inbox conn = [] then
        if conn ∈ s.gone then .data [] else .nothing
      else
        match (s.inbox conn).take (min k ENG_MAX_RW_SIZE) with
        | [] => .nothing
        | b :: bytes => .data (b :: bytes)

def consume (s : Engservice) (fd n : ℕ) : ℕ → List Tagged := fun conn =>
  if get s.files.slots fd = some conn then (s.inbox conn).drop n else s.inbox conn

/-- `eng_write`: nothing goes to a closed descriptor, and a client that has disconnected
raises `SIGPIPE`. -/
def engWrite (s : Engservice) (fd : ℕ) (bytes : List Tagged) : Engservice :=
  match get s.files.slots fd with
  | none => s
  | some conn =>
      if conn ∈ s.gone then { s with ended := true }
      else { s with written := s.written ++ [⟨conn, bytes⟩] }

/-! ## The registry -/

def clientInfoGettype (s : Engservice) (fd : ℕ) : ℤ :=
  match s.clientInfo.find? fun c => c.any (·.fe.fd == fd) with
  | some (some c) => c.type
  | _ => 0

def clientInfoGetSocketid (s : Engservice) (name : List UInt8) : Option ℕ :=
  match s.clientInfo.find? fun c => c.any (name.isPrefixOf ·.name) with
  | some (some c) => some c.fe.fd
  | _ => none

def engEventCanReg (s : Engservice) : Bool := lowestFree s.clientInfo < s.clientInfo.length

def clientInfoUpdate (s : Engservice) (c : ClientInfo) : List (Option ClientInfo) :=
  if lowestFree s.clientInfo < s.clientInfo.length then alloc s.clientInfo c else s.clientInfo

/-! ## The main thread -/

def accept (s : Engservice) : Engservice :=
  if lowestFree s.files.slots < FD_SETSIZE then
    { s with
      files := s.files.openFile
      main := .accepted s.files.next (lowestFree s.files.slots)
      clients := s.files.next :: s.clients }
  else s

def refuse (s : Engservice) (conn fd : ℕ) : Engservice :=
  { s with files := s.files.close conn fd, main := .accepting }

def readName (s : Engservice) (conn fd k : ℕ) (ok : Bool) : Engservice :=
  match s.engRead fd k ok with
  | .nothing => s
  | .error => s.refuse conn fd
  | .data bytes =>
      { s with
        inbox := s.consume fd bytes.length
        engReadBuf := store s.engReadBuf bytes
        main := .named conn fd }

def getnametype (s : Engservice) : Option (ℤ × List UInt8) :=
  let input := (stringOf s.engReadBuf).map Prod.snd
  if input.length < ENG_MAX_RW_SIZE then
    (clinetInfoGetnametype input (Buffer.fill ENG_MAX_CLIENT_NAME_LEN 0)).bind fun r =>
      if 0 ∈ r.2.bytes then some (r.1, cstring r.2.bytes) else none
  else none

def newClient (s : Engservice) (conn fd : ℕ) (regname : List UInt8) (type : ℤ) :
    Option ClientInfo :=
  if s.monitorSvcFd = none ∧ ¬ ENG_MONITOR <+: regname then none
  else (getclientfunc regname).map fun func => ⟨⟨conn, fd, func⟩, regname, type⟩

/-- A client comes before the monitor. What this leaves in `eng_write_buf` is cleared before
the thread of `fdevent_loop`, which does not run yet, looks at it. -/
def refuseUnmonitored (s : Engservice) (conn fd : ℕ) : Engservice :=
  let s' := s.engWrite fd (untagged ENG_DESTERROR)
  if s'.ended then s' else s'.refuse conn fd

/-- `eng_event_reg` from `clinet_info_getnametype` to `getclientfunc`. -/
def parseName (s : Engservice) (conn fd : ℕ) : Engservice :=
  match s.getnametype with
  | none => { s with ended := true }
  | some (type, regname) =>
      match s.newClient conn fd regname type with
      | none =>
          if s.monitorSvcFd = none ∧ ¬ ENG_MONITOR <+: regname then s.refuseUnmonitored conn fd
          else s.refuse conn fd
      | some c =>
          { s with
            monitorSvcFd := if c.fe.func = .monitorclient then some fd else s.monitorSvcFd
            main := .creating c }

def peers (s : Engservice) (fd : ℕ) : List ℕ := (get s.files.slots fd).toList

/-- The end of a turn of `main`, where `ok` says whether the first one gets its thread. -/
def tell (s : Engservice) (ok : Bool) : Engservice :=
  if s.hasThread then
    match s.monitorSvcFd with
    | none => { s with main := .accepting }
    | some fd =>
        { s.engWrite fd (untagged clientConnect) with
          main := .accepting
          told := s.peers fd ++ s.told }
  else
    { s with hasThread := true, svc := if ok then .looping else .unborn, main := .accepting }

/-- One step of the main thread, with the number of bytes that a read finds and whether a call
succeeds. -/
def mainStep (s : Engservice) (k : ℕ) (ok : Bool) : Engservice :=
  match s.main with
  | .accepting => s.accept
  | .accepted conn fd =>
      if s.engEventCanReg then { s with engReadBuf := [], main := .reading conn fd }
      else { s with main := .accepting }
  | .reading conn fd => s.readName conn fd k ok
  | .named conn fd => s.parseName conn fd
  | .creating c =>
      if ok then { s with fdTable := put s.fdTable c.fe.fd c.fe, main := .created c }
      -- the descriptor stays open
      else { s.engWrite c.fe.fd (untagged ENG_ERROR) with main := .accepting }
  | .created c => { s with clientInfo := s.clientInfoUpdate c, main := .updated c.fe.fd }
  | .updated fd =>
      let s' := s.engWrite fd (untagged ENG_WELCOME)
      if s'.ended then s' else s'.tell ok

/-! ## The thread of `fdevent_loop` -/

def readFds (s : Engservice) : List ℕ :=
  (List.range s.fdTable.length).filter fun fd => (get s.fdTable fd).isSome

def readable (s : Engservice) (fd : ℕ) : Bool :=
  (get s.files.slots fd).any fun conn => s.inbox conn ≠ [] || conn ∈ s.gone

/-- `select` on the copy `rfd` and the queue that `fdevent_process` makes of its result. -/
def select (s : Engservice) (rfd : List ℕ) : Engservice :=
  match rfd.filter s.readable with
  | [] => s
  | fds =>
      -- "missing fde"
      if fds.any fun fd => (get s.fdTable fd).isNone then { s with ended := true }
      else
        { s with
          listPending := s.listPending ++ fds.filterMap (get s.fdTable)
          svc := .looping }

def call (s : Engservice) (fe : Fdevent) : SvcThread :=
  match fe.func with
  | .appclient =>
      .entered fe (s.clientInfoGettype fe.fd) (s.clientInfoGetSocketid ENG_MODEM)
  | .modemclient => .entered fe 0 none
  | .pcclient | .adrvclient | .logclient | .monitorclient => .reading fe 0 none

def repliesIn (s : Engservice) (bytes : List Tagged) : List Reply :=
  s.sent.filter fun r => bytes.any (·.1 = some r.origin)

/-- `eng_read` in the callback of `fe`, on a descriptor that does not block. -/
def readClient (s : Engservice) (fe : Fdevent) (type : ℤ) (destFd : Option ℕ) (k : ℕ)
    (ok : Bool) : Engservice :=
  let r := s.engRead fe.fd k ok
  let inbox := s.consume fe.fd r.bytes.length
  match fe.func with
  | .monitorclient => { s with inbox, svc := if r.eof then .leaving fe else .looping }
  | .pcclient | .adrvclient | .logclient =>
      { s with inbox, engReadBuf := store s.engReadBuf r.bytes, svc := .looping }
  | .appclient =>
      { s with
        inbox
        engReadBuf := store s.engReadBuf r.bytes
        svc := .sending fe type destFd ((get s.files.slots fe.fd).getD fe.conn) r.eof }
  | .modemclient =>
      { s with
        inbox
        engReadBuf := store s.engReadBuf r.bytes
        handling := s.repliesIn r.bytes
        svc := .scanning fe r.eof }

/-- `setup_send_data` and `eng_write` to `destFd`, of which the socket takes `k` bytes. The modem
client gets a request that is taken whole. -/
def sendRequest (s : Engservice) (fe : Fdevent) (destFd conn k : ℕ) (text : List UInt8) :
    Engservice :=
  let s' := { s with engWriteBuf := untagged text, svc := .looping }
  if k < text.length then s'.engWrite destFd (untagged (text.take k))
  else
    { s'.engWrite destFd (untagged text) with
      pending := s.pending ++ (s.peers destFd).map fun modem => ⟨modem, conn, fe.fd, s.requests⟩
      requests := s.requests + 1 }

def appclientEventFunc (s : Engservice) (fe : Fdevent) (type : ℤ) (destFd : Option ℕ)
    (conn : ℕ) (eof : Bool) (k : ℕ) : Engservice :=
  if eof then { s with svc := .leaving fe }
  else
    match destFd with
    | none =>
        { s with engWriteBuf := untagged ENG_DESTERROR, svc := .looping }.engWrite fe.fd
          (untagged ENG_DESTERROR)
    | some destFd =>
        let inbuf := (stringOf s.engReadBuf).map Prod.snd
        -- "CMD:" is for `eng_test_function`
        if [67, 77, 68, 58] <+: inbuf then { s with svc := .looping }
        else if (requestText fe.fd type inbuf).length < ENG_MAX_RW_SIZE then
          s.sendRequest fe destFd conn k (requestText fe.fd type inbuf)
        else { s with ended := true }

/-- `strchr` in `get_send_fd`, behind the `memset` of `eng_write_buf`. -/
def scan (s : Engservice) (fe : Fdevent) (eof : Bool) : Engservice :=
  let inbuf := (stringOf s.engReadBuf).map Prod.snd
  if 0x3B ∈ inbuf then
    { s with engWriteBuf := [], svc := .copying fe eof (inbuf.idxOf 0x3B) }
  else if inbuf.length < ENG_MAX_RW_SIZE then
    { s with engWriteBuf := [], svc := .responding fe eof 0 }
  else { s with ended := true }

/-- `sprintf (outbuf, "%s", ptr + 1)`. -/
def copyOut (s : Engservice) (fe : Fdevent) (eof : Bool) (ptr : ℕ) : Engservice :=
  let outbuf := stringOf (s.engReadBuf.drop (ptr + 1))
  if ptr + 1 + outbuf.length < ENG_MAX_RW_SIZE then
    { s with engWriteBuf := outbuf, svc := .cutting fe eof ptr }
  else { s with ended := true }

/-- `sprintf (fdstring, "%s", inbuf)` and `atoi`. -/
def parseFd (s : Engservice) (fe : Fdevent) (eof : Bool) : Engservice :=
  let fdstring := (stringOf s.engReadBuf).map Prod.snd
  if fdstring.length < 8 then { s with svc := .responding fe eof (atoi fdstring) }
  else { s with ended := true }

/-- The end of `modemclient_event_func`, where the socket takes `k` bytes. -/
def respond (s : Engservice) (fe : Fdevent) (eof : Bool) (destFd : ℤ) (k : ℕ) : Engservice :=
  if eof then { s with handling := [], svc := .leaving fe }
  else if 0 ≤ destFd then
    { s with handling := [], svc := .looping }.engWrite destFd.toNat
      ((stringOf s.engWriteBuf).take k)
  else
    { s with handling := [], engWriteBuf := untagged ENG_DESTERROR, svc := .looping }.engWrite
      fe.fd (untagged ENG_DESTERROR)

/-- `eng_event_unreg` up to the `close` in `fdevent_unregister`, or to its own one when the
descriptor is not in the registry. -/
def engEventUnreg (s : Engservice) (fe : Fdevent) : Engservice :=
  let i := s.clientInfo.findIdx fun c => c.any (·.fe.fd == fe.fd)
  match get s.clientInfo i with
  | none => { s with files := s.files.close fe.conn fe.fd, svc := .looping }
  | some c =>
      if get s.fdTable c.fe.fd = some c.fe then
        { s with
          files := s.files.close fe.conn c.fe.fd
          fdTable := free s.fdTable c.fe.fd
          listPending := s.listPending.erase c.fe
          svc := .destroyed i fe }
      -- "fd_table out of sync"
      else { s with ended := true }

/-- One step of the thread of `fdevent_loop`, with the number of bytes that a read finds or a
socket takes and whether a read succeeds. -/
def svcStep (s : Engservice) (k : ℕ) (ok : Bool) : Engservice :=
  match s.svc with
  | .unborn => s
  | .looping =>
      match s.listPending with
      | [] =>
          -- `select` fails when it is called with a closed descriptor
          if s.readFds.any fun fd => (get s.files.slots fd).isNone then s
          else { s with svc := .selecting s.readFds }
      | fe :: rest => { s with listPending := rest, svc := s.call fe }
  | .selecting rfd => s.select rfd
  | .entered fe type destFd => { s with engReadBuf := [], svc := .reading fe type destFd }
  | .reading fe type destFd => s.readClient fe type destFd k ok
  | .sending fe type destFd conn eof => s.appclientEventFunc fe type destFd conn eof k
  | .scanning fe eof => s.scan fe eof
  | .copying fe eof ptr => s.copyOut fe eof ptr
  | .cutting fe eof ptr =>
      { s with engReadBuf := s.engReadBuf.set ptr (none, 0), svc := .parsing fe eof }
  | .parsing fe eof => s.parseFd fe eof
  | .responding fe eof destFd => s.respond fe eof destFd k
  | .leaving fe => s.engEventUnreg fe
  | .destroyed i fe => { s with clientInfo := free s.clientInfo i, svc := .cleared fe }
  | .cleared fe => { s with files := s.files.close fe.conn fe.fd, svc := .looping }

/-! ## Runs -/

/-- What happens next: a step of one of the threads, or a client sends something, answers its
oldest request or disconnects. -/
inductive Event
  | main (k : ℕ) (ok : Bool)
  | svc (k : ℕ) (ok : Bool)
  | send (conn : ℕ) (data : List UInt8)
  | reply (conn : ℕ) (text : List UInt8)
  | hangUp (conn : ℕ)

def send (s : Engservice) (conn : ℕ) (data : List Tagged) : Engservice :=
  { s with
    inbox := fun c => if c = conn then s.inbox c ++ data else s.inbox c
    told := if data = [] then s.told else s.told.filter (· ≠ conn) }

def reply (s : Engservice) (conn : ℕ) (text : List UInt8) : Engservice :=
  match s.pending.find? (·.modem = conn) with
  | none => s
  | some p =>
      if (write2server p.origin.fd (cstring text)).length < ENG_BUF_LEN then
        { s.send conn (Reply.tagged ⟨p.origin, cstring text⟩) with
          pending := s.pending.eraseP (·.modem = conn)
          sent := s.sent ++ [⟨p.origin, cstring text⟩] }
      else s

def step (s : Engservice) (e : Event) : Engservice :=
  if s.ended then s
  else
    match e with
    | .main k ok => s.mainStep k ok
    | .svc k ok => s.svcStep k ok
    | .send conn data =>
        if conn ∈ s.clients ∧ conn ∉ s.gone then s.send conn (untagged data) else s
    | .reply conn text => if conn ∈ s.clients ∧ conn ∉ s.gone then s.reply conn text else s
    | .hangUp conn => if conn ∈ s.clients then { s with gone := conn :: s.gone } else s

/-- The turn of `main` in which the client `conn` registers as `name`. -/
def registration (conn : ℕ) (name : List UInt8) : List Event :=
  [.main 0 true, .send conn name, .main 0 true, .main name.length true, .main 0 true, .main 0 true,
    .main 0 true, .main 0 true]

end Engservice

end Engcs

end Tarako
