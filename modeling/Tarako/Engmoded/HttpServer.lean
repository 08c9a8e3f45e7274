import Tarako.Engmoded.HttpRequest

/-!
# Answers of the engineering-mode HTTP server

`handleRequest` of `HTTPServer` for one connection: it reads what has arrived, parses it,
asks the AT back end and sends a response. It does not wait for the end of the request:
after the first read it takes only what is already there.
-/

namespace Tarako.Engmoded

open Cursor Text

/-! ### Receiving -/

def bufSz : ℕ := 32

/-- The loop of `recvRequest` on a socket that holds `queue`; each entry of `arrivals` is
what arrives before the next call of `recv`. A call that finds nothing or fills less than
the buffer is the last. -/
def recvMore (queue : List UInt8) (arrivals : List (List UInt8)) : List UInt8 :=
  if (queue ++ arrivals.headD []).length < bufSz then queue ++ arrivals.headD []
  else (queue ++ arrivals.headD []).take bufSz ++
    recvMore ((queue ++ arrivals.headD []).drop bufSz) arrivals.tail
termination_by queue.length + arrivals.flatten.length
decreasing_by
  rename_i h
  have hflat : (arrivals.headD []).length + arrivals.tail.flatten.length
      = arrivals.flatten.length := by
    cases arrivals <;> simp
  rw [List.length_append, bufSz] at h
  rw [List.length_drop, List.length_append, bufSz]
  omega

/-- `recvRequest`: the first `recv` waits until something has arrived. `none` is the
result -1, when the peer closes the connection without a byte. -/
def recvRequest : List (List UInt8) → Option (List UInt8)
  | [] => none
  | [] :: arrivals => recvRequest arrivals
  | queue :: arrivals => some (queue.take bufSz ++ recvMore (queue.drop bufSz) arrivals)

/-! ### The answer -/

/-- The extensions that `getMimeType` knows. -/
def mimeTypes : List (List UInt8 × List UInt8) :=
  [("bmp", "image/bmp"), ("bin", "application/octet-stream"), ("csh", "application/csh"),
    ("css", "text/css"), ("doc", "application/msword"), ("dtd", "application/xml-dtd"),
    ("exe", "application/octet-stream"), ("html", "text/html"), ("htm", "text/html"),
    ("ico", "image/x-icon"), ("gif", "image/gif"), ("jpeg", "image/jpeg"),
    ("jpg", "image/jpeg"), ("latex", "application/x-latex"), ("png", "image/png"),
    ("pgm", "image/x-portable-graymap"), ("rtf", "text/rtf"), ("svg", "image/svg+xml"),
    ("sh", "application/x-sh"), ("tar", "application/x-tar"), ("tex", "application/x-tex"),
    ("tif", "image/tiff"), ("tiff", "image/tiff"), ("txt", "text/plain"),
    ("xml", "application/xml")].map fun e => (ofAscii e.1.toList, ofAscii e.2.toList)

/-- The letters at which the `switch` of `getMimeType` has a case. -/
def mimeLetters : List UInt8 := ofAscii "bcdehigjlprstx".toList

def extensionOf (fileName : List UInt8) : List UInt8 :=
  if 46 ∈ fileName then (fileName.reverse.takeWhile (· ≠ 46)).reverse else []

def getMimeType (fileName : List UInt8) : List UInt8 :=
  match mimeTypes.find? (·.1 = extensionOf fileName) with
  | some (_, mimeType) => mimeType
  | none =>
      if (extensionOf fileName).headD 0 ∈ mimeLetters then
        ofAscii "text/plain, charset=us-ascii".toList
      else ofAscii "application/json".toList

def reasonPhrase : ℕ → List UInt8
  | 200 => ofAscii "OK".toList
  | 201 => ofAscii "Created".toList
  | 400 => ofAscii "Bad Request".toList
  | 403 => ofAscii "Forbidden".toList
  | 404 => ofAscii "Not Found".toList
  | 411 => ofAscii "Length Required".toList
  | 500 => ofAscii "Internal Server Error".toList
  | 501 => ofAscii "Not Implemented".toList
  | 502 => ofAscii "Bad Gateway".toList
  | 505 => ofAscii "HTTP Version Not Supported".toList
  | _ => []

/-- What `processRequest` sets in the response, and `m_mimeType`. -/
structure Answer where
  statusCode : ℕ
  httpHeaders : List (List UInt8 × List UInt8)
  responseBody : List UInt8
  mimeType : List UInt8

def header (name content : String) : List UInt8 × List UInt8 :=
  (ofAscii name.toList, ofAscii content.toList)

section

-- `atResponse url` is what `ATProcesser(url).response()` answers
variable (atResponse : List UInt8 → List UInt8)

def processEngRequest (q : HttpRequest) : Answer :=
  if q.protocol = some .HTTP_UNSUPPORTED then ⟨505, [], [], []⟩
  else
    { statusCode := 200
      httpHeaders :=
        [(ofAscii "Content-Length".toList, decimal (atResponse q.url).length),
          header "Access-Control-Allow-Origin" "*",
          header "Access-Control-Allow-Methods" "GET, POST, OPTIONS",
          (ofAscii "Access-Control-Allow-Headers".toList, ofAscii
            ("Origin, No-Cache, X-Requested-With, If-Modified-Since, Pragma, ".toList ++
              "Last-Modified, Cache-Control, Expires, Content-Type, X-E4M-With".toList))]
      responseBody := atResponse q.url
      mimeType := getMimeType q.url }

/-- The test for `/eng` in the URL compares an unsigned position with zero: every URL goes
the same way, and the code behind it is never reached. -/
def processRequest (q : HttpRequest) : Answer :=
  if q.protocol = some .HTTP_UNSUPPORTED then ⟨505, [], [], []⟩
  else processEngRequest atResponse q

end

def responseText (protocol : List UInt8) (statusCode : ℕ) (reason : List UInt8)
    (httpHeaders : List (List UInt8 × List UInt8)) (responseBody : List UInt8) : List UInt8 :=
  protocol ++ ([space] ++ (decimal statusCode ++ ([space] ++ (reason ++ (crlf ++
    (httpHeaders.flatMap headerText ++ (crlf ++ responseBody)))))))

/-- `prepareResponse`, at a time that `ctime` gives as `curTime`; `none` is the
result -1. -/
def prepareResponse (curTime : List UInt8) (q : HttpRequest) (a : Answer) :
    Option (List UInt8) :=
  (q.protocol.bind Protocol.name?).map fun protocol =>
    responseText protocol a.statusCode (reasonPhrase a.statusCode)
      (a.httpHeaders ++
        [(ofAscii "Date".toList, curTime.map fun b => if b = 10 then 0 else b),
          header "Server" "Awesome HTTP Server",
          header "Accept-Ranges" "bytes",
          (ofAscii "Content-Type".toList, a.mimeType),
          header "Connection" "close"])
      a.responseBody

/-- `handleRequest` for what arrives on a connection, where the memory of the new request
holds `m` and `p`: the response that is sent, if any is. -/
def handleRequest (atResponse : List UInt8 → List UInt8) (curTime : List UInt8) (fuel : ℕ)
    (m : Option Method) (p : Option Protocol) (arrivals : List (List UInt8)) :
    Except Stop (Option (List UInt8)) := do
  match recvRequest arrivals with
  | none => return none
  | some data =>
      let q ← (HttpRequest.fresh m p data).parseRequest fuel
      return prepareResponse curTime q (processRequest atResponse q)

/-! ### What is received -/

theorem recvMore_prefix (queue : List UInt8) (arrivals : List (List UInt8)) :
    recvMore queue arrivals <+: queue ++ arrivals.flatten := by
  have hflat (l : List (List UInt8)) : l.flatten = l.headD [] ++ l.tail.flatten := by
    cases l <;> simp
  induction queue, arrivals using recvMore.induct with
  | case1 queue arrivals hshort =>
    rw [recvMore, if_pos hshort, hflat arrivals, ← List.append_assoc]
    exact List.prefix_append ..
  | case2 queue arrivals hfull ih =>
    rw [recvMore, if_neg hfull, hflat arrivals, ← List.append_assoc]
    conv => rhs; rw [← List.take_append_drop bufSz (queue ++ arrivals.headD []), List.append_assoc]
    exact (List.prefix_append_right_inj _).mpr ih

/-- Whatever way a request takes through the network, a part from its start is received,
and a part that is not empty. -/
theorem recvRequest_prefix {arrivals : List (List UInt8)} (hne : arrivals.flatten ≠ []) :
    ∃ data, recvRequest arrivals = some data ∧ data ≠ [] ∧ data <+: arrivals.flatten := by
  induction arrivals with
  | nil => exact absurd rfl hne
  | cons queue arrivals ih =>
    cases queue with
    | nil =>
      obtain ⟨data, hdata, hdne, hstart⟩ := ih (by simpa using hne)
      exact ⟨data, by rw [recvRequest, hdata], hdne, by simpa using hstart⟩
    | cons b queue =>
      refine ⟨_, rfl, by simp [bufSz], ?_⟩
      have hrest := recvMore_prefix ((b :: queue).drop bufSz) arrivals
      rw [List.flatten_cons]
      conv => rhs; rw [← List.take_append_drop bufSz (b :: queue), List.append_assoc]
      exact (List.prefix_append_right_inj _).mpr hrest

/-- A first segment that is shorter than the buffer is all that is received when the next
one comes late. -/
theorem recvRequest_segment {segment : List UInt8} (hne : segment ≠ [])
    (hshort : segment.length < bufSz) (rest : List (List UInt8)) :
    recvRequest (segment :: [] :: rest) = some segment := by
  cases segment with
  | nil => exact absurd rfl hne
  | cons b segment =>
    rw [recvRequest, List.take_of_length_le (Nat.le_of_lt hshort),
      List.drop_eq_nil_of_le (Nat.le_of_lt hshort), recvMore, if_pos (by simp [bufSz])]
    · simp
    · exact hne

/-! ### Requests and responses on the wire -/

/-- A request as the client sends it. -/
structure WireRequest where
  httpMethod : List UInt8
  url : List UInt8
  protocol : List UInt8
  httpHeaders : List (List UInt8 × List UInt8)
  requestBody : List UInt8

def WireRequest.text (r : WireRequest) : List UInt8 :=
  requestText r.httpMethod r.url r.protocol r.httpHeaders r.requestBody

/-- A request line of three words, and at least one header. -/
structure WireRequest.Complete (r : WireRequest) : Prop where
  httpMethod : ∀ b ∈ r.httpMethod, b ∉ space :: crlf
  url : ∀ b ∈ r.url, b ∉ space :: crlf
  protocol : ∀ b ∈ r.protocol, b ∉ space :: crlf
  httpHeaders : r.httpHeaders ≠ []
  name : ∀ h ∈ r.httpHeaders, colon ∉ h.1 ∧ ∀ b ∈ h.1, b ∉ crlf
  content : ∀ h ∈ r.httpHeaders, ∀ b ∈ h.2, b ∉ crlf

def supportedProtocols : List (List UInt8) := [protocol1_0, protocol1_1]

/-- The methods that `parseRequest` knows. -/
def knownMethods : List (List UInt8) := [methodGET, methodPUT, methodPOST, methodOPTIONS]

/-- What keeps a header apart: no colon in its name, and no end of a line. -/
def PlainHeader (h : List UInt8 × List UInt8) : Prop :=
  (colon ∉ h.1 ∧ ∀ b ∈ h.1, b ∉ crlf) ∧ ∀ b ∈ h.2, b ∉ crlf

instance (h : List UInt8 × List UInt8) : Decidable (PlainHeader h) :=
  inferInstanceAs (Decidable (_ ∧ _))

theorem plainHeader_mk {name content : List UInt8} (hname : ∀ b ∈ name, b ∉ colon :: crlf)
    (hcontent : ∀ b ∈ content, b ∉ crlf) : PlainHeader (name, content) := by
  refine ⟨⟨fun h => hname colon h (List.mem_cons_self ..), fun b hb h => ?_⟩, hcontent⟩
  exact hname b hb (List.mem_cons_of_mem _ h)

theorem plainHeader_of_all {name content : List UInt8}
    (hname : name.all fun b => decide (b ∉ colon :: crlf))
    (hcontent : content.all fun b => decide (b ∉ crlf)) : PlainHeader (name, content) :=
  plainHeader_mk (forall_mem_of_all hname) (forall_mem_of_all hcontent)

/-- A response with a status line, headers, an empty line and a body whose length is
given. -/
def IsResponse (response : List UInt8) (statusCode : ℕ) (body : List UInt8) : Prop :=
  ∃ protocol ∈ supportedProtocols, ∃ reason httpHeaders,
    (∀ b ∈ reason, b ∉ crlf) ∧
    (∀ h ∈ httpHeaders, PlainHeader h) ∧
    (ofAscii "Content-Length".toList, decimal body.length) ∈ httpHeaders ∧
    response = responseText protocol statusCode reason httpHeaders body

/-- However the text of `r` arrives, a response is sent, always with the same status and
the same body; the status is 505 when the server does not speak the protocol. -/
def Answered (atResponse : List UInt8 → List UInt8) (curTime : List UInt8)
    (m : Option Method) (p : Option Protocol) (r : WireRequest) : Prop :=
  ∃ statusCode body, (r.protocol ∉ supportedProtocols → statusCode = 505) ∧
    ∀ arrivals : List (List UInt8), arrivals.flatten = r.text → ∃ fuel response,
      handleRequest atResponse curTime fuel m p arrivals = .ok (some response) ∧
        IsResponse response statusCode body

theorem parseMethod_eq_none {name : List UInt8} (h : name ∉ knownMethods) :
    parseMethod name = none := by
  simp only [knownMethods, List.mem_cons, List.not_mem_nil, or_false, not_or] at h
  simp [parseMethod, h]

/-- An unknown method is noted, and the rest of the request is not looked at. -/
theorem parseRequest_of_unknown {name rest data : List UInt8}
    (hunknown : ∀ known ∈ knownMethods, ¬ known <+: name)
    (hdata : data <+: name ++ space :: rest) (fuel : ℕ) (m : Option Method)
    (p : Option Protocol) :
    (HttpRequest.fresh m p data).parseRequest fuel
      = .ok { HttpRequest.fresh m p data with httpMethod := some .NOT_IMPLEMENTED } := by
  obtain ⟨token, htoken, hstart, hspace⟩ := exists_substr_findFirstOf Stop.outOfRange [space] data
  have hname : token <+: name :=
    prefix_of_not_mem (hstart.trans hdata)
      (fun hmem => hspace space hmem (List.mem_singleton_self space))
  have hnone := parseMethod_eq_none fun hmem => hunknown token hmem hname
  rw [HttpRequest.parseRequest]
  change (substr Stop.outOfRange data 0 (findFirstOf [space] data 0) >>= _) = _
  rw [htoken]
  simp [bind, Except.bind, hnone, pure, Except.pure]

/-- A request of which only the method has arrived is taken for one with a protocol that
is not supported. -/
theorem parseRequest_method {name : List UInt8} (hname : name ∈ knownMethods) (fuel : ℕ)
    (m : Option Method) (p : Option Protocol) :
    ∃ q, (HttpRequest.fresh m p name).parseRequest fuel = .ok q ∧
      q.protocol = some .HTTP_UNSUPPORTED := by
  simp only [knownMethods, List.mem_cons, List.not_mem_nil, or_false] at hname
  rcases hname with rfl | rfl | rfl | rfl <;> exact ⟨_, rfl, rfl⟩

/-! ### What is sent -/

theorem protocol_of_prepareResponse {curTime response : List UInt8} {q : HttpRequest} {a : Answer}
    (h : prepareResponse curTime q a = some response) :
    q.protocol = some .HTTP1_0 ∨ q.protocol = some .HTTP1_1 := by
  cases hp : q.protocol with
  | none => simp [prepareResponse, hp] at h
  | some p => cases p <;> simp [prepareResponse, hp, Protocol.name?] at h ⊢

theorem prepareResponse_unsupported (curTime : List UInt8) {q : HttpRequest}
    (hq : q.protocol = some .HTTP_UNSUPPORTED) (a : Answer) :
    prepareResponse curTime q a = none := by
  simp [prepareResponse, hq, Protocol.name?]

theorem processRequest_of_protocol (atResponse : List UInt8 → List UInt8) {q : HttpRequest}
    (hq : q.protocol = some .HTTP1_0 ∨ q.protocol = some .HTTP1_1) :
    (processRequest atResponse q).statusCode = 200 ∧
      (processRequest atResponse q).responseBody = atResponse q.url := by
  have hnot : q.protocol ≠ some .HTTP_UNSUPPORTED := by
    rcases hq with hq | hq <;> rw [hq] <;> decide
  rw [processRequest, if_neg hnot, processEngRequest, if_neg hnot]
  exact ⟨rfl, rfl⟩

theorem not_mem_crlf_getMimeType (fileName : List UInt8) :
    ∀ b ∈ getMimeType fileName, b ∉ crlf := by
  have htable : ∀ e ∈ mimeTypes, e.2.all fun b => decide (b ∉ crlf) := by decide +kernel
  rw [getMimeType]
  split
  · exact forall_mem_of_all (htable _ (List.mem_of_find?_eq_some ‹_›))
  · split <;> exact forall_mem_of_all (by decide +kernel)

theorem not_mem_crlf_decimal (n : ℕ) : ∀ b ∈ decimal n, b ∉ crlf := by
  intro b hb hmem
  have hdigit := isDigit_of_mem_decimal hb
  simp only [crlf, List.mem_cons, List.not_mem_nil, or_false] at hmem
  rcases hmem with rfl | rfl <;> exact absurd hdigit (by decide)

/-- A request whose protocol is supported gets a response that is well formed. -/
theorem isResponse_prepareResponse (atResponse : List UInt8 → List UInt8) {curTime : List UInt8}
    (htime : 13 ∉ curTime) {q : HttpRequest}
    (hq : q.protocol = some .HTTP1_0 ∨ q.protocol = some .HTTP1_1) :
    ∃ response, prepareResponse curTime q (processRequest atResponse q) = some response ∧
      IsResponse response 200 (atResponse q.url) := by
  obtain ⟨name, hname, hsupported⟩ : ∃ name, q.protocol.bind Protocol.name? = some name ∧
      name ∈ supportedProtocols := by
    rcases hq with hq | hq <;> exact ⟨_, by rw [hq]; rfl, by decide⟩
  have hdate : ∀ b ∈ curTime.map fun b => if b = 10 then 0 else b, b ∉ crlf := by
    intro b hb
    obtain ⟨c, hc, rfl⟩ := List.mem_map.mp hb
    split
    · decide
    · have hcr : c ≠ 13 := fun h => htime (h ▸ hc)
      simp [crlf, *]
  have hnot : q.protocol ≠ some .HTTP_UNSUPPORTED := by
    rcases hq with hq | hq <;> simp [hq]
  rw [prepareResponse, hname, Option.map_some, processRequest, if_neg hnot, processEngRequest,
    if_neg hnot]
  have hreason : ∀ b ∈ reasonPhrase 200, b ∉ crlf := forall_mem_of_all (by decide +kernel)
  refine ⟨_, rfl, name, hsupported, _, _, hreason, ?_, by simp, rfl⟩
  simp only [List.forall_mem_append, List.forall_mem_cons]
  -- only the length, the date and the kind of the content are not fixed
  refine ⟨⟨plainHeader_mk (forall_mem_of_all ?_) (not_mem_crlf_decimal _),
    plainHeader_of_all ?_ ?_, plainHeader_of_all ?_ ?_, plainHeader_of_all ?_ ?_,
    List.forall_mem_nil _⟩,
    plainHeader_mk (forall_mem_of_all ?_) hdate, plainHeader_of_all ?_ ?_,
    plainHeader_of_all ?_ ?_,
    plainHeader_mk (forall_mem_of_all ?_) (not_mem_crlf_getMimeType _), plainHeader_of_all ?_ ?_,
    List.forall_mem_nil _⟩
  all_goals decide +kernel

theorem not_isResponse_505 {atResponse : List UInt8 → List UInt8} {curTime response : List UInt8}
    {q : HttpRequest} (h : prepareResponse curTime q (processRequest atResponse q) = some response)
    (body : List UInt8) : ¬ IsResponse response 505 body := by
  have hq := protocol_of_prepareResponse h
  have hstatus := (processRequest_of_protocol atResponse hq).1
  rintro ⟨name, hname, reason, headers, -, -, -, rfl⟩
  rw [prepareResponse, hstatus] at h
  obtain ⟨name', hname', heq⟩ := Option.map_eq_some_iff.mp h
  have hsupported : name' ∈ supportedProtocols := by
    rcases hq with hq | hq <;> rw [hq] at hname' <;> cases hname' <;> decide
  -- both protocols have eight letters, and the status follows a space
  simp only [supportedProtocols, List.mem_cons, List.not_mem_nil, or_false] at hname hsupported
  have h9 : some (50 : UInt8) = some 53 := by
    rcases hname with rfl | rfl <;> rcases hsupported with rfl | rfl <;>
      exact congrArg (fun l => l[9]?) heq
  exact absurd h9 (by decide)

/-! ### The requests that are answered -/

theorem handleRequest_of_parse {atResponse : List UInt8 → List UInt8} {curTime data : List UInt8}
    {arrivals : List (List UInt8)} {fuel : ℕ} {m : Option Method} {p : Option Protocol}
    {q : HttpRequest} (hdata : recvRequest arrivals = some data)
    (hparse : (HttpRequest.fresh m p data).parseRequest fuel = .ok q) :
    handleRequest atResponse curTime fuel m p arrivals
      = .ok (prepareResponse curTime q (processRequest atResponse q)) := by
  rw [handleRequest, hdata]
  change ((HttpRequest.fresh m p data).parseRequest fuel >>= _) = _
  rw [hparse]
  rfl

/-- A complete request that is received whole is answered with what the AT back end says
about its URL. -/
theorem handleRequest_of_whole (atResponse : List UInt8 → List UInt8) {curTime : List UInt8}
    (htime : 13 ∉ curTime) (m : Option Method) (p : Option Protocol) {r : WireRequest}
    (hr : r.Complete) (hmethod : r.httpMethod ∈ knownMethods)
    (hprotocol : r.protocol ∈ supportedProtocols) {arrivals : List (List UInt8)}
    (hwhole : recvRequest arrivals = some r.text) {fuel : ℕ}
    (hfuel : r.httpHeaders.length ≤ fuel) :
    ∃ response, handleRequest atResponse curTime fuel m p arrivals = .ok (some response) ∧
      IsResponse response 200 (atResponse r.url) := by
  have hspace {l : List UInt8} (h : ∀ b ∈ l, b ∉ space :: crlf) : space ∉ l :=
    fun hmem => h space hmem (List.mem_cons_self ..)
  obtain ⟨method, hm⟩ : ∃ method, parseMethod r.httpMethod = some method := by
    simp only [knownMethods, List.mem_cons, List.not_mem_nil, or_false] at hmethod
    rcases hmethod with h | h | h | h <;> rw [h] <;> exact ⟨_, rfl⟩
  obtain ⟨protocol, hp, hsupported⟩ : ∃ protocol, parseProtocol r.protocol = some protocol ∧
      (some protocol = some .HTTP1_0 ∨ some protocol = some .HTTP1_1) := by
    simp only [supportedProtocols, List.mem_cons, List.not_mem_nil, or_false] at hprotocol
    rcases hprotocol with h | h <;> rw [h] <;> exact ⟨_, rfl, by decide⟩
  have hparse := parseRequest_of_headers (hspace hr.httpMethod) hm (hspace hr.url)
    (fun b hb h => hr.protocol b hb (List.mem_cons_of_mem _ h)) hp hr.httpHeaders hr.name
    hr.content r.requestBody hfuel m p
  obtain ⟨response, hresponse, hform⟩ := isResponse_prepareResponse atResponse htime
    (q := .mk (some method) r.url (some protocol) r.httpHeaders r.requestBody r.text) hsupported
  refine ⟨response, ?_, hform⟩
  rw [handleRequest_of_parse hwhole hparse]
  exact congrArg Except.ok hresponse

/-- The server meets what a client expects exactly when it does not know the method, so
that a part of the request is as good as the whole, the client's protocol is one that the
server speaks, and the memory of the new request happens to hold such a protocol too. -/
theorem answered_iff (atResponse : List UInt8 → List UInt8) {curTime : List UInt8}
    (htime : 13 ∉ curTime) (m : Option Method) (p : Option Protocol) (r : WireRequest) :
    Answered atResponse curTime m p r ↔
      (∀ known ∈ knownMethods, ¬ known <+: r.httpMethod) ∧ r.protocol ∈ supportedProtocols ∧
        (p = some .HTTP1_0 ∨ p = some .HTTP1_1) := by
  have htext : r.text = r.httpMethod ++ space :: (r.url ++ (space :: (r.protocol ++ (crlf ++
      (r.httpHeaders.flatMap headerText ++ (crlf ++ r.requestBody)))))) := rfl
  constructor
  · rintro ⟨statusCode, body, hstatus, hall⟩
    have hmethod : ∀ known ∈ knownMethods, ¬ known <+: r.httpMethod := by
      rintro known hknown ⟨rest, hrest⟩
      -- the first segment ends behind the method
      obtain ⟨fuel, response, hresponse, -⟩ := hall [known, [], rest ++ space :: (r.url ++
        (space :: (r.protocol ++ (crlf ++ (r.httpHeaders.flatMap headerText ++
          (crlf ++ r.requestBody))))))] (by simp [htext, ← hrest])
      have hlength : known ≠ [] ∧ known.length < bufSz :=
        (by decide : ∀ known ∈ knownMethods, known ≠ [] ∧ known.length < bufSz) known hknown
      obtain ⟨q, hq, hprotocol⟩ := parseRequest_method hknown fuel m p
      rw [handleRequest_of_parse (recvRequest_segment hlength.1 hlength.2 _) hq,
        prepareResponse_unsupported curTime hprotocol] at hresponse
      cases hresponse
    -- whatever else is received, the rest of the request is not looked at
    obtain ⟨data, hdata, -, hstart⟩ := recvRequest_prefix
      (show [r.text].flatten ≠ [] by rw [htext]; simp)
    rw [List.flatten_singleton, htext] at hstart
    obtain ⟨fuel, response, hresponse, hform⟩ := hall [r.text] (by simp)
    rw [handleRequest_of_parse hdata (parseRequest_of_unknown hmethod hstart fuel m p)]
      at hresponse
    have hsent := Except.ok.inj hresponse
    refine ⟨hmethod, ?_, protocol_of_prepareResponse hsent⟩
    by_contra hunsupported
    rw [hstatus hunsupported] at hform
    exact not_isResponse_505 hsent body hform
  · rintro ⟨hmethod, hsupported, hp⟩
    refine ⟨200, atResponse [], fun h => absurd hsupported h, fun arrivals harrivals => ?_⟩
    obtain ⟨data, hdata, hne, hstart⟩ := recvRequest_prefix
      (show arrivals.flatten ≠ [] by rw [harrivals, htext]; simp)
    rw [harrivals, htext] at hstart
    have hparse := parseRequest_of_unknown hmethod hstart 0 m p
    obtain ⟨response, hresponse, hform⟩ := isResponse_prepareResponse atResponse htime
      (q := { HttpRequest.fresh m p data with httpMethod := some .NOT_IMPLEMENTED }) hp
    refine ⟨0, response, ?_, hform⟩
    rw [handleRequest_of_parse hdata hparse]
    exact congrArg Except.ok hresponse

/-- A method that the server does not know, at an address where the memory is zero. -/
theorem answered_iff_head :
    Answered id (ofAscii "Thu Jan  1 00:00:00 1970\n".toList) none (some .HTTP1_0)
        ⟨ofAscii "HEAD".toList, ofAscii "/eng".toList, protocol1_1,
          [(ofAscii "Host".toList, ofAscii "a".toList)], []⟩ ↔
      (∀ known ∈ knownMethods, ¬ known <+: ofAscii "HEAD".toList) ∧
        protocol1_1 ∈ supportedProtocols ∧
        (some Protocol.HTTP1_0 = some .HTTP1_0 ∨ some Protocol.HTTP1_0 = some .HTTP1_1) :=
  answered_iff id (by decide) none (some .HTTP1_0)
    ⟨ofAscii "HEAD".toList, ofAscii "/eng".toList, protocol1_1,
      [(ofAscii "Host".toList, ofAscii "a".toList)], []⟩

def getRequest : WireRequest where
  httpMethod := methodGET
  url := ofAscii "/eng?cmd=AT".toList
  protocol := protocol1_1
  httpHeaders := [(ofAscii "Host".toList, ofAscii "a".toList)]
  requestBody := []

/-- A request is not answered when its first segment is the word `GET`. -/
theorem getRequest_not_answered : getRequest.Complete ∧
    ¬ Answered id (ofAscii "Thu Jan  1 00:00:00 1970\n".toList) none (some .HTTP1_0)
      getRequest := by
  constructor
  · exact
      { httpMethod := forall_mem_of_all (by decide +kernel)
        url := forall_mem_of_all (by decide +kernel)
        protocol := forall_mem_of_all (by decide +kernel)
        httpHeaders := by decide +kernel
        name := by
          intro h hh
          rw [List.mem_singleton.mp hh]
          exact ⟨by decide +kernel, forall_mem_of_all (by decide +kernel)⟩
        content := by
          intro h hh
          rw [List.mem_singleton.mp hh]
          exact forall_mem_of_all (by decide +kernel) }
  · rintro ⟨statusCode, body, -, hall⟩
    obtain ⟨rest, hrest⟩ : methodGET <+: getRequest.text := List.prefix_append ..
    obtain ⟨fuel, response, hresponse, -⟩ := hall [methodGET, [], rest] (by simp [← hrest])
    obtain ⟨q, hq, hprotocol⟩ := parseRequest_method (show methodGET ∈ knownMethods by decide)
      fuel none (some .HTTP1_0)
    rw [handleRequest_of_parse (recvRequest_segment (by decide) (by decide) _) hq,
      prepareResponse_unsupported _ hprotocol] at hresponse
    cases hresponse

end Tarako.Engmoded
