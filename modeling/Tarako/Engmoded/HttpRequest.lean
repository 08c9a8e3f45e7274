import Mathlib.Data.List.Basic
import Tarako.Lib.Cursor
import Tarako.Lib.Text

/-!
# Requests of the engineering-mode HTTP server

`HTTPRequest` of `engmoded`: a request is built as text by `prepareRequest` and taken
apart by `parseRequest`. Strings are lists of bytes. A cursor that leaves the text makes
`substr` throw, and the loop over the headers runs until it meets an empty line.
-/

namespace Tarako.Engmoded

open Cursor Text

/-! ### The request -/

inductive Method where
  | GET
  | PUT
  | HEAD
  | POST
  | NOT_IMPLEMENTED
  deriving DecidableEq, Repr

inductive Protocol where
  | HTTP1_0
  | HTTP1_1
  | HTTP_UNSUPPORTED
  deriving DecidableEq, Repr

/-- A method or protocol that is `none` is memory that holds no value of its type: the
constructor sets neither. -/
structure HttpRequest where
  httpMethod : Option Method
  url : List UInt8
  protocol : Option Protocol
  httpHeaders : List (List UInt8 × List UInt8)
  requestBody : List UInt8
  data : List UInt8
  deriving DecidableEq, Repr

/-- A new object with `data` added to it. What its memory held before is still its method
and its protocol. -/
def HttpRequest.fresh (httpMethod : Option Method) (protocol : Option Protocol)
    (data : List UInt8) : HttpRequest :=
  { httpMethod, url := [], protocol, httpHeaders := [], requestBody := [], data }

def space : UInt8 := 32

def colon : UInt8 := 58

def crlf : List UInt8 := [13, 10]

def methodGET : List UInt8 := ofAscii "GET".toList

def methodPUT : List UInt8 := ofAscii "PUT".toList

def methodPOST : List UInt8 := ofAscii "POST".toList

def methodOPTIONS : List UInt8 := ofAscii "OPTIONS".toList

def protocol1_0 : List UInt8 := ofAscii "HTTP/1.0".toList

def protocol1_1 : List UInt8 := ofAscii "HTTP/1.1".toList

/-! ### Building a request -/

def Method.name? : Method → Option (List UInt8)
  | GET => some methodGET
  | PUT => some methodPUT
  | POST => some methodPOST
  | HEAD | NOT_IMPLEMENTED => none

def Protocol.name? : Protocol → Option (List UInt8)
  | HTTP1_0 => some protocol1_0
  | HTTP1_1 => some protocol1_1
  | HTTP_UNSUPPORTED => none

def headerText (header : List UInt8 × List UInt8) : List UInt8 :=
  header.1 ++ ([colon, space] ++ (header.2 ++ crlf))

def requestText (httpMethod url protocol : List UInt8)
    (httpHeaders : List (List UInt8 × List UInt8)) (requestBody : List UInt8) : List UInt8 :=
  httpMethod ++ (space :: (url ++ (space :: (protocol ++ (crlf ++
    (httpHeaders.flatMap headerText ++ (crlf ++ requestBody)))))))

/-- The text is added to the data; `none` is the result -1. -/
def HttpRequest.prepareRequest (q : HttpRequest) : Option HttpRequest := do
  let httpMethod ← q.httpMethod.bind Method.name?
  let protocol ← q.protocol.bind Protocol.name?
  return { q with
    data := q.data ++ requestText httpMethod q.url protocol q.httpHeaders q.requestBody }

/-! ### Parsing a request -/

/-- How a call of `parseRequest` does not return. -/
inductive Stop where
  /-- `substr` has thrown `std::out_of_range`. -/
  | outOfRange
  /-- The loop over the headers is still running. -/
  | running
  deriving DecidableEq, Repr

def parseMethod (httpMethod : List UInt8) : Option Method :=
  if httpMethod = methodGET then some .GET
  else if httpMethod = methodPUT then some .PUT
  else if httpMethod = methodPOST then some .POST
  else if httpMethod = methodOPTIONS then some .POST
  else none

def parseProtocol (httpProtocol : List UInt8) : Option Protocol :=
  if httpProtocol = protocol1_0 then some .HTTP1_0
  else if httpProtocol = protocol1_1 then some .HTTP1_1
  else none

/-- One turn of the loop: the header at the cursor and the cursor behind its line. -/
def parseHeader (data : List UInt8) (parseCursorOld : ℕ) :
    Except Stop ((List UInt8 × List UInt8) × ℕ) := do
  let parseCursorNew := findFirstOf crlf data parseCursorOld
  let requestHeader ← substr .outOfRange data parseCursorOld parseCursorNew
  let nameEnd := findFirstOf [colon] requestHeader 0
  let requestHeaderName ← substr .outOfRange requestHeader 0 nameEnd
  let headerParseCursorOld := advance nameEnd 2
  let contentEnd := findFirstOf crlf requestHeader headerParseCursorOld
  let requestHeaderContent ←
    substr .outOfRange requestHeader headerParseCursorOld contentEnd
  return ((requestHeaderName, requestHeaderContent), advance parseCursorNew 1 + 1)

/-- The loop over the headers, for at most `fuel` turns. -/
def parseHeaders (data : List UInt8) : ℕ → ℕ → List (List UInt8 × List UInt8) →
    Except Stop (List (List UInt8 × List UInt8) × ℕ)
  | 0, _, _ => .error .running
  | fuel + 1, parseCursorOld, httpHeaders => do
      let (header, parseCursorOld) ← parseHeader data parseCursorOld
      let next ← substr .outOfRange data parseCursorOld (some (parseCursorOld + 2))
      if next = crlf then
        return (httpHeaders ++ [header], parseCursorOld)
      else
        parseHeaders data fuel parseCursorOld (httpHeaders ++ [header])

/-- `parseRequest`, with at most `fuel` turns of the loop over the headers. -/
def HttpRequest.parseRequest (fuel : ℕ) (q : HttpRequest) : Except Stop HttpRequest := do
  let methodEnd := findFirstOf [space] q.data 0
  let httpMethod ← substr .outOfRange q.data 0 methodEnd
  let parseCursorOld := advance methodEnd 1
  match parseMethod httpMethod with
  | none => return { q with httpMethod := some .NOT_IMPLEMENTED }
  | some method =>
      let urlEnd := findFirstOf [space] q.data parseCursorOld
      let url ← substr .outOfRange q.data parseCursorOld urlEnd
      let parseCursorOld := advance urlEnd 1
      let protocolEnd := findFirstOf crlf q.data parseCursorOld
      let httpProtocol ← substr .outOfRange q.data parseCursorOld protocolEnd
      let q := { q with httpMethod := some method, url }
      match parseProtocol httpProtocol with
      | none => return { q with protocol := some .HTTP_UNSUPPORTED }
      | some protocol =>
          let (httpHeaders, parseCursorOld) ←
            parseHeaders q.data fuel (advance protocolEnd 1 + 1) q.httpHeaders
          let requestBody ← substr .outOfRange q.data (parseCursorOld + 2) none
          return { q with protocol := some protocol, httpHeaders, requestBody }

/-! ### A request that has headers is read back -/

/-- What keeps a request apart: no space in the URL, no colon in the name of a header, no
end of a line in a header. -/
structure HttpRequest.Separable (q : HttpRequest) : Prop where
  httpMethod : ∃ m ∈ [Method.GET, .PUT, .POST], q.httpMethod = some m
  protocol : ∃ p ∈ [Protocol.HTTP1_0, .HTTP1_1], q.protocol = some p
  url : space ∉ q.url
  name : ∀ h ∈ q.httpHeaders, colon ∉ h.1 ∧ ∀ b ∈ h.1, b ∉ crlf
  content : ∀ h ∈ q.httpHeaders, ∀ b ∈ h.2, b ∉ crlf

def headerLine (header : List UInt8 × List UInt8) : List UInt8 :=
  header.1 ++ (colon :: (space :: header.2))

theorem headerText_eq (header : List UInt8 × List UInt8) :
    headerText header = headerLine header ++ crlf := by
  simp [headerText, headerLine]

theorem not_mem_crlf_of_mem_headerLine {header : List UInt8 × List UInt8}
    (hname : ∀ b ∈ header.1, b ∉ crlf) (hcontent : ∀ b ∈ header.2, b ∉ crlf) :
    ∀ b ∈ headerLine header, b ∉ crlf := by
  intro b hb
  simp only [headerLine, List.mem_append, List.mem_cons] at hb
  rcases hb with hb | rfl | rfl | hb
  · exact hname b hb
  · decide
  · decide
  · exact hcontent b hb

section

variable {header : List UInt8 × List UInt8} (hcolon : colon ∉ header.1)
  (hname : ∀ b ∈ header.1, b ∉ crlf) (hcontent : ∀ b ∈ header.2, b ∉ crlf)

include hcolon hname hcontent

theorem parseHeader_append (pre post : List UInt8) :
    parseHeader (pre ++ (headerText header ++ post)) pre.length
      = .ok (header, (pre ++ headerText header).length) := by
  have hline := not_mem_crlf_of_mem_headerLine hname hcontent
  have hdata : pre ++ (headerText header ++ post)
      = pre ++ (headerLine header ++ 13 :: (10 :: post)) := by
    simp [headerText_eq, crlf]
  have hstop := findFirstOf_append crlf pre hline (c := 13) (by decide) (10 :: post)
  have hnameEnd : findFirstOf [colon] (headerLine header) 0 = some header.1.length := by
    have h := findFirstOf_append [colon] [] (forall_not_mem_singleton hcolon)
      (List.mem_singleton_self colon) (space :: header.2)
    simpa [headerLine] using h
  have hnameText : substr Stop.outOfRange (headerLine header) 0 (some header.1.length)
      = .ok header.1 := by
    have h := substr_append Stop.outOfRange [] header.1 (colon :: space :: header.2)
    simpa [headerLine] using h
  have hcontentText : substr Stop.outOfRange (headerLine header) (header.1.length + 2) none
      = .ok header.2 := by
    have h := substr_append_none Stop.outOfRange (header.1 ++ [colon, space]) header.2
    simpa [headerLine] using h
  rw [hdata, parseHeader, hstop]
  simp only [substr_append, bind, Except.bind, hnameEnd, hnameText, advance,
    findFirstOf_eq_none hline _, hcontentText]
  simp [headerText_eq, crlf, Nat.add_assoc, pure, Except.pure]

end

/-- The two bytes at the cursor tell another header from the empty line. -/
theorem substr_two_ne_crlf {header : List UInt8 × List UInt8}
    (hname : ∀ b ∈ header.1, b ∉ crlf) (pre post : List UInt8) :
    ∃ s, substr Stop.outOfRange (pre ++ (headerText header ++ post)) pre.length
      (some (pre.length + 2)) = .ok s ∧ s ≠ crlf := by
  rw [substr, if_pos (by simp)]
  refine ⟨_, rfl, ?_⟩
  rw [List.drop_left, Nat.add_sub_cancel_left]
  intro h
  have hhead : (headerText header ++ post).head? = some 13 := by
    rw [← List.take_append_drop 2 (headerText header ++ post), h]
    rfl
  rw [headerText] at hhead
  cases hn : header.1 with
  | nil =>
    rw [hn] at hhead
    simp [colon] at hhead
  | cons b l =>
    rw [hn] at hhead hname
    have hb : b = 13 := by simpa using hhead
    exact hname b (List.mem_cons_self ..) (by rw [hb]; decide)

theorem parseHeaders_append {header : List UInt8 × List UInt8}
    {headers : List (List UInt8 × List UInt8)}
    (hname : ∀ h ∈ header :: headers, colon ∉ h.1 ∧ ∀ b ∈ h.1, b ∉ crlf)
    (hcontent : ∀ h ∈ header :: headers, ∀ b ∈ h.2, b ∉ crlf)
    {fuel : ℕ} (hfuel : headers.length < fuel) (pre body : List UInt8)
    (done : List (List UInt8 × List UInt8)) :
    parseHeaders (pre ++ ((header :: headers).flatMap headerText ++ (crlf ++ body))) fuel
        pre.length done
      = .ok (done ++ header :: headers,
          (pre ++ (header :: headers).flatMap headerText).length) := by
  induction headers generalizing header fuel pre done with
  | nil =>
    obtain ⟨fuel, rfl⟩ : ∃ k, fuel = k + 1 := ⟨fuel - 1, by omega⟩
    have hh := hname header (List.mem_cons_self ..)
    have hturn := parseHeader_append hh.1 hh.2 (hcontent header (List.mem_cons_self ..)) pre
      (crlf ++ body)
    have hnext := substr_append Stop.outOfRange (pre ++ headerText header) crlf body
    rw [List.append_assoc] at hnext
    simp only [List.flatMap_cons, List.flatMap_nil, List.append_nil, parseHeaders, hturn, bind,
      Except.bind]
    rw [show (pre ++ headerText header).length + 2
      = (pre ++ headerText header).length + crlf.length from rfl, hnext]
    rfl
  | cons next headers ih =>
    obtain ⟨fuel, rfl⟩ : ∃ k, fuel = k + 1 := ⟨fuel - 1, by omega⟩
    have hh := hname header (List.mem_cons_self ..)
    have hn := hname next (by simp)
    have hturn := parseHeader_append hh.1 hh.2 (hcontent header (List.mem_cons_self ..)) pre
      ((next :: headers).flatMap headerText ++ (crlf ++ body))
    obtain ⟨s, hs, hne⟩ := substr_two_ne_crlf hn.2 (pre ++ headerText header)
      (headers.flatMap headerText ++ (crlf ++ body))
    have hless : headers.length < fuel := by
      simp only [List.length_cons] at hfuel
      omega
    have hrest := ih (fun h hm => hname h (List.mem_cons_of_mem _ hm))
      (fun h hm => hcontent h (List.mem_cons_of_mem _ hm)) hless (pre ++ headerText header)
      (done ++ [header])
    rw [List.flatMap_cons, List.append_assoc (headerText header), parseHeaders, hturn]
    simp only [List.append_assoc, List.flatMap_cons, List.singleton_append,
      List.length_append] at hs hrest ⊢
    simp only [bind, Except.bind, hs, if_neg hne]
    rw [hrest]

def requestLine (httpMethod url protocol : List UInt8) : List UInt8 :=
  httpMethod ++ [space] ++ url ++ [space] ++ protocol ++ crlf

theorem requestText_eq (httpMethod url protocol : List UInt8)
    (httpHeaders : List (List UInt8 × List UInt8)) (requestBody : List UInt8) :
    requestText httpMethod url protocol httpHeaders requestBody
      = requestLine httpMethod url protocol
        ++ (httpHeaders.flatMap headerText ++ (crlf ++ requestBody)) := by
  simp [requestText, requestLine]

/-- The method, the URL and the protocol are cut out of the request line. The cursor then
stands two bytes behind it, or at one where the line ends the data. -/
theorem parseRequest_line {name url protocolName rest : List UInt8} {method : Method}
    {protocol : Protocol} (hname : space ∉ name) (hmethod : parseMethod name = some method)
    (hurl : space ∉ url) (hline : ∀ b ∈ protocolName, b ∉ crlf)
    (hprotocol : parseProtocol protocolName = some protocol) (hrest : ∀ b ∈ rest.head?, b ∈ crlf)
    (fuel : ℕ) (m : Option Method) (p : Option Protocol) :
    let line := name ++ [space] ++ url ++ [space] ++ protocolName
    let data := line ++ rest
    (HttpRequest.fresh m p data).parseRequest fuel = (do
      let (httpHeaders, parseCursorOld) ← parseHeaders data fuel
        (if rest = [] then 1 else line.length + 2) []
      let requestBody ← substr .outOfRange data (parseCursorOld + 2) none
      return HttpRequest.mk (some method) url (some protocol) httpHeaders requestBody data) := by
  intro line data
  have hself : space ∈ [space] := List.mem_singleton_self space
  -- the data, as it is seen from each of the three cursors
  have hdata₀ : data = [] ++ (name ++ space :: (url ++ space :: (protocolName ++ rest))) := by
    simp [data, line]
  have hdata₁ : data = (name ++ [space]) ++ (url ++ space :: (protocolName ++ rest)) := by
    simp [data, line]
  have hdata₂ : data = (name ++ [space] ++ url ++ [space]) ++ (protocolName ++ rest) := by
    simp [data, line]
  have hmethodEnd := findFirstOf_append [space] [] (forall_not_mem_singleton hname) hself
    (url ++ space :: (protocolName ++ rest))
  have hmethodText := substr_append Stop.outOfRange [] name
    (space :: (url ++ space :: (protocolName ++ rest)))
  rw [← hdata₀, List.length_nil, Nat.zero_add] at hmethodEnd hmethodText
  have hurlEnd := findFirstOf_append [space] (name ++ [space]) (forall_not_mem_singleton hurl) hself
    (protocolName ++ rest)
  have hurlText := substr_append Stop.outOfRange (name ++ [space]) url
    (space :: (protocolName ++ rest))
  rw [← hdata₁] at hurlEnd hurlText
  have hprotocolText :=
    substr_cut crlf (name ++ [space] ++ url ++ [space]) hline hrest Stop.outOfRange
  have hprotocolEnd := findFirstOf_cut crlf (name ++ [space] ++ url ++ [space]) hline hrest
  rw [← hdata₂] at hprotocolEnd hprotocolText
  have hcursor : advance (findFirstOf crlf data (name ++ [space] ++ url ++ [space]).length) 1 + 1
      = if rest = [] then 1 else line.length + 2 := by
    rw [hprotocolEnd]
    split_ifs
    · rfl
    · simp only [advance, line, List.length_append]
  simp only [List.length_append, List.length_singleton] at hurlEnd hurlText
  simp only [List.length_append, List.length_singleton] at hprotocolText hcursor
  simp only [HttpRequest.parseRequest, HttpRequest.fresh, hmethodEnd, hmethodText, bind,
    Except.bind, advance, hmethod, hurlEnd, hurlText, hprotocolText, hprotocol]
  rw [← hcursor]
  rfl

theorem requestText_eq_line (httpMethod url protocol : List UInt8)
    (httpHeaders : List (List UInt8 × List UInt8)) (requestBody : List UInt8) :
    requestText httpMethod url protocol httpHeaders requestBody
      = httpMethod ++ [space] ++ url ++ [space] ++ protocol
        ++ (crlf ++ (httpHeaders.flatMap headerText ++ (crlf ++ requestBody))) := by
  simp [requestText]

/-- The cursor stands behind the request line of a request that has been built. -/
theorem parseRequest_requestText {name url protocolName : List UInt8} {method : Method}
    {protocol : Protocol} (hname : space ∉ name) (hmethod : parseMethod name = some method)
    (hurl : space ∉ url) (hline : ∀ b ∈ protocolName, b ∉ crlf)
    (hprotocol : parseProtocol protocolName = some protocol)
    (headers : List (List UInt8 × List UInt8)) (body : List UInt8) (fuel : ℕ)
    (m : Option Method) (p : Option Protocol) :
    let data := requestText name url protocolName headers body
    (HttpRequest.fresh m p data).parseRequest fuel = (do
      let (httpHeaders, parseCursorOld) ← parseHeaders data fuel
        (requestLine name url protocolName).length []
      let requestBody ← substr .outOfRange data (parseCursorOld + 2) none
      return HttpRequest.mk (some method) url (some protocol) httpHeaders requestBody data) := by
  intro data
  obtain ⟨rest, hrest⟩ : ∃ rest, crlf ++ rest
      = crlf ++ (headers.flatMap headerText ++ (crlf ++ body)) := ⟨_, rfl⟩
  have hhead : ∀ b ∈ (crlf ++ rest).head?, b ∈ crlf := by simp [crlf]
  have hne : crlf ++ rest ≠ [] := List.cons_ne_nil _ _
  have hparse := parseRequest_line hname hmethod hurl hline hprotocol hhead fuel m p
  have hlength : (requestLine name url protocolName).length
      = (name ++ [space] ++ url ++ [space] ++ protocolName).length + 2 := by
    simp only [requestLine, List.length_append]
    rfl
  rw [hrest] at hne
  simp only [hrest, ← requestText_eq_line] at hparse
  rw [hparse, if_neg hne, hlength]

theorem Method.name?_spec {m : Method} {name : List UInt8} (h : m.name? = some name) :
    parseMethod name = some m ∧ space ∉ name := by
  cases m <;> simp only [Method.name?, Option.some.injEq, reduceCtorEq] at h <;> subst h <;>
    exact ⟨rfl, by decide⟩

theorem Protocol.name?_spec {p : Protocol} {name : List UInt8} (h : p.name? = some name) :
    parseProtocol name = some p ∧ ∀ b ∈ name, b ∉ crlf := by
  cases p <;> simp only [Protocol.name?, Option.some.injEq, reduceCtorEq] at h <;> subst h <;>
    exact ⟨rfl, by decide +kernel⟩

theorem parseRequest_of_headers {name url protocolName : List UInt8} {method : Method}
    {protocol : Protocol} (hname : space ∉ name) (hmethod : parseMethod name = some method)
    (hurl : space ∉ url) (hline : ∀ b ∈ protocolName, b ∉ crlf)
    (hprotocol : parseProtocol protocolName = some protocol)
    {headers : List (List UInt8 × List UInt8)} (hne : headers ≠ [])
    (hnames : ∀ h ∈ headers, colon ∉ h.1 ∧ ∀ b ∈ h.1, b ∉ crlf)
    (hcontents : ∀ h ∈ headers, ∀ b ∈ h.2, b ∉ crlf) (body : List UInt8) {fuel : ℕ}
    (hfuel : headers.length ≤ fuel) (m : Option Method) (p : Option Protocol) :
    let data := requestText name url protocolName headers body
    (HttpRequest.fresh m p data).parseRequest fuel
      = .ok (.mk (some method) url (some protocol) headers body data) := by
  intro data
  obtain ⟨header, rest, rfl⟩ := List.exists_cons_of_ne_nil hne
  have hdata := requestText_eq name url protocolName (header :: rest) body
  have hloop := parseHeaders_append hnames hcontents hfuel (requestLine name url protocolName)
    body []
  have hbody := substr_append_none Stop.outOfRange
    (requestLine name url protocolName ++ (header :: rest).flatMap headerText ++ crlf) body
  rw [List.append_assoc _ crlf, List.append_assoc (requestLine ..), ← hdata,
    List.length_append, show crlf.length = 2 from rfl] at hbody
  rw [← hdata] at hloop
  rw [parseRequest_requestText hname hmethod hurl hline hprotocol]
  change (parseHeaders data fuel _ [] >>= _) = _
  rw [hloop]
  change (substr Stop.outOfRange data _ none >>= _) = _
  rw [hbody]
  rfl

/-- An empty line where a header is expected is taken for a header, whose content would
start behind the line. -/
theorem parseHeader_emptyLine (pre post : List UInt8) :
    parseHeader (pre ++ (crlf ++ post)) pre.length = .error .outOfRange := by
  have hstop := findFirstOf_append crlf pre (List.forall_mem_nil (· ∉ crlf)) (c := 13)
    (by decide) (10 :: post)
  have hline := substr_append Stop.outOfRange pre [] (crlf ++ post)
  rw [List.nil_append] at hstop hline
  rw [parseHeader, show crlf ++ post = 13 :: (10 :: post) from rfl, hstop]
  change (substr Stop.outOfRange (pre ++ (crlf ++ post)) pre.length _ >>= _) = _
  rw [hline]
  rfl

theorem parseRequest_of_no_headers {name url protocolName : List UInt8} {method : Method}
    {protocol : Protocol} (hname : space ∉ name) (hmethod : parseMethod name = some method)
    (hurl : space ∉ url) (hline : ∀ b ∈ protocolName, b ∉ crlf)
    (hprotocol : parseProtocol protocolName = some protocol) (body : List UInt8) (fuel : ℕ)
    (m : Option Method) (p : Option Protocol) :
    (HttpRequest.fresh m p (requestText name url protocolName [] body)).parseRequest (fuel + 1)
      = .error .outOfRange := by
  have hthrow := parseHeader_emptyLine (requestLine name url protocolName) body
  rw [← List.nil_append (crlf ++ body)] at hthrow
  rw [parseRequest_requestText hname hmethod hurl hline hprotocol, requestText_eq, parseHeaders,
    List.flatMap_nil, hthrow]
  rfl

/-! ### The round trip -/

/-- The text that `prepareRequest` builds for `q` gives `q` back: a new object that is
given the text is parsed, whatever its memory held, with no more turns of the loop than
there are lines behind the request line, and has the method, the URL, the protocol, the
headers and the body of `q`. -/
def HttpRequest.RoundTrip (q : HttpRequest) : Prop :=
  ∃ text, q.prepareRequest = some { q with data := q.data ++ text } ∧
    ∀ fuel, q.httpHeaders.length < fuel → ∀ m p, ∃ r : HttpRequest,
      (HttpRequest.fresh m p text).parseRequest fuel = .ok r ∧
        r.httpMethod = q.httpMethod ∧ r.url = q.url ∧ r.protocol = q.protocol ∧
        r.httpHeaders = q.httpHeaders ∧ r.requestBody = q.requestBody

/-- A request is read back from its own text exactly when it has a header. -/
theorem roundTrip_iff_headers {q : HttpRequest} (hq : q.Separable) :
    q.RoundTrip ↔ q.httpHeaders ≠ [] := by
  obtain ⟨method, hmethodMem, hmethod⟩ := hq.httpMethod
  obtain ⟨protocol, hprotocolMem, hprotocol⟩ := hq.protocol
  obtain ⟨name, hname⟩ : ∃ name, method.name? = some name := by
    cases method <;> simp [Method.name?] at hmethodMem ⊢
  obtain ⟨protocolName, hprotocolName⟩ : ∃ name, protocol.name? = some name := by
    cases protocol <;> simp [Protocol.name?] at hprotocolMem ⊢
  obtain ⟨hparsed, hspace⟩ := method.name?_spec hname
  obtain ⟨hprotocolParsed, hline⟩ := protocol.name?_spec hprotocolName
  have hprepare : q.prepareRequest = some { q with
      data := q.data ++ requestText name q.url protocolName q.httpHeaders q.requestBody } := by
    simp [HttpRequest.prepareRequest, hmethod, hprotocol, hname, hprotocolName]
  constructor
  · intro ⟨text, htext, hparse⟩ hnil
    have heq : text = requestText name q.url protocolName [] q.requestBody := by
      rw [hprepare, hnil] at htext
      simpa using htext.symm
    obtain ⟨r, hr, -⟩ := hparse 1 (by simp [hnil]) none none
    rw [heq, parseRequest_of_no_headers hspace hparsed hq.url hline hprotocolParsed] at hr
    cases hr
  · intro hne
    refine ⟨_, hprepare, fun fuel hfuel m p => ⟨_, parseRequest_of_headers hspace hparsed hq.url
      hline hprotocolParsed hne hq.name hq.content q.requestBody (Nat.le_of_lt hfuel) m p, ?_⟩⟩
    exact ⟨hmethod.symm, rfl, hprotocol.symm, rfl, rfl⟩

/-- A command with a header that has no content and a body with empty lines. -/
def sampleRequest : HttpRequest where
  httpMethod := some .POST
  url := ofAscii "/eng".toList
  protocol := some .HTTP1_1
  httpHeaders := [(ofAscii "Host".toList, ofAscii "a:8".toList), (ofAscii "Origin".toList, [])]
  requestBody := [13, 10, 13, 10, 65]
  data := []

theorem roundTrip_iff_headers_post :
    sampleRequest.RoundTrip ↔ sampleRequest.httpHeaders ≠ [] :=
  roundTrip_iff_headers
    { httpMethod := ⟨.POST, by decide, rfl⟩
      protocol := ⟨.HTTP1_1, by decide, rfl⟩
      url := by decide +kernel
      name := by decide +kernel
      content := by decide +kernel }

/-- `GET / HTTP/1.1` and nothing else. -/
def bareRequest : HttpRequest where
  httpMethod := some .GET
  url := ofAscii "/".toList
  protocol := some .HTTP1_1
  httpHeaders := []
  requestBody := []
  data := []

theorem bareRequest_throws : bareRequest.Separable ∧ ¬ bareRequest.RoundTrip := by
  constructor
  · exact
      { httpMethod := ⟨.GET, by decide, rfl⟩
        protocol := ⟨.HTTP1_1, by decide, rfl⟩
        url := by decide +kernel
        name := by decide +kernel
        content := by decide +kernel }
  · intro ⟨text, htext, hparse⟩
    have hbuilt : some (ofAscii "GET / HTTP/1.1\r\n\r\n".toList)
        = some text := congrArg (Option.map HttpRequest.data) htext
    obtain rfl := Option.some.inj hbuilt
    obtain ⟨r, hr, -⟩ := hparse 1 (by decide) none none
    cases hr

end Tarako.Engmoded
