import Mathlib.Data.List.Basic
import Tarako.Engmoded.HttpRequest

/-!
# When the parser of requests returns

`parseRequest` on any bytes that can arrive: which of them it takes apart to the end, and
which make it throw or keep it in the loop over the headers. A search that fails leaves
the cursor at one, so that the loop goes on with the second byte of the request.
-/

namespace Tarako.Engmoded

open Cursor

/-! ### Lines -/

/-- A line that a turn of the loop takes apart: it is not empty, and it does not end with
its only colon. -/
structure IsHeader (line : List UInt8) : Prop where
  no_crlf : ∀ b ∈ line, b ∉ crlf
  ne_nil : line ≠ []
  ne_colon : ∀ name, colon ∉ name → line ≠ name ++ [colon]

/-- Headers and an empty line. The byte behind the end of a line is skipped, whatever it
is. -/
inductive HeaderBlock : List UInt8 → Prop
  | last {line : List UInt8} {e : UInt8} (e' : UInt8) (body : List UInt8) :
      IsHeader line → e ∈ crlf → HeaderBlock (line ++ e :: e' :: (crlf ++ body))
  | more {line : List UInt8} {e : UInt8} (e' : UInt8) {text : List UInt8} :
      IsHeader line → e ∈ crlf → HeaderBlock text → HeaderBlock (line ++ e :: e' :: text)

/-- Headers of which the last has no end. -/
inductive Unfinished : List UInt8 → Prop
  | last {line : List UInt8} : IsHeader line → Unfinished line
  | more {line : List UInt8} {e : UInt8} (e' : UInt8) {text : List UInt8} :
      IsHeader line → e ∈ crlf → Unfinished text → Unfinished (line ++ e :: e' :: text)

theorem IsHeader.not_startsWith_crlf {line : List UInt8} (h : IsHeader line)
    (rest : List UInt8) : (line ++ rest).take 2 ≠ crlf := by
  obtain ⟨b, l, rfl⟩ := List.exists_cons_of_ne_nil h.ne_nil
  intro htake
  have hb : b = 13 := (List.cons.inj htake).1
  exact h.no_crlf b (List.mem_cons_self ..) (by rw [hb]; decide)

theorem HeaderBlock.not_startsWith_crlf {text : List UInt8} (h : HeaderBlock text) :
    text.take 2 ≠ crlf := by
  cases h with
  | last e' body hline he => exact hline.not_startsWith_crlf _
  | more e' hline he htext => exact hline.not_startsWith_crlf _

theorem Unfinished.not_startsWith_crlf {text : List UInt8} (h : Unfinished text) :
    text.take 2 ≠ crlf := by
  cases h with
  | last hline => simpa using hline.not_startsWith_crlf []
  | more e' hline he htext => exact hline.not_startsWith_crlf _

/-! ### One turn -/

/-- The cursor behind the colon and the blank is within a line exactly when the line can be
taken apart. -/
theorem isHeader_iff {name behind : List UInt8} (hline : ∀ b ∈ name ++ behind, b ∉ crlf)
    (hcolon : colon ∉ name) (hbehind : ∀ b ∈ behind.head?, b ∈ [colon]) :
    IsHeader (name ++ behind) ↔
      advance (if behind = [] then none else some name.length) 2 ≤ (name ++ behind).length := by
  cases behind with
  | nil =>
    simp only [List.append_nil, if_true, advance] at hline ⊢
    constructor
    · intro h
      exact List.length_pos_iff.mpr h.ne_nil
    · intro h
      refine ⟨hline, List.length_pos_iff.mp h, ?_⟩
      rintro l - rfl
      simp at hcolon
  | cons c content =>
    obtain rfl : c = colon := List.mem_singleton.mp (hbehind c rfl)
    simp only [reduceCtorEq, if_false, advance, List.length_append, List.length_cons]
    constructor
    · intro h
      have hne : content ≠ [] := by
        rintro rfl
        exact h.ne_colon name hcolon rfl
      have hpos := List.length_pos_iff.mpr hne
      omega
    · intro h
      refine ⟨hline, by simp, ?_⟩
      intro l hl heq
      rcases List.eq_nil_or_concat' content with rfl | ⟨init, last, rfl⟩
      · simp at h
      · have hsplit : (name ++ colon :: init) ++ [last] = l ++ [colon] := by
          rw [← heq, List.append_assoc, List.cons_append]
        rw [← (List.append_inj' hsplit rfl).1] at hl
        exact hl (by simp)

section

variable (pre : List UInt8) {line rest : List UInt8} (hline : ∀ b ∈ line, b ∉ crlf)
  (hrest : ∀ b ∈ rest.head?, b ∈ crlf)

include hline hrest

/-- A turn of the loop: the cursor behind the colon decides whether the line can be taken
apart. -/
theorem parseHeader_eq : ∃ name contentStart,
    (IsHeader line ↔ contentStart ≤ line.length) ∧
      parseHeader (pre ++ (line ++ rest)) pre.length = (do
        let content ← substr .outOfRange line contentStart none
        return ((name, content), if rest = [] then 1 else pre.length + line.length + 2)) := by
  obtain ⟨name, behind, rfl, hname, hbehind⟩ := exists_cut [colon] line
  have hcolon : colon ∉ name := fun h => hname colon h (List.mem_singleton_self colon)
  have hend := findFirstOf_cut crlf pre hline hrest
  have htext := substr_cut crlf pre hline hrest Stop.outOfRange
  have hnameEnd := findFirstOf_cut [colon] [] hname hbehind
  have hnameText := substr_cut [colon] [] hname hbehind Stop.outOfRange
  simp only [List.nil_append, List.length_nil, Nat.zero_add] at hnameEnd hnameText
  have hcursor : advance (findFirstOf crlf (pre ++ (name ++ behind ++ rest)) pre.length) 1 + 1
      = if rest = [] then 1 else pre.length + (name ++ behind).length + 2 := by
    rw [hend]
    split_ifs <;> rfl
  refine ⟨name, advance (findFirstOf [colon] (name ++ behind) 0) 2, ?_, ?_⟩
  · rw [hnameEnd]
    exact isHeader_iff hline hcolon hbehind
  · rw [parseHeader]
    simp only [htext, bind, Except.bind, hnameText, findFirstOf_eq_none hline, hcursor]

theorem parseHeader_of_isHeader (h : IsHeader line) : ∃ header,
    parseHeader (pre ++ (line ++ rest)) pre.length
      = .ok (header, if rest = [] then 1 else pre.length + line.length + 2) := by
  obtain ⟨name, contentStart, hiff, heq⟩ := parseHeader_eq pre hline hrest
  rw [heq, substr, if_pos (hiff.mp h)]
  exact ⟨_, rfl⟩

theorem isHeader_of_parseHeader {result : (List UInt8 × List UInt8) × ℕ}
    (h : parseHeader (pre ++ (line ++ rest)) pre.length = .ok result) :
    IsHeader line ∧ result.2 = if rest = [] then 1 else pre.length + line.length + 2 := by
  obtain ⟨name, contentStart, hiff, heq⟩ := parseHeader_eq pre hline hrest
  rw [heq, substr] at h
  by_cases hle : contentStart ≤ line.length
  · rw [if_pos hle] at h
    cases h
    exact ⟨hiff.mpr hle, rfl⟩
  · rw [if_neg hle] at h
    cases h

end

theorem parseHeaders_succ {data : List UInt8} {header : List UInt8 × List UInt8}
    {cursor next : ℕ} (hturn : parseHeader data cursor = .ok (header, next))
    (hnext : next ≤ data.length) (fuel : ℕ) (done : List (List UInt8 × List UInt8)) :
    parseHeaders data (fuel + 1) cursor done =
      if (data.drop next).take 2 = crlf then .ok (done ++ [header], next)
      else parseHeaders data fuel next (done ++ [header]) := by
  have htwo : substr Stop.outOfRange data next (some (next + 2))
      = .ok ((data.drop next).take 2) := by
    rw [substr, if_pos hnext, Nat.add_sub_cancel_left]
  simp only [parseHeaders, hturn, bind, Except.bind, htwo]
  rfl

theorem parseHeaders_line (pre : List UInt8) {line : List UInt8} (hline : IsHeader line)
    {e : UInt8} (he : e ∈ crlf) (e' : UInt8) (text : List UInt8) :
    let data := pre ++ (line ++ e :: e' :: text)
    let next := (pre ++ (line ++ [e, e'])).length
    ∃ header, ∀ fuel done, parseHeaders data (fuel + 1) pre.length done =
      if text.take 2 = crlf then .ok (done ++ [header], next)
      else parseHeaders data fuel next (done ++ [header]) := by
  intro data next
  have hdata : data = (pre ++ (line ++ [e, e'])) ++ text := by simp [data]
  have hhead : ∀ b ∈ (e :: e' :: text).head?, b ∈ crlf := by simpa using he
  obtain ⟨header, hturn⟩ := parseHeader_of_isHeader pre hline.no_crlf hhead hline
  have hnext : pre.length + line.length + 2 = next := by
    simp only [next, List.length_append]
    rfl
  rw [if_neg (List.cons_ne_nil _ _), hnext] at hturn
  have hle : next ≤ data.length := by
    rw [hdata, List.length_append]
    exact Nat.le_add_right _ _
  have hdrop : data.drop next = text := by rw [hdata, List.drop_left]
  refine ⟨header, fun fuel done => ?_⟩
  rw [parseHeaders_succ hturn hle, hdrop]

/-- A turn at a header whose line has no end, in data that does not have an end of a line
at one. -/
theorem parseHeaders_lastLine (pre : List UInt8) {line : List UInt8} (hline : IsHeader line)
    (hstart : ((pre ++ line).drop 1).take 2 ≠ crlf) :
    ∃ header, ∀ fuel done, parseHeaders (pre ++ line) (fuel + 1) pre.length done =
      parseHeaders (pre ++ line) fuel 1 (done ++ [header]) := by
  have hhead : ∀ b ∈ ([] : List UInt8).head?, b ∈ crlf := by simp
  obtain ⟨header, hturn⟩ := parseHeader_of_isHeader pre hline.no_crlf hhead hline
  rw [List.append_nil, if_pos rfl] at hturn
  have hpos := List.length_pos_iff.mpr hline.ne_nil
  refine ⟨header, fun fuel done => ?_⟩
  rw [parseHeaders_succ hturn (by rw [List.length_append]; omega), if_neg hstart]

/-! ### Whole runs of the loop -/

theorem HeaderBlock.parseHeaders {text : List UInt8} (h : HeaderBlock text) (pre : List UInt8)
    (done : List (List UInt8 × List UInt8)) : ∃ fuel headers cursor,
      Engmoded.parseHeaders (pre ++ text) fuel pre.length done = .ok (headers, cursor) ∧
        cursor + 2 ≤ (pre ++ text).length := by
  induction h generalizing pre done with
  | @last line e e' body hline he =>
    obtain ⟨header, hturn⟩ := parseHeaders_line pre hline he e' (crlf ++ body)
    have hfirst : (crlf ++ body).take 2 = crlf := rfl
    refine ⟨1, _, _, (hturn 0 done).trans (if_pos hfirst), ?_⟩
    simp only [List.length_append, List.length_cons, List.length_nil, crlf]
    omega
  | @more line e e' text hline he htext ih =>
    obtain ⟨header, hturn⟩ := parseHeaders_line pre hline he e' text
    obtain ⟨fuel, headers, cursor, hrun, hcursor⟩ := ih (pre ++ (line ++ [e, e']))
      (done ++ [header])
    have hdata : pre ++ (line ++ [e, e']) ++ text = pre ++ (line ++ e :: e' :: text) := by simp
    rw [hdata] at hrun hcursor
    refine ⟨fuel + 1, headers, cursor, ?_, hcursor⟩
    rw [hturn, if_neg htext.not_startsWith_crlf, hrun]

/-- At a line without an end the loop goes back to the second byte. -/
theorem Unfinished.parseHeaders {text : List UInt8} (h : Unfinished text) (pre : List UInt8)
    (hstart : ((pre ++ text).drop 1).take 2 ≠ crlf)
    (done : List (List UInt8 × List UInt8)) : ∃ turns done', ∀ fuel,
      Engmoded.parseHeaders (pre ++ text) (fuel + turns) pre.length done =
        Engmoded.parseHeaders (pre ++ text) fuel 1 done' := by
  induction h generalizing pre done with
  | last hline =>
    obtain ⟨header, hturn⟩ := parseHeaders_lastLine pre hline hstart
    exact ⟨1, _, fun fuel => hturn fuel done⟩
  | @more line e e' text hline he htext ih =>
    obtain ⟨header, hturn⟩ := parseHeaders_line pre hline he e' text
    have hdata : pre ++ (line ++ [e, e']) ++ text = pre ++ (line ++ e :: e' :: text) := by simp
    obtain ⟨turns, done', hrun⟩ := ih (pre ++ (line ++ [e, e'])) (by rwa [hdata])
      (done ++ [header])
    rw [hdata] at hrun
    refine ⟨turns + 1, done', fun fuel => ?_⟩
    rw [← Nat.add_assoc, hturn, if_neg htext.not_startsWith_crlf, hrun]

/-- Data that the loop gets through, from the cursor behind `pre` on. -/
theorem of_parseHeaders {data : List UInt8} (hstart : (data.drop 1).take 2 ≠ crlf) {fuel : ℕ}
    {pre text : List UInt8} (hdata : data = pre ++ text)
    {done : List (List UInt8 × List UInt8)} {result : List (List UInt8 × List UInt8) × ℕ}
    (h : parseHeaders data fuel pre.length done = .ok result) :
    HeaderBlock text ∨ Unfinished text ∧ HeaderBlock (data.drop 1) := by
  induction fuel generalizing pre text done with
  | zero => cases h
  | succ fuel ih =>
    obtain ⟨line, rest, rfl, hline, hrest⟩ := exists_cut crlf text
    cases hturn : parseHeader data pre.length with
    | error stop =>
      simp only [parseHeaders, hturn, bind, Except.bind, reduceCtorEq] at h
    | ok turn =>
      obtain ⟨header, next⟩ := turn
      rw [hdata] at hturn
      obtain ⟨hheader, hnext⟩ := isHeader_of_parseHeader pre hline hrest hturn
      rw [← hdata] at hturn
      have hle : next ≤ data.length := by
        by_contra hgt
        simp only [parseHeaders, hturn, bind, Except.bind, substr, if_neg hgt,
          reduceCtorEq] at h
      rw [parseHeaders_succ hturn hle] at h
      cases rest with
      | nil =>
        -- the cursor is at one
        obtain rfl : next = 1 := hnext
        rw [if_neg hstart] at h
        have hone : data = data.take 1 ++ data.drop 1 := (List.take_append_drop 1 data).symm
        have hlength : (data.take 1).length = 1 := by rw [List.length_take]; omega
        rw [List.append_nil]
        have hrec := ih hone (hlength.symm ▸ h)
        exact Or.inr ⟨.last hheader, hrec.elim id And.right⟩
      | cons e rest =>
        have he : e ∈ crlf := hrest e rfl
        obtain rfl : next = pre.length + line.length + 2 := hnext
        cases rest with
        | nil =>
          -- the end of the line is the last byte
          rw [hdata] at hle
          simp only [List.length_append, List.length_singleton] at hle
          omega
        | cons e' text =>
          have hdata' : data = (pre ++ (line ++ [e, e'])) ++ text := by simp [hdata]
          have hlength : pre.length + line.length + 2 = (pre ++ (line ++ [e, e'])).length := by
            simp only [List.length_append]
            rfl
          rw [hlength] at h
          by_cases hempty : text.take 2 = crlf
          · obtain ⟨body, rfl⟩ : ∃ body, text = crlf ++ body :=
              ⟨text.drop 2, by rw [← hempty, List.take_append_drop]⟩
            exact Or.inl (.last e' body hheader he)
          · have hdrop : (data.drop (pre ++ (line ++ [e, e'])).length).take 2 ≠ crlf := by
              rwa [hdata', List.drop_left]
            rw [if_neg hdrop] at h
            rcases ih hdata' h with hblock | ⟨hopen, hblock⟩
            · exact Or.inl (.more e' hheader he hblock)
            · exact Or.inr ⟨.more e' hheader he hopen, hblock⟩

theorem parseHeaders_of_lt {data : List UInt8} {cursor : ℕ} (h : data.length < cursor)
    (fuel : ℕ) (done : List (List UInt8 × List UInt8)) :
    ∃ stop, parseHeaders data fuel cursor done = .error stop := by
  cases fuel with
  | zero => exact ⟨_, rfl⟩
  | succ fuel =>
    refine ⟨.outOfRange, ?_⟩
    simp only [parseHeaders, parseHeader, substr, if_neg (Nat.not_le.mpr h), bind, Except.bind]

/-! ### The request line -/

/-- A line with a method and a protocol that the parser knows. -/
def IsRequestLine (line : List UInt8) : Prop :=
  ∃ name url protocolName, line = name ++ [space] ++ url ++ [space] ++ protocolName ∧
    (parseMethod name).isSome ∧ space ∉ url ∧ (parseProtocol protocolName).isSome

/-- No method that is known has a space in it, the first letter of a protocol or an end of
a line at one. -/
theorem parseMethod_spec {name : List UInt8} (h : (parseMethod name).isSome) :
    space ∉ name ∧ ∃ a b l, name = a :: b :: l ∧ a ≠ 72 ∧ b ≠ 13 := by
  unfold parseMethod at h
  split_ifs at h with hget hput hpost hoptions
  · exact hget ▸ ⟨by decide, _, _, _, rfl, by decide, by decide⟩
  · exact hput ▸ ⟨by decide, _, _, _, rfl, by decide, by decide⟩
  · exact hpost ▸ ⟨by decide, _, _, _, rfl, by decide, by decide⟩
  · exact hoptions ▸ ⟨by decide, _, _, _, rfl, by decide, by decide⟩
  · cases h

theorem parseProtocol_spec {name : List UInt8} (h : (parseProtocol name).isSome) :
    (∀ b ∈ name, b ∉ crlf) ∧ name.head? = some 72 := by
  unfold parseProtocol at h
  split_ifs at h with h0 h1
  · exact h0 ▸ ⟨by decide +kernel, rfl⟩
  · exact h1 ▸ ⟨by decide +kernel, rfl⟩
  · cases h

/-- After the wrap to the start of the data a method is taken for the protocol. -/
theorem parseProtocol_at_zero {name : List UInt8} (hname : (parseMethod name).isSome)
    (rest : List UInt8) : ∃ token,
      substr Stop.outOfRange (name ++ rest) 0 (findFirstOf crlf (name ++ rest) 0) = .ok token ∧
        parseProtocol token = none := by
  obtain ⟨-, a, b, l, rfl, ha, -⟩ := parseMethod_spec hname
  obtain ⟨token, htoken, hprefix, -⟩ :=
    exists_substr_findFirstOf Stop.outOfRange crlf (a :: b :: l ++ rest)
  refine ⟨token, htoken, ?_⟩
  by_contra hsome
  have hhead := (parseProtocol_spec (Option.isSome_iff_ne_none.mpr hsome)).2
  cases token with
  | nil => cases hhead
  | cons c token =>
    have hc : c = a := (List.cons_prefix_cons.mp hprefix).1
    exact ha (hc ▸ Option.some.inj hhead)

/-- Without a request line that is known the parser returns early. -/
theorem parseRequest_of_not_isRequestLine {data : List UInt8}
    (h : ∀ line rest, data = line ++ rest → (∀ b ∈ rest.head?, b ∈ crlf) → ¬ IsRequestLine line)
    (fuel : ℕ) (m : Option Method) (p : Option Protocol) :
    ∃ r, (HttpRequest.fresh m p data).parseRequest fuel = .ok r := by
  obtain ⟨name, behind, hdata, hname, hbehind⟩ := exists_cut [space] data
  have hmethodEnd := findFirstOf_cut [space] [] hname hbehind
  have hmethodText := substr_cut [space] [] hname hbehind Stop.outOfRange
  simp only [List.nil_append, List.length_nil, Nat.zero_add, ← hdata] at hmethodEnd hmethodText
  cases hmethod : parseMethod name with
  | none =>
    simp only [HttpRequest.parseRequest, HttpRequest.fresh, bind, Except.bind, hmethodText,
      hmethod]
    exact ⟨_, rfl⟩
  | some method =>
    have hknown : (parseMethod name).isSome := by rw [hmethod]; rfl
    obtain ⟨token, htoken, hunsupported⟩ := parseProtocol_at_zero hknown behind
    rw [← hdata] at htoken
    cases behind with
    | nil =>
      -- no space at all: the URL and the protocol are read from the start
      rw [if_pos rfl] at hmethodEnd
      rw [hmethodEnd] at hmethodText
      obtain rfl : name = data := by rw [hdata, List.append_nil]
      simp only [HttpRequest.parseRequest, HttpRequest.fresh, bind, Except.bind, hmethodText,
        hmethod, hmethodEnd, advance, htoken, hunsupported]
      exact ⟨_, rfl⟩
    | cons c behind =>
      obtain rfl : c = space := List.mem_singleton.mp (hbehind c rfl)
      rw [if_neg (List.cons_ne_nil _ _)] at hmethodEnd
      rw [hmethodEnd] at hmethodText
      obtain ⟨url, rest, rfl, hurl, hrest⟩ := exists_cut [space] behind
      have hurlEnd := findFirstOf_cut [space] (name ++ [space]) hurl hrest
      have hurlText := substr_cut [space] (name ++ [space]) hurl hrest Stop.outOfRange
      have hdata₁ : name ++ [space] ++ (url ++ rest) = data := by simp [hdata]
      rw [hdata₁, List.length_append, List.length_singleton] at hurlEnd hurlText
      cases rest with
      | nil =>
        -- no second space: the protocol is read from the start
        rw [if_pos rfl] at hurlEnd
        rw [hurlEnd] at hurlText
        simp only [HttpRequest.parseRequest, HttpRequest.fresh, bind, Except.bind, hmethodText,
          hmethod, hmethodEnd, advance, hurlEnd, hurlText, htoken, hunsupported]
        exact ⟨_, rfl⟩
      | cons c rest =>
        obtain rfl : c = space := List.mem_singleton.mp (hrest c rfl)
        rw [if_neg (List.cons_ne_nil _ _)] at hurlEnd
        rw [hurlEnd] at hurlText
        obtain ⟨protocolName, rest, rfl, hline, hend⟩ := exists_cut crlf rest
        have hprotocolText := substr_cut crlf (name ++ [space] ++ url ++ [space]) hline hend
          Stop.outOfRange
        have hdata₂ : name ++ [space] ++ url ++ [space] ++ (protocolName ++ rest) = data := by
          simp [hdata]
        have hnone : parseProtocol protocolName = none := by
          by_contra hsome
          refine h (name ++ [space] ++ url ++ [space] ++ protocolName) rest ?_ hend
            ⟨name, url, protocolName, rfl, hknown, ?_, Option.isSome_iff_ne_none.mpr hsome⟩
          · simp [hdata]
          · exact fun hmem => hurl space hmem (List.mem_singleton_self space)
        simp only [hdata₂, List.length_append, List.length_singleton] at hprotocolText
        simp only [HttpRequest.parseRequest, HttpRequest.fresh, bind, Except.bind, hmethodText,
          hmethod, hmethodEnd, advance, hurlEnd, hurlText, hprotocolText, hnone]
        exact ⟨_, rfl⟩

theorem IsRequestLine.not_startsWith_crlf {line : List UInt8} (h : IsRequestLine line)
    (rest : List UInt8) : ((line ++ rest).drop 1).take 2 ≠ crlf := by
  obtain ⟨name, url, protocolName, rfl, hname, -⟩ := h
  obtain ⟨-, a, b, l, rfl, -, hb⟩ := parseMethod_spec hname
  intro htake
  exact hb (List.cons.inj htake).1

theorem IsRequestLine.length_take_one {line : List UInt8} (h : IsRequestLine line)
    (rest : List UInt8) : ((line ++ rest).take 1).length = 1 := by
  obtain ⟨name, url, protocolName, rfl, -⟩ := h
  simp only [List.length_take, List.length_append, List.length_singleton]
  omega

/-! ### The whole request -/

/-- The parser comes back, with no exception from any of its searches and cuts. -/
def Returns (data : List UInt8) : Prop :=
  ∀ m p, ∃ fuel r, (HttpRequest.fresh m p data).parseRequest fuel = .ok r

/-- What may stand behind a request line. Either headers and an empty line follow it, or
the data ends within the line or a header, and then the data from its second byte on is
read as headers and an empty line. -/
def Complete (data rest : List UInt8) : Prop :=
  rest = [] ∧ HeaderBlock (data.drop 1) ∨
    ∃ e e' text, rest = e :: e' :: text ∧
      (HeaderBlock text ∨ Unfinished text ∧ HeaderBlock (data.drop 1))

section

variable {line rest : List UInt8} (hline : IsRequestLine line) (hrest : ∀ b ∈ rest.head?, b ∈ crlf)

include hline

theorem complete_of_parseHeaders {fuel : ℕ} {done : List (List UInt8 × List UInt8)}
    {result : List (List UInt8 × List UInt8) × ℕ}
    (h : parseHeaders (line ++ rest) fuel (if rest = [] then 1 else line.length + 2) done
      = .ok result) : Complete (line ++ rest) rest := by
  have hstart := hline.not_startsWith_crlf rest
  cases rest with
  | nil =>
    rw [if_pos rfl, List.append_nil] at h
    rw [List.append_nil] at hstart ⊢
    have hsplit := (List.take_append_drop 1 line).symm
    have hlength := hline.length_take_one []
    rw [List.append_nil] at hlength
    have hblock := of_parseHeaders hstart hsplit (hlength.symm ▸ h)
    exact Or.inl ⟨rfl, hblock.elim id And.right⟩
  | cons e rest =>
    rw [if_neg (List.cons_ne_nil e rest)] at h
    cases rest with
    | nil =>
      have hlt : (line ++ [e]).length < line.length + 2 := by simp
      obtain ⟨stop, hstop⟩ := parseHeaders_of_lt hlt fuel done
      rw [hstop] at h
      cases h
    | cons e' text =>
      have hsplit : line ++ e :: e' :: text = (line ++ [e, e']) ++ text := by simp
      have hlength : line.length + 2 = (line ++ [e, e']).length := by simp
      exact Or.inr ⟨e, e', text, rfl, of_parseHeaders hstart hsplit (hlength ▸ h)⟩

theorem exists_parseHeaders (h : Complete (line ++ rest) rest) : ∃ fuel headers cursor,
    parseHeaders (line ++ rest) fuel (if rest = [] then 1 else line.length + 2) []
        = .ok (headers, cursor) ∧ cursor + 2 ≤ (line ++ rest).length := by
  have hstart := hline.not_startsWith_crlf rest
  -- the loop from the second byte on
  have hone (hblock : HeaderBlock ((line ++ rest).drop 1))
      (done : List (List UInt8 × List UInt8)) : ∃ fuel headers cursor,
        parseHeaders (line ++ rest) fuel 1 done = .ok (headers, cursor) ∧
          cursor + 2 ≤ (line ++ rest).length := by
    have hrun := hblock.parseHeaders ((line ++ rest).take 1) done
    rwa [List.take_append_drop, hline.length_take_one rest] at hrun
  rcases h with ⟨rfl, hblock⟩ | ⟨e, e', text, rfl, hcases⟩
  · exact hone hblock []
  · have hsplit : line ++ e :: e' :: text = (line ++ [e, e']) ++ text := by simp
    have hlength : line.length + 2 = (line ++ [e, e']).length := by simp
    rw [if_neg (List.cons_ne_nil _ _), hlength]
    rcases hcases with hblock | ⟨hopen, hblock⟩
    · rw [hsplit]
      exact hblock.parseHeaders (line ++ [e, e']) []
    · obtain ⟨turns, done, hturns⟩ := hopen.parseHeaders (line ++ [e, e']) (hsplit ▸ hstart) []
      obtain ⟨fuel, headers, cursor, hrun, hcursor⟩ := hone hblock done
      rw [← hsplit] at hturns
      exact ⟨fuel + turns, headers, cursor, (hturns fuel).trans hrun, hcursor⟩

include hrest

theorem returns_iff_complete : Returns (line ++ rest) ↔ Complete (line ++ rest) rest := by
  obtain ⟨name, url, protocolName, hsplit, hname, hurl, hprotocol⟩ := id hline
  obtain ⟨method, hmethod⟩ := Option.isSome_iff_exists.mp hname
  obtain ⟨protocol, hprotocol'⟩ := Option.isSome_iff_exists.mp hprotocol
  have hparse := parseRequest_line (parseMethod_spec hname).1 hmethod hurl
    (parseProtocol_spec hprotocol).1 hprotocol' hrest
  rw [← hsplit] at hparse
  constructor
  · intro h
    obtain ⟨fuel, r, hr⟩ := h none none
    rw [hparse] at hr
    cases hloop : parseHeaders (line ++ rest) fuel
        (if rest = [] then 1 else line.length + 2) [] with
    | ok result => exact complete_of_parseHeaders hline hloop
    | error stop =>
      rw [hloop] at hr
      cases hr
  · intro h m p
    obtain ⟨fuel, headers, cursor, hloop, hcursor⟩ := exists_parseHeaders hline h
    have hbody : substr Stop.outOfRange (line ++ rest) (cursor + 2) none
        = .ok ((line ++ rest).drop (cursor + 2)) := if_pos hcursor
    have hrun := hparse fuel m p
    simp only [hloop, bind, Except.bind, hbody] at hrun
    exact ⟨fuel, _, hrun⟩

end

/-- The parser returns exactly when what follows a request line that it knows is
complete. -/
theorem returns_iff (data : List UInt8) : Returns data ↔
    ∀ line rest, data = line ++ rest → (∀ b ∈ rest.head?, b ∈ crlf) → IsRequestLine line →
      Complete data rest := by
  by_cases hknown : ∃ line rest, data = line ++ rest ∧ (∀ b ∈ rest.head?, b ∈ crlf) ∧
      IsRequestLine line
  · constructor
    · rintro h line rest rfl hrest hline
      exact (returns_iff_complete hline hrest).mp h
    · intro h
      obtain ⟨line, rest, rfl, hrest, hline⟩ := hknown
      exact (returns_iff_complete hline hrest).mpr (h line rest rfl hrest hline)
  · have hnone : ∀ line rest, data = line ++ rest → (∀ b ∈ rest.head?, b ∈ crlf) →
        ¬ IsRequestLine line :=
      fun line rest hdata hrest hline => hknown ⟨line, rest, hdata, hrest, hline⟩
    refine iff_of_true (fun m p => ?_) fun line rest hdata hrest hline =>
      absurd hline (hnone line rest hdata hrest)
    obtain ⟨r, hr⟩ := parseRequest_of_not_isRequestLine hnone 0 m p
    exact ⟨0, r, hr⟩

def truncatedRequest : List UInt8 := Text.ofAscii "GET / HTTP/1.1\r\nA: b".toList

theorem parseHeaders_truncatedRequest (fuel : ℕ) (done : List (List UInt8 × List UInt8)) :
    parseHeaders truncatedRequest fuel 16 done = .error .running ∧
      parseHeaders truncatedRequest fuel 1 done = .error .running := by
  induction fuel generalizing done with
  | zero => exact ⟨rfl, rfl⟩
  | succ fuel ih =>
    have hheader : ∃ header, parseHeader truncatedRequest 16 = .ok (header, 1) := ⟨_, rfl⟩
    have hline : ∃ header, parseHeader truncatedRequest 1 = .ok (header, 16) := ⟨_, rfl⟩
    obtain ⟨header, hheader⟩ := hheader
    obtain ⟨header', hline⟩ := hline
    constructor
    · rw [parseHeaders_succ hheader (by decide +kernel), if_neg (by decide +kernel)]
      exact (ih _).2
    · rw [parseHeaders_succ hline (by decide +kernel), if_neg (by decide +kernel)]
      exact (ih _).1

/-- `GET / HTTP/1.1` with a header that is cut off keeps the loop running, and without a
header it throws. -/
theorem not_returns_truncatedRequest :
    ¬ Returns truncatedRequest ∧
      (∀ fuel m p,
        (HttpRequest.fresh m p truncatedRequest).parseRequest fuel = .error .running) ∧
      ¬ Returns (Text.ofAscii "GET / HTTP/1.1\r\n\r\n".toList) := by
  have hruns : ∀ fuel m p,
      (HttpRequest.fresh m p truncatedRequest).parseRequest fuel = .error .running := by
    intro fuel m p
    change (parseHeaders truncatedRequest fuel 16 [] >>= _) = _
    rw [(parseHeaders_truncatedRequest fuel []).1]
    rfl
  refine ⟨fun h => ?_, hruns, fun h => ?_⟩
  · obtain ⟨fuel, r, hr⟩ := h none none
    rw [hruns] at hr
    cases hr
  · obtain ⟨fuel, r, hr⟩ := h none none
    cases fuel with
    | zero => cases hr
    | succ fuel => cases hr

end Tarako.Engmoded
