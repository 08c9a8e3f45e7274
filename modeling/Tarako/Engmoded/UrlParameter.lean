import Mathlib.Data.List.Basic
import Tarako.Lib.Cursor
import Tarako.Lib.Escape
import Tarako.Lib.Text

/-!
# The parameters of a URL

`HTTPRequest::URL` of `engmoded`: `URLEncode` and `URLDecode` between bytes and a text with
percent escapes, and `getParameter`, which looks up a parameter behind the `?` of a URL.
Positions are kept in an `int`. The text of a URL is held three times during the call, so
that none of its positions is too large for one.
-/

namespace Tarako.Engmoded

open Cursor Escape Hex Text

/-! ### The code -/

/-- How a call on a URL does not return. -/
inductive UrlFault where
  /-- `substr` has thrown `std::out_of_range`. -/
  | outOfRange
  /-- A character behind the NUL of a string has been read. -/
  | pastNul
  /-- The loop over the parameters is still running. -/
  | running
  deriving DecidableEq, Repr

def question : UInt8 := 63

def hash : UInt8 := 35

def ampersand : UInt8 := 38

def equals : UInt8 := 61

def plus : UInt8 := 43

/-- `isalnum` -/
def isAlnum (b : UInt8) : Bool :=
  isDigit b || (65 ≤ b && b ≤ 90) || (97 ≤ b && b ≤ 122)

def toHex (x : UInt8) : UInt8 := if 9 < x then x - 10 + 65 else x + 48

def fromHex (x : UInt8) : UInt8 := if isDigit x then x - 48 else x - 65 + 10

/-- `URLEncode` of the C string `sIn`. -/
def urlEncode (sIn : List UInt8) : List UInt8 :=
  sIn.flatMap fun b => if isAlnum b then [b] else [percent, toHex (b >>> 4), toHex (b % 16)]

/-- `sIn[ix]` for the C string `sIn`, which ends with a NUL. -/
def charAt (sIn : List UInt8) (ix : ℕ) : Except UrlFault UInt8 :=
  match (sIn ++ [0])[ix]? with
  | some b => .ok b
  | none => .error .pastNul

/-- The loop of `URLDecode` from `ix` on. -/
def urlDecodeFrom (sIn : List UInt8) (ix : ℕ) : Except UrlFault (List UInt8) :=
  if h : ix < sIn.length then
    if sIn[ix] = percent then do
      let high ← charAt sIn (ix + 1)
      let low ← charAt sIn (ix + 2)
      let sOut ← urlDecodeFrom sIn (ix + 3)
      return (fromHex high <<< 4 ||| fromHex low) :: sOut
    else do
      let sOut ← urlDecodeFrom sIn (ix + 1)
      return (if sIn[ix] = plus then 32 else sIn[ix]) :: sOut
  else .ok []
termination_by sIn.length - ix

/-- `URLDecode` of the C string `sIn`. -/
def urlDecode (sIn : List UInt8) : Except UrlFault (List UInt8) := urlDecodeFrom sIn 0

/-- `find`, as an `int`: -1 is what `npos` becomes. -/
def find (c : UInt8) (s : List UInt8) : ℤ :=
  match findFirstOf [c] s 0 with
  | some i => i
  | none => -1

def queryValue (key query : List UInt8) : Except UrlFault (Option (List UInt8)) := do
  let pos2 := find equals query
  if 0 < pos2 then
    let tempkey ← substr .outOfRange query 0 (some pos2.toNat)
    let tempvalue ← substr .outOfRange query (pos2.toNat + 1) none
    return if tempkey = key then some tempvalue else none
  else return none

/-- The loop of `getParameter`, for at most `turns` turns. -/
def findValue (key : List UInt8) : ℕ → List UInt8 → Except UrlFault (List UInt8)
  | 0, _ => .error .running
  | turns + 1, tempurl => do
      let pos := find ampersand tempurl
      let (query, tempurl) ←
        if 0 < pos then do
          let query ← substr .outOfRange tempurl 0 (some pos.toNat)
          let tempurl ← substr .outOfRange tempurl (pos.toNat + 1) none
          pure (query, tempurl)
        else pure (tempurl, [])
      match ← queryValue key query with
      | some value => return value
      | none => if 0 < pos then findValue key turns tempurl else return []

/-- `getParameter`, with at most `turns` turns of its loop. -/
def getParameter (turns : ℕ) (url key : List UInt8) : Except UrlFault (List UInt8) := do
  let pos := find question url
  let tempurl ← if pos < 0 then pure url else substr .outOfRange url (pos.toNat + 1) none
  let pos := find hash tempurl
  let tempurl ← if pos < 0 then pure tempurl else substr .outOfRange tempurl 0 (some pos.toNat)
  let value ← findValue key turns tempurl
  urlDecode (cstring value)

/-! ### The decoder -/

def decodePiece : Piece → UInt8
  | .literal b => if b = plus then 32 else b
  | .escape high low => fromHex high <<< 4 ||| fromHex low

theorem urlDecodeFrom_piece (pre : List UInt8) {piece : Piece} (hplain : piece.Plain)
    (rest : List UInt8) :
    urlDecodeFrom (pre ++ (piece.text ++ rest)) pre.length =
      (decodePiece piece :: ·) <$>
        urlDecodeFrom (pre ++ (piece.text ++ rest)) (pre ++ piece.text).length := by
  cases piece with
  | literal b =>
    have hb : b ≠ percent := hplain
    rw [urlDecodeFrom]
    simp [Piece.text, hb, decodePiece]
  | escape high low =>
    rw [urlDecodeFrom]
    simp [Piece.text, decodePiece, charAt]
    rfl

theorem urlDecodeFrom_encoded (pre : List UInt8) {pieces : List Piece}
    (hplain : ∀ p ∈ pieces, p.Plain) (rest : List UInt8) :
    urlDecodeFrom (pre ++ (encoded pieces ++ rest)) pre.length =
      (pieces.map decodePiece ++ ·) <$>
        urlDecodeFrom (pre ++ (encoded pieces ++ rest)) (pre ++ encoded pieces).length := by
  induction pieces generalizing pre with
  | nil => simp [encoded]
  | cons piece pieces ih =>
    obtain ⟨hpiece, hpieces⟩ := List.forall_mem_cons.mp hplain
    have hturn := urlDecodeFrom_piece pre hpiece (encoded pieces ++ rest)
    have hloop := ih (pre ++ piece.text) hpieces
    have htext : encoded (piece :: pieces) = piece.text ++ encoded pieces := rfl
    simp only [htext, List.append_assoc] at hturn hloop ⊢
    rw [hturn, hloop]
    simp [Functor.map_map]

theorem urlDecodeFrom_of_le {sIn : List UInt8} {ix : ℕ} (h : sIn.length ≤ ix) :
    urlDecodeFrom sIn ix = .ok [] := by
  rw [urlDecodeFrom, dif_neg (Nat.not_lt.mpr h)]

section

variable {pieces : List Piece} (hplain : ∀ p ∈ pieces, p.Plain)

include hplain

/-- What the decoder makes of a text is decided behind its last whole piece. -/
theorem urlDecode_append {cut : List UInt8} {r : Except UrlFault (List UInt8)}
    (h : urlDecodeFrom (encoded pieces ++ cut) (encoded pieces).length = r) :
    urlDecode (encoded pieces ++ cut) = (pieces.map decodePiece ++ ·) <$> r := by
  have hloop := urlDecodeFrom_encoded [] hplain cut
  simp only [List.nil_append, List.length_nil, h] at hloop
  exact hloop

theorem urlDecode_encoded : urlDecode (encoded pieces) = .ok (pieces.map decodePiece) := by
  have hend : urlDecodeFrom (encoded pieces ++ []) (encoded pieces).length = .ok [] :=
    urlDecodeFrom_of_le (by rw [List.append_nil])
  have htext := urlDecode_append hplain hend
  rw [List.append_nil] at htext
  rw [htext]
  exact congrArg Except.ok (List.append_nil _)

/-- Behind a `%` at the end the NUL is the first digit, and the second is not in the
string. -/
theorem urlDecode_percent : urlDecode (encoded pieces ++ [percent]) = .error .pastNul := by
  refine urlDecode_append hplain (r := .error .pastNul) ?_
  rw [urlDecodeFrom]
  simp [charAt]
  rfl

theorem urlDecode_percent_digit (high : UInt8) :
    urlDecode (encoded pieces ++ [percent, high]) =
      .ok (pieces.map decodePiece ++ [fromHex high <<< 4 ||| fromHex 0]) := by
  refine urlDecode_append hplain (r := .ok [fromHex high <<< 4 ||| fromHex 0]) ?_
  rw [urlDecodeFrom]
  simp [charAt, urlDecodeFrom_of_le]
  rfl

end

/-- The decoder stays within a C string exactly when no escape has lost both of its
digits to the end of the string. -/
theorem urlDecode_isOk_iff (s : List UInt8) :
    (∃ sOut, urlDecode s = .ok sOut) ↔
      ¬ ∃ pieces, (∀ p ∈ pieces, Piece.Plain p) ∧ s = encoded pieces ++ [percent] := by
  constructor
  · rintro ⟨sOut, hok⟩ ⟨pieces, hplain, rfl⟩
    rw [urlDecode_percent hplain] at hok
    cases hok
  · intro hnot
    obtain ⟨pieces, cut, rfl, hplain, hcases⟩ := exists_pieces s
    rcases hcases with rfl | rfl | ⟨high, rfl⟩
    · rw [List.append_nil]
      exact ⟨_, urlDecode_encoded hplain⟩
    · exact absurd ⟨pieces, hplain, rfl⟩ hnot
    · exact ⟨_, urlDecode_percent_digit hplain high⟩

/-! ### The digits -/

/-- An escape whose last digit is a lower-case letter is legible if bit 5 of its byte is
set. -/
def Legible : Piece → Prop
  | .literal _ => True
  | .escape high low => 97 ≤ low → Piece.byte (.escape high low) &&& 32 ≠ 0

instance (piece : Piece) : Decidable (Legible piece) := by
  cases piece with
  | literal b => exact inferInstanceAs (Decidable True)
  | escape high low => exact inferInstanceAs (Decidable (97 ≤ low → _))

def hexDigits : List UInt8 := ofAscii "0123456789ABCDEFabcdef".toList

theorem mem_hexDigits {b : UInt8} (h : isHexDigit b) : b ∈ hexDigits := by
  have hall : ∀ b, isHexDigit b → b ∈ hexDigits := forall_byte (by decide +kernel)
  exact hall b h

/-- `fromHex` counts lower-case letters from 42. In the first digit the excess is shifted
out of the byte. -/
theorem decodePiece_escape_iff {high low : UInt8} (hhigh : isHexDigit high)
    (hlow : isHexDigit low) :
    decodePiece (.escape high low) = Piece.byte (.escape high low) ↔
      Legible (.escape high low) := by
  have hall : ∀ high ∈ hexDigits, ∀ low ∈ hexDigits,
      decodePiece (.escape high low) = Piece.byte (.escape high low) ↔
        Legible (.escape high low) := by
    decide +kernel
  exact hall high (mem_hexDigits hhigh) low (mem_hexDigits hlow)

def reserved : List UInt8 := [0, ampersand, hash, plus]

theorem decodePiece_iff {piece : Piece} (h : piece.WellFormed reserved) :
    decodePiece piece = piece.byte ↔ Legible piece := by
  cases piece with
  | literal b =>
    have hb : b ≠ plus := by
      rintro rfl
      exact h.2 (by decide)
    exact iff_of_true (if_neg hb) trivial
  | escape high low => exact decodePiece_escape_iff h.1 h.2

/-! ### Searching the parameters -/

theorem find_of_not_mem {c : UInt8} {s : List UInt8} (h : c ∉ s) : find c s = -1 := by
  rw [find, findFirstOf_eq_none (forall_not_mem_singleton h)]

theorem find_append {c : UInt8} {s : List UInt8} (h : c ∉ s) (rest : List UInt8) :
    find c (s ++ c :: rest) = s.length := by
  have hfind := findFirstOf_append [c] [] (forall_not_mem_singleton h)
    (List.mem_singleton_self c) rest
  rw [List.nil_append, List.length_nil, Nat.zero_add] at hfind
  rw [find, hfind]

theorem substr_before (l rest : List UInt8) :
    substr UrlFault.outOfRange (l ++ rest) 0 (some l.length) = .ok l := by
  have h := substr_append UrlFault.outOfRange [] l rest
  rwa [List.nil_append, List.length_nil, Nat.zero_add] at h

theorem substr_behind (l : List UInt8) (c : UInt8) (rest : List UInt8) :
    substr UrlFault.outOfRange (l ++ c :: rest) (l.length + 1) none = .ok rest := by
  have h := substr_append_none UrlFault.outOfRange (l ++ [c]) rest
  rwa [List.append_assoc, List.length_append] at h

theorem queryValue_append {name : List UInt8} (hne : name ≠ []) (hname : equals ∉ name)
    (key value : List UInt8) :
    queryValue key (name ++ equals :: value) = .ok (if name = key then some value else none) := by
  have hpos : 0 < name.length := List.length_pos_iff.mpr hne
  rw [queryValue, find_append hname]
  simp only [Int.natCast_pos, hpos, if_true, Int.toNat_natCast, substr_before, substr_behind]
  rfl

/-- A parameter as it stands in a query. -/
structure Parameter where
  key : List UInt8
  value : List Piece
  key_ne_nil : key ≠ []
  key_alnum : ∀ b ∈ key, isAlnum b
  value_wellFormed : ∀ piece ∈ value, piece.WellFormed reserved
  value_nulFree : 0 ∉ decoded value

namespace Parameter

variable (p : Parameter)

def text : List UInt8 := p.key ++ equals :: encoded p.value

theorem not_mem_key {c : UInt8} (hc : isAlnum c = false) : c ∉ p.key :=
  fun h => Bool.false_ne_true (hc.symm.trans (p.key_alnum c h))

theorem text_ne_nil : p.text ≠ [] := by
  simp [text]

theorem not_mem_text {c : UInt8} (hc : c ∈ [ampersand, hash]) : c ∉ p.text := by
  have hcases : isAlnum c = false ∧ c ≠ equals ∧ c ∈ reserved ∧ c ≠ percent ∧
      isHexDigit c = false := by
    rw [List.mem_cons, List.mem_singleton] at hc
    rcases hc with rfl | rfl <;> decide
  obtain ⟨halnum, hequals, hreserved, hpercent, hdigit⟩ := hcases
  rw [text, List.mem_append, List.mem_cons]
  rintro (h | h | h)
  · exact p.not_mem_key halnum h
  · exact hequals h
  · exact not_mem_encoded p.value_wellFormed hreserved hpercent hdigit h

theorem cstring_value : cstring (encoded p.value) = encoded p.value :=
  cstring_of_not_mem (not_mem_encoded p.value_wellFormed (by decide) (by decide) (by decide))

end Parameter

/-- The parameters behind the `?`. -/
def queryText (ps : List Parameter) : List UInt8 :=
  [ampersand].intercalate (ps.map Parameter.text)

theorem queryText_cons (p q : Parameter) (ps : List Parameter) :
    queryText (p :: q :: ps) = p.text ++ ampersand :: queryText (q :: ps) := by
  simp [queryText]

def firstValue (ps : List Parameter) (key : List UInt8) : List Piece :=
  ((ps.find? (·.key = key)).map Parameter.value).getD []

/-- One turn of the loop for each parameter up to the first that has the key. -/
theorem findValue_queryText {ps : List Parameter} (hne : ps ≠ []) (key : List UInt8)
    {turns : ℕ} (hturns : ps.length ≤ turns) :
    findValue key turns (queryText ps) = .ok (encoded (firstValue ps key)) := by
  induction ps generalizing turns with
  | nil => exact absurd rfl hne
  | cons p ps ih =>
    obtain ⟨turns, rfl⟩ : ∃ k, turns = k + 1 := ⟨turns - 1, by simp at hturns; omega⟩
    have hamp := p.not_mem_text (c := ampersand) (by decide)
    have hquery := queryValue_append p.key_ne_nil (p.not_mem_key (c := equals) (by decide)) key
      (encoded p.value)
    change queryValue key p.text = _ at hquery
    cases ps with
    | nil =>
      have htext : queryText [p] = p.text := by simp [queryText]
      rw [htext, findValue, find_of_not_mem hamp]
      change (queryValue key p.text >>= _) = _
      rw [hquery]
      by_cases hkey : p.key = key <;> simp [hkey, firstValue, bind, Except.bind, encoded] <;> rfl
    | cons q ps =>
      have hpos : 0 < p.text.length := List.length_pos_iff.mpr p.text_ne_nil
      have hless : (q :: ps).length ≤ turns := by simpa using hturns
      have hrest := ih (List.cons_ne_nil q ps) hless
      rw [queryText_cons, findValue, find_append hamp]
      simp only [Int.natCast_pos, hpos, if_true, Int.toNat_natCast, substr_before,
        substr_behind, bind, Except.bind, pure, Except.pure, hquery]
      by_cases hkey : p.key = key
      · simp [hkey, firstValue]
      · rw [if_neg hkey]
        simp only
        rw [hrest]
        simp [firstValue, hkey]

/-! ### The whole URL -/

def urlText (path : List UInt8) (ps : List Parameter) (fragment : Option (List UInt8)) :
    List UInt8 :=
  path ++ question :: (queryText ps ++ fragment.elim [] (hash :: ·))

theorem hash_not_mem_queryText (ps : List Parameter) : hash ∉ queryText ps := by
  induction ps with
  | nil => simp [queryText]
  | cons p ps ih =>
    have hp := p.not_mem_text (c := hash) (by decide)
    cases ps with
    | nil => simpa [queryText] using hp
    | cons q ps =>
      rw [queryText_cons, List.mem_append, List.mem_cons]
      rintro (h | h | h)
      · exact hp h
      · exact absurd h (by decide)
      · exact ih h

theorem length_le_length_queryText (ps : List Parameter) :
    ps.length ≤ (queryText ps).length := by
  induction ps with
  | nil => exact Nat.zero_le _
  | cons p ps ih =>
    have hpos : 0 < p.text.length := List.length_pos_iff.mpr p.text_ne_nil
    cases ps with
    | nil => simpa [queryText] using Nat.succ_le_of_lt hpos
    | cons q ps =>
      simp only [queryText_cons, List.length_append, List.length_cons] at ih ⊢
      omega

theorem cstring_encoded_firstValue (ps : List Parameter) (key : List UInt8) :
    cstring (encoded (firstValue ps key)) = encoded (firstValue ps key) := by
  rw [firstValue]
  cases ps.find? (·.key = key) with
  | none => rfl
  | some p => exact p.cstring_value

theorem wellFormed_of_mem_firstValue (ps : List Parameter) (key : List UInt8) {piece : Piece}
    (h : piece ∈ firstValue ps key) : piece.WellFormed reserved := by
  rw [firstValue] at h
  cases hfind : ps.find? (·.key = key) with
  | none => simp [hfind] at h
  | some p =>
    rw [hfind] at h
    exact p.value_wellFormed piece h

section

variable {path : List UInt8} (hpath : question ∉ path) {ps : List Parameter} (hne : ps ≠ [])
  (fragment : Option (List UInt8)) (key : List UInt8)

include hpath hne

/-- What `getParameter` returns: the decoder's reading of the first value with the key. -/
theorem getParameter_urlText {turns : ℕ} (hturns : ps.length ≤ turns) :
    getParameter turns (urlText path ps fragment) key =
      .ok ((firstValue ps key).map decodePiece) := by
  have hhash := hash_not_mem_queryText ps
  have hvalue := findValue_queryText hne key hturns
  have hdecode := urlDecode_encoded fun piece h =>
    (wellFormed_of_mem_firstValue ps key h).plain
  have hquestion : ¬ ((path.length : ℤ) < 0) := by omega
  rw [getParameter, urlText, find_append hpath]
  simp only [hquestion, if_false, Int.toNat_natCast, substr_behind, bind, Except.bind, pure,
    Except.pure]
  cases fragment with
  | none =>
    simp only [Option.elim_none, List.append_nil, find_of_not_mem hhash]
    simp [hvalue, cstring_encoded_firstValue, hdecode]
  | some fragment =>
    have hpos : ¬ (((queryText ps).length : ℤ) < 0) := by omega
    simp only [Option.elim_some, find_append hhash, hpos, if_false, Int.toNat_natCast,
      substr_before]
    simp [hvalue, cstring_encoded_firstValue, hdecode]

/-- The call comes back with the value of the first parameter that has the key, and with
no bytes where no parameter has it. -/
def Found (path : List UInt8) (ps : List Parameter) (fragment : Option (List UInt8))
    (key : List UInt8) : Prop :=
  ∀ turns, (urlText path ps fragment).length ≤ turns →
    getParameter turns (urlText path ps fragment) key =
      .ok (((ps.find? (·.key = key)).map (decoded ·.value)).getD [])

theorem found_iff_legible :
    Found path ps fragment key ↔
      ∀ p ∈ ps.find? (·.key = key), ∀ piece ∈ p.value, Legible piece := by
  have hlength : ps.length ≤ (urlText path ps fragment).length := by
    have h := length_le_length_queryText ps
    simp only [urlText, List.length_append, List.length_cons]
    omega
  have hresult : Found path ps fragment key ↔
      (firstValue ps key).map decodePiece
        = ((ps.find? (·.key = key)).map (decoded ·.value)).getD [] := by
    constructor
    · intro h
      have hcall := h _ (Nat.le_refl _)
      rw [getParameter_urlText hpath hne fragment key hlength] at hcall
      exact Except.ok.inj hcall
    · intro h turns hturns
      rw [getParameter_urlText hpath hne fragment key (hlength.trans hturns), h]
  rw [hresult, firstValue]
  cases ps.find? (·.key = key) with
  | none => simp
  | some p =>
    simp only [Option.map_some, Option.getD_some, decoded, List.map_inj_left, Option.mem_def,
      Option.some.injEq, forall_eq']
    exact forall₂_congr fun piece h => decodePiece_iff (p.value_wellFormed piece h)

end

/-- A parameter is read as it was meant exactly when each escape of its value whose last
digit is a lower-case letter stands for a byte with bit 5 set, and the decoder stays
within its string exactly when no escape has lost both digits to the end of the string. -/
theorem found_iff {path : List UInt8} (hpath : question ∉ path ∧ hash ∉ path)
    {ps : List Parameter} (hne : ps ≠ []) (fragment : Option (List UInt8))
    (key s : List UInt8) :
    (Found path ps fragment key ↔
        ∀ p ∈ ps.find? (·.key = key), ∀ piece ∈ p.value, Legible piece) ∧
      ((∃ sOut, urlDecode s = .ok sOut) ↔
        ¬ ∃ pieces, (∀ p ∈ pieces, Piece.Plain p) ∧ s = encoded pieces ++ [percent]) :=
  ⟨found_iff_legible hpath.1 hne fragment key, urlDecode_isOk_iff s⟩

/-- `a=%4a`, which stands for `J`. -/
def lowerCaseParameter : Parameter where
  key := [97]
  value := [.escape 52 97]
  key_ne_nil := by decide
  key_alnum := forall_mem_of_all (by decide)
  value_wellFormed := by
    intro piece h
    rw [List.mem_singleton.mp h]
    exact ⟨by decide, by decide⟩
  value_nulFree := by decide

theorem found_iff_lowerCase :
    (Found [47] [lowerCaseParameter] none [97] ↔
        ∀ p ∈ [lowerCaseParameter].find? (·.key = [97]), ∀ piece ∈ p.value, Legible piece) ∧
      ((∃ sOut, urlDecode [37] = .ok sOut) ↔
        ¬ ∃ pieces, (∀ p ∈ pieces, Piece.Plain p) ∧ [37] = encoded pieces ++ [percent]) :=
  found_iff (by decide) (List.cons_ne_nil _ _) none [97] [37]

/-- `/?a=%4a` gives `j`, and the string `%` is left. -/
theorem not_found_lowerCase :
    ¬ Found [47] [lowerCaseParameter] none [97] ∧ urlDecode [37] = .error .pastNul := by
  constructor
  · intro h
    have hcall := h 7 (by decide)
    rw [getParameter_urlText (by decide) (List.cons_ne_nil _ _) none [97] (by decide)] at hcall
    exact absurd (Except.ok.inj hcall) (by decide)
  · have hnot := mt (urlDecode_isOk_iff [37]).mp
      (not_not_intro ⟨[], List.forall_mem_nil _, rfl⟩)
    cases hdecode : urlDecode [37] with
    | ok sOut => exact absurd ⟨sOut, hdecode⟩ hnot
    | error fault =>
      rw [urlDecode, urlDecodeFrom] at hdecode
      rw [← hdecode]
      rfl

/-! ### Texts of `URLEncode` -/

/-- How `URLEncode` writes a byte. -/
def encodePiece (b : UInt8) : Piece :=
  if isAlnum b then .literal b else .escape (toHex (b >>> 4)) (toHex (b % 16))

theorem urlEncode_eq (sIn : List UInt8) : urlEncode sIn = encoded (sIn.map encodePiece) := by
  rw [urlEncode, encoded, List.flatMap_map]
  congr 1
  funext b
  rw [encodePiece]
  split_ifs <;> rfl

theorem encodePiece_spec (b : UInt8) :
    (encodePiece b).WellFormed reserved ∧ (encodePiece b).byte = b ∧ Legible (encodePiece b) := by
  have hliteral : ∀ b, isAlnum b → b ≠ percent ∧ b ∉ reserved :=
    forall_byte (by decide +kernel)
  have hdigits : ∀ b : UInt8, isHexDigit (toHex (b >>> 4)) ∧ isHexDigit (toHex (b % 16)) :=
    forall_byte (by decide +kernel)
  have hescape : ∀ b : UInt8,
      Piece.byte (.escape (toHex (b >>> 4)) (toHex (b % 16))) = b ∧
        Legible (.escape (toHex (b >>> 4)) (toHex (b % 16))) :=
    forall_byte (by decide +kernel)
  rw [encodePiece]
  split_ifs with h
  · exact ⟨hliteral b h, rfl, trivial⟩
  · exact ⟨hdigits b, hescape b⟩

/-- `URLEncode` writes an encoding of its string, and one that is decoded as it was meant. -/
theorem urlEncode_spec (sIn : List UInt8) : ∃ pieces, urlEncode sIn = encoded pieces ∧
    decoded pieces = sIn ∧ ∀ p ∈ pieces, p.WellFormed reserved ∧ Legible p := by
  refine ⟨sIn.map encodePiece, urlEncode_eq sIn, ?_, ?_⟩
  · rw [decoded, List.map_map]
    exact List.map_id'' (fun b => (encodePiece_spec b).2.1) sIn
  · simp only [List.forall_mem_map]
    exact fun b _ => ⟨(encodePiece_spec b).1, (encodePiece_spec b).2.2⟩

theorem urlDecode_urlEncode (sIn : List UInt8) : urlDecode (urlEncode sIn) = .ok sIn := by
  obtain ⟨pieces, htext, hdecoded, hspec⟩ := urlEncode_spec sIn
  rw [htext, urlDecode_encoded fun p hp => (hspec p hp).1.plain, ← hdecoded, decoded]
  exact congrArg _ (List.map_congr_left fun p hp =>
    (decodePiece_iff (hspec p hp).1).mpr (hspec p hp).2)

end Tarako.Engmoded
