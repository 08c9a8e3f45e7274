import Tarako.Engcs.SendData

/-!
# Lines of the modem

`eng_readline` cuts the byte stream of a modem into lines. What it has read and not
returned yet stays in `s_ATBuffer`, from `s_ATBufferCur` on. The stream is the list of
what the next calls of `read` deliver, with an empty entry for a call that finds
nothing: the devices are opened with `O_NONBLOCK`, and such a call fails.
`engReadline_spec` says that a line which is on its way is returned as it is, however it
is cut into reads.
-/

namespace Tarako

namespace Engcs

def isNewline (b : UInt8) : Bool := b == 13 || b == 10

/-- `findNextEOL` on the text `cur`: the line before the first newline and what is
behind it. -/
def findNextEOL (cur : List UInt8) : Option (List UInt8 × List UInt8) :=
  match cur.dropWhile fun b => !isNewline b with
  | [] => none
  | _ :: rest => some (cur.takeWhile fun b => !isNewline b, rest)

/-- What a call of `eng_readline` leaves: its result, `none` for `NULL`, the text from
`s_ATBufferCur` on, and the reads that are left. -/
structure Readline where
  line : Option (List UInt8)
  atBuffer : List UInt8
  reads : List (List UInt8)

/-- The end of `eng_readline` when there is a line in `cur`, and `more` when there is
none. An SMS prompt puts `s_ATBufferCur` behind the NUL of the text: it has no result
here. -/
def takeLine (cur : List UInt8) (reads : List (List UInt8)) (more : Option Readline) :
    Option Readline :=
  if cur = [62, 32] then none
  else
    match findNextEOL cur with
    | some (line, rest) => some ⟨some line, rest, reads⟩
    | none => more

/-- The reading loop of `eng_readline`. A read that fills `s_ATBuffer` has its NUL
written behind the array. -/
def readMore : List (List UInt8) → List UInt8 → ℕ → Option Readline
  | [], cur, _ => some ⟨none, cur, []⟩
  | c :: reads, cur, pRead =>
      if c = [] then some ⟨none, cur, reads⟩
      else if ENG_BUF_LEN ≤ pRead + c.length then none
      else
        takeLine ((cur ++ c).dropWhile isNewline) reads
          (readMore reads ((cur ++ c).dropWhile isNewline) (pRead + c.length))

def engReadline (atBuffer : List UInt8) (reads : List (List UInt8)) : Option Readline :=
  if atBuffer = [] then readMore reads [] 0
  else
    takeLine (atBuffer.dropWhile isNewline) reads
      (readMore reads (atBuffer.dropWhile isNewline) (atBuffer.dropWhile isNewline).length)

/-! ## Lines -/

/-- A line of a response: any newlines, the text and the newline that ends it. -/
structure Line where
  before : List UInt8
  text : List UInt8
  term : UInt8
  before_newline : ∀ b ∈ before, isNewline b = true
  text_ne_nil : text ≠ []
  text_newline : ∀ b ∈ text, isNewline b = false
  zero_not_mem : 0 ∉ text
  no_prompt : ¬ [62, 32] <+: text
  term_newline : isNewline term = true

def Line.bytes (l : Line) : List UInt8 := l.before ++ (l.text ++ l.term :: [])

/-- The line `l` is next in `pending`, with `rest` behind it. -/
def Starts (l : Line) (rest pending : List UInt8) : Prop :=
  ∃ before, (∀ b ∈ before, isNewline b = true) ∧ pending = before ++ (l.text ++ l.term :: rest)

theorem findNextEOL_append {s : List UInt8} (hs : ∀ b ∈ s, isNewline b = false) {t : UInt8}
    (ht : isNewline t = true) (m : List UInt8) : findNextEOL (s ++ t :: m) = some (s, m) := by
  have hdrop : (s ++ t :: m).dropWhile (fun b => !isNewline b) = t :: m := by
    rw [List.dropWhile_append_of_pos, List.dropWhile_cons_of_neg]
    · simp [ht]
    · intro b hb
      simp [hs b hb]
  have htake : (s ++ t :: m).takeWhile (fun b => !isNewline b) = s := by
    rw [List.takeWhile_append_of_pos, List.takeWhile_cons_of_neg, List.append_nil]
    · simp [ht]
    · intro b hb
      simp [hs b hb]
  simp only [findNextEOL, hdrop, htake]

theorem findNextEOL_cases (cur : List UInt8) :
    findNextEOL cur = none ∧ (∀ b ∈ cur, isNewline b = false) ∨
      ∃ s t m, cur = s ++ t :: m ∧ (∀ b ∈ s, isNewline b = false) ∧ isNewline t = true ∧
        findNextEOL cur = some (s, m) := by
  cases hdrop : cur.dropWhile fun b => !isNewline b with
  | nil =>
      left
      refine ⟨by simp [findNextEOL, hdrop], ?_⟩
      intro b hb
      simpa using List.dropWhile_eq_nil_iff.mp hdrop b hb
  | cons t m =>
      right
      have hsplit := List.takeWhile_append_dropWhile (p := fun b => !isNewline b) (l := cur)
      have ht : isNewline t = true := by
        have hhead := List.head_dropWhile_not (fun b => !isNewline b) (l := cur) (by simp [hdrop])
        simpa [hdrop] using hhead
      have hs : ∀ b ∈ cur.takeWhile fun b => !isNewline b, isNewline b = false := by
        intro b hb
        simpa using List.mem_takeWhile_imp hb
      rw [hdrop] at hsplit
      refine ⟨_, t, m, hsplit.symm, hs, ht, ?_⟩
      simp only [findNextEOL, hdrop]

namespace Starts

variable {l : Line} {rest : List UInt8}

theorem of_line (l : Line) (rest : List UInt8) : Starts l rest (l.bytes ++ rest) :=
  ⟨l.before, l.before_newline, by simp [Line.bytes]⟩

theorem append_left {before pending : List UInt8} (h : Starts l rest pending)
    (hbefore : ∀ b ∈ before, isNewline b = true) : Starts l rest (before ++ pending) := by
  obtain ⟨before', hbefore', rfl⟩ := h
  refine ⟨before ++ before', ?_, (List.append_assoc _ _ _).symm⟩
  intro b hb
  rcases List.mem_append.mp hb with hb | hb
  · exact hbefore b hb
  · exact hbefore' b hb

theorem tail_of_isNewline {b : UInt8} {pending : List UInt8} (h : Starts l rest (b :: pending))
    (hb : isNewline b = true) : Starts l rest pending := by
  obtain ⟨before, hbefore, heq⟩ := h
  cases before with
  | nil =>
      obtain ⟨a, text, htext⟩ := List.exists_cons_of_ne_nil l.text_ne_nil
      have hmem : b ∈ l.text := by
        rw [htext, List.nil_append, List.cons_append] at heq
        simp [htext, (List.cons.inj heq).1]
      rw [l.text_newline b hmem] at hb
      cases hb
  | cons a before =>
      refine ⟨before, fun c hc => hbefore c (List.mem_cons_of_mem a hc), ?_⟩
      exact (List.cons.inj heq).2

theorem dropWhile {cur m : List UInt8} (h : Starts l rest (cur ++ m)) :
    Starts l rest (cur.dropWhile isNewline ++ m) := by
  induction cur with
  | nil => exact h
  | cons b cur ih =>
      by_cases hb : isNewline b = true
      · rw [List.dropWhile_cons_of_pos hb]
        exact ih (h.tail_of_isNewline hb)
      · rw [List.dropWhile_cons_of_neg hb]
        exact h

/-- The line is at the start when the text does not start with a newline. -/
theorem eq_of_head {b : UInt8} {pending : List UInt8} (h : Starts l rest (b :: pending))
    (hb : isNewline b = false) : b :: pending = l.text ++ l.term :: rest := by
  obtain ⟨before, hbefore, heq⟩ := h
  cases before with
  | nil => exact heq
  | cons a before =>
      have hab := (List.cons.inj heq).1
      rw [hab, hbefore a List.mem_cons_self] at hb
      cases hb

theorem ne_prompt {m : List UInt8} (h : Starts l rest ([62, 32] ++ m)) : False := by
  have heq := h.eq_of_head rfl
  apply l.no_prompt
  match htext : l.text, l.text_ne_nil with
  | [a], _ =>
      rw [htext] at heq
      have hterm := (List.cons.inj (List.cons.inj heq).2).1
      have hnewline := l.term_newline
      rw [← hterm] at hnewline
      cases hnewline
  | a :: b :: text, _ =>
      rw [htext] at heq
      obtain ⟨rfl, htail⟩ := List.cons.inj heq
      obtain ⟨rfl, -⟩ := List.cons.inj htail
      exact ⟨text, rfl⟩

/-- As long as no newline of a line has been read, its end is still to come. -/
theorem length_lt {cur m : List UInt8} (h : Starts l rest (cur ++ m))
    (hcur : ∀ b ∈ cur, isNewline b = false) : rest.length < m.length := by
  obtain ⟨before, -, heq⟩ := h
  rw [← List.append_assoc, List.append_eq_append_iff] at heq
  rcases heq with ⟨text, -, rfl⟩ | ⟨read, rfl, heq⟩
  · rw [List.length_append, List.length_cons]
    omega
  · cases read with
    | nil =>
        rw [List.nil_append] at heq
        rw [← heq, List.length_cons]
        exact Nat.lt_succ_self _
    | cons t read =>
        have hterm := (List.cons.inj heq).1
        have hfalse := hcur t (by simp)
        rw [← hterm, l.term_newline] at hfalse
        cases hfalse

end Starts

/-! ## Reading a line -/

/-- What a call of `eng_readline` can do while the line `l` is on its way: return it, or
return `NULL` at a read that finds nothing. -/
structure Progress (l : Line) (rest : List UInt8) (pending : List UInt8)
    (reads : List (List UInt8)) (r : Readline) : Prop where
  suffix : r.reads <:+ reads
  outcome :
    r.line = some l.text ∧ r.atBuffer ++ r.reads.flatten = rest ∨
      r.line = none ∧ Starts l rest (r.atBuffer ++ r.reads.flatten) ∧
        (r.atBuffer ++ r.reads.flatten).length ≤ pending.length ∧
        [] :: r.reads <:+ reads ∧ rest.length < r.reads.flatten.length

theorem takeLine_spec {l : Line} {rest cur : List UInt8} {reads : List (List UInt8)}
    (hcur : ∀ b ∈ cur.head?, isNewline b = false) (h : Starts l rest (cur ++ reads.flatten))
    {more : Option Readline}
    (hmore : (∀ b ∈ cur, isNewline b = false) →
      ∃ r, more = some r ∧ Progress l rest (cur ++ reads.flatten) reads r) :
    ∃ r, takeLine cur reads more = some r ∧
      Progress l rest (cur ++ reads.flatten) reads r := by
  have hprompt : cur ≠ [62, 32] := by
    rintro rfl
    exact h.ne_prompt
  rw [takeLine, if_neg hprompt]
  rcases findNextEOL_cases cur with ⟨hnone, hall⟩ | ⟨s, t, m, rfl, hs, ht, hsome⟩
  · rw [hnone]
    exact hmore hall
  · rw [hsome]
    refine ⟨_, rfl, List.suffix_refl _, Or.inl ?_⟩
    have heq : s ++ t :: (m ++ reads.flatten) = l.text ++ l.term :: rest := by
      cases s with
      | nil =>
          have hhead := hcur t (by simp)
          rw [ht] at hhead
          cases hhead
      | cons b s =>
          rw [List.append_assoc] at h
          exact h.eq_of_head (hs b List.mem_cons_self)
    have hfind := findNextEOL_append hs ht (m ++ reads.flatten)
    rw [heq, findNextEOL_append l.text_newline l.term_newline] at hfind
    obtain ⟨htext, hrest⟩ := Prod.mk.inj (Option.some.inj hfind)
    exact ⟨by rw [htext], hrest.symm⟩

theorem head_dropWhile_isNewline (cur : List UInt8) :
    ∀ b ∈ (cur.dropWhile isNewline).head?, isNewline b = false := by
  intro b hb
  obtain ⟨m, hm⟩ := List.head?_eq_some_iff.mp hb
  have hhead := List.head_dropWhile_not isNewline (l := cur) (by simp [hm])
  simpa [hm] using hhead

theorem length_dropWhile_append_le (cur m : List UInt8) :
    (cur.dropWhile isNewline ++ m).length ≤ (cur ++ m).length := by
  rw [List.length_append, List.length_append]
  exact Nat.add_le_add_right (List.dropWhile_sublist isNewline).length_le _

/-- The reading loop, when the text in `cur` has no newline and each read fits behind what
there is of the line. -/
theorem readMore_spec {l : Line} {rest : List UInt8} :
    ∀ (reads : List (List UInt8)) (cur : List UInt8) (pRead : ℕ),
      (∀ b ∈ cur, isNewline b = false) → Starts l rest (cur ++ reads.flatten) →
      (∀ c ∈ reads, pRead + reads.flatten.length + c.length ≤ ENG_BUF_LEN + rest.length) →
        ∃ r, readMore reads cur pRead = some r ∧
          Progress l rest (cur ++ reads.flatten) reads r
  | [], cur, pRead, hcur, h, hroom => absurd (h.length_lt hcur) (Nat.not_lt_zero _)
  | c :: reads, cur, pRead, hcur, h, hroom => by
      have hlt := h.length_lt hcur
      rw [readMore]
      by_cases hc : c = []
      · subst hc
        rw [if_pos rfl]
        refine ⟨_, rfl, List.suffix_cons [] reads, Or.inr ⟨rfl, h, ?_, List.suffix_refl _, hlt⟩⟩
        exact Nat.le_refl _
      · have hfirst := hroom c List.mem_cons_self
        rw [List.flatten_cons, ← List.append_assoc] at h
        rw [if_neg hc, if_neg (by omega)]
        have hskip := h.dropWhile
        have hnext : ∀ d ∈ reads, pRead + c.length + reads.flatten.length + d.length ≤
            ENG_BUF_LEN + rest.length := by
          intro d hd
          have hroom' := hroom d (List.mem_cons_of_mem c hd)
          rw [List.flatten_cons, List.length_append] at hroom'
          omega
        obtain ⟨r, hr, hsuffix, hout⟩ := takeLine_spec (head_dropWhile_isNewline (cur ++ c)) hskip
          fun hall => readMore_spec reads _ (pRead + c.length) hall hskip hnext
        have hle := length_dropWhile_append_le (cur ++ c) reads.flatten
        refine ⟨r, hr, hsuffix.trans (List.suffix_cons c reads), ?_⟩
        rcases hout with hline | ⟨hnull, hstarts, hlength, hgap, hlater⟩
        · exact Or.inl hline
        · refine Or.inr ⟨hnull, hstarts, ?_, hgap.trans (List.suffix_cons c reads), hlater⟩
          rw [List.flatten_cons, ← List.append_assoc]
          exact Nat.le_trans hlength hle

/-- A line that is on its way is returned, or its reading goes on after a read that finds
nothing, when each read fits behind the line in `s_ATBuffer`. -/
theorem engReadline_spec {l : Line} {rest atBuffer : List UInt8} {reads : List (List UInt8)}
    (h : Starts l rest (atBuffer ++ reads.flatten))
    (hroom : ∀ c ∈ reads,
      (atBuffer ++ reads.flatten).length + c.length ≤ ENG_BUF_LEN + rest.length) :
    ∃ r, engReadline atBuffer reads = some r ∧
      Progress l rest (atBuffer ++ reads.flatten) reads r := by
  rw [engReadline]
  by_cases hempty : atBuffer = []
  · subst hempty
    rw [if_pos rfl]
    refine readMore_spec reads [] 0 (by simp) h fun c hc => ?_
    rw [Nat.zero_add]
    exact hroom c hc
  · rw [if_neg hempty]
    have hskip := h.dropWhile
    have hle := length_dropWhile_append_le atBuffer reads.flatten
    have hnext : ∀ c ∈ reads, (atBuffer.dropWhile isNewline).length + reads.flatten.length +
        c.length ≤ ENG_BUF_LEN + rest.length := by
      intro c hc
      rw [← List.length_append]
      exact Nat.le_trans (Nat.add_le_add_right hle c.length) (hroom c hc)
    obtain ⟨r, hr, hsuffix, hout⟩ := takeLine_spec (head_dropWhile_isNewline atBuffer) hskip
      fun hall => readMore_spec reads (atBuffer.dropWhile isNewline)
        (atBuffer.dropWhile isNewline).length hall hskip hnext
    refine ⟨r, hr, hsuffix, ?_⟩
    rcases hout with hline | ⟨hnull, hstarts, hlength, hgap⟩
    · exact Or.inl hline
    · exact Or.inr ⟨hnull, hstarts, Nat.le_trans hlength hle, hgap⟩

end Engcs

end Tarako
