import Tarako.Engcs.Readline
import Tarako.Lib.Segments

/-!
# Successive lines of the modem

What successive calls of `eng_readline` return of a stream, however it is cut into reads. A read
that fills `s_ATBuffer` has its NUL stored behind the array, and a scan that sees just the
prompt `> ` returns it at once; where neither happens, the calls return the lines of the
stream.
-/

namespace Tarako

namespace Engcs

/-- What calls of `eng_readline` leave: the lines that they have returned, and the state. -/
structure Readlines where
  lines : List (List UInt8)
  atBuffer : List UInt8
  reads : List (List UInt8)

/-- `n` calls of `eng_readline`; a call that returns `NULL` returns no line. -/
def engReadlines : ℕ → List UInt8 → List (List UInt8) → Option Readlines
  | 0, atBuffer, reads => some ⟨[], atBuffer, reads⟩
  | n + 1, atBuffer, reads =>
      (engReadline atBuffer reads).bind fun r =>
        (engReadlines n r.atBuffer r.reads).map fun s =>
          { s with lines := r.line.toList ++ s.lines }

def linesOf (stream : List UInt8) : List (List UInt8) := Segments.ended isNewline stream

/-! ## The condition on a call -/

/-- A scan of the text `cur`, which is not the prompt, and what follows where it finds no
line. -/
def ScanFits (cur : List UInt8) (more : Prop) : Prop :=
  cur ≠ [62, 32] ∧ ((∀ b ∈ cur, isNewline b = false) → more)

/-- No read of the loop, with `p_read` at `pRead`, fills `s_ATBuffer`, and no scan sees the
prompt. -/
def ReadsFit : List (List UInt8) → List UInt8 → ℕ → Prop
  | [], _, _ => True
  | c :: reads, cur, pRead =>
      c ≠ [] → pRead + c.length < ENG_BUF_LEN ∧
        ScanFits ((cur ++ c).dropWhile isNewline)
          (ReadsFit reads ((cur ++ c).dropWhile isNewline) (pRead + c.length))

/-- The same for a call of `eng_readline`. -/
def CallFits (atBuffer : List UInt8) (reads : List (List UInt8)) : Prop :=
  if atBuffer = [] then ReadsFit reads [] 0
  else
    ScanFits (atBuffer.dropWhile isNewline)
      (ReadsFit reads (atBuffer.dropWhile isNewline) (atBuffer.dropWhile isNewline).length)

/-- The same for `n` calls, each in the state that the calls before have left. -/
def CallsFit : ℕ → List UInt8 → List (List UInt8) → Prop
  | 0, _, _ => True
  | n + 1, atBuffer, reads =>
      CallFits atBuffer reads ∧
        ∀ r ∈ engReadline atBuffer reads, CallsFit n r.atBuffer r.reads

instance (cur : List UInt8) (more : Prop) [Decidable more] : Decidable (ScanFits cur more) :=
  inferInstanceAs (Decidable (_ ∧ _))

instance decidableReadsFit : ∀ reads cur pRead, Decidable (ReadsFit reads cur pRead)
  | [], _, _ => inferInstanceAs (Decidable True)
  | c :: reads, cur, pRead =>
      have := decidableReadsFit reads ((cur ++ c).dropWhile isNewline) (pRead + c.length)
      inferInstanceAs (Decidable (c ≠ [] → pRead + c.length < ENG_BUF_LEN ∧
        ScanFits ((cur ++ c).dropWhile isNewline)
          (ReadsFit reads ((cur ++ c).dropWhile isNewline) (pRead + c.length))))

instance (atBuffer : List UInt8) (reads : List (List UInt8)) :
    Decidable (CallFits atBuffer reads) :=
  inferInstanceAs (Decidable (if atBuffer = [] then ReadsFit reads [] 0
    else ScanFits (atBuffer.dropWhile isNewline)
      (ReadsFit reads (atBuffer.dropWhile isNewline) (atBuffer.dropWhile isNewline).length)))

instance decidableCallsFit : ∀ n atBuffer reads, Decidable (CallsFit n atBuffer reads)
  | 0, _, _ => inferInstanceAs (Decidable True)
  | n + 1, atBuffer, reads =>
      have := fun r : Readline => decidableCallsFit n r.atBuffer r.reads
      inferInstanceAs (Decidable (CallFits atBuffer reads ∧
        ∀ r ∈ engReadline atBuffer reads, CallsFit n r.atBuffer r.reads))

/-! ## A call -/

/-- What a call returns of the stream `pending`: its first line, or `NULL` at a read that
delivers nothing or at the end of the reads. -/
inductive Returns (pending : List UInt8) (reads : List (List UInt8)) (r : Readline) : Prop
  | line (text : List UInt8) (hline : r.line = some text) (hreads : r.reads.length ≤ reads.length)
      (hlines : linesOf pending = text :: linesOf (r.atBuffer ++ r.reads.flatten))
  | null (hline : r.line = none)
      (hlines : linesOf pending = linesOf (r.atBuffer ++ r.reads.flatten))
      (hreads : r.reads.length < reads.length ∨ reads = [] ∧ r.reads = [] ∧
        linesOf r.atBuffer = [])

theorem takeLine_returns {cur : List UInt8} {reads : List (List UInt8)} {more : Option Readline}
    (hhead : ∀ b ∈ cur.head?, isNewline b = false) {next : Prop} (hfits : ScanFits cur next)
    (hmore : next → (∀ b ∈ cur, isNewline b = false) →
      ∃ r, more = some r ∧ Returns (cur ++ reads.flatten) reads r) :
    ∃ r, takeLine cur reads more = some r ∧ Returns (cur ++ reads.flatten) reads r := by
  rw [takeLine, if_neg hfits.1]
  obtain ⟨hnone, hall⟩ | ⟨s, t, m, rfl, hs, ht, hsome⟩ := findNextEOL_cases cur
  · rw [hnone]
    exact hmore (hfits.2 hall) hall
  · rw [hsome]
    refine ⟨_, rfl, .line s rfl (Nat.le_refl _) ?_⟩
    have hne : s ≠ [] := by
      rintro rfl
      rw [hhead t rfl] at ht
      exact Bool.false_ne_true ht
    rw [List.append_assoc, List.cons_append, linesOf, Segments.ended_append_cons hs ht, if_neg hne]
    rfl

theorem Returns.cons {pending pending' : List UInt8} {reads : List (List UInt8)} {r : Readline}
    (h : Returns pending reads r) (hlines : linesOf pending' = linesOf pending)
    (c : List UInt8) : Returns pending' (c :: reads) r := by
  cases h with
  | line text hline hreads hpending =>
      exact .line text hline (Nat.le_succ_of_le hreads) (hlines.trans hpending)
  | null hline hpending hreads =>
      refine .null hline (hlines.trans hpending) (.inl ?_)
      obtain hlt | ⟨-, hnil, -⟩ := hreads
      · exact Nat.lt_succ_of_lt hlt
      · rw [hnil]
        exact Nat.succ_pos _

theorem readMore_returns (reads : List (List UInt8)) :
    ∀ {cur : List UInt8} {pRead : ℕ}, (∀ b ∈ cur, isNewline b = false) →
      ReadsFit reads cur pRead →
      ∃ r, readMore reads cur pRead = some r ∧ Returns (cur ++ reads.flatten) reads r := by
  induction reads with
  | nil =>
      intro cur pRead hcur _
      exact ⟨_, rfl, .null rfl rfl (.inr ⟨rfl, rfl, Segments.ended_of_forall hcur⟩)⟩
  | cons c reads ih =>
      intro cur pRead hcur hfits
      rw [readMore]
      by_cases hc : c = []
      · subst hc
        rw [if_pos rfl]
        exact ⟨_, rfl, .null rfl rfl (.inl (Nat.lt_succ_self _))⟩
      · obtain ⟨hroom, hscan⟩ := hfits hc
        obtain ⟨r, hr, hreturns⟩ := takeLine_returns (head_dropWhile_isNewline (cur ++ c)) hscan
          fun hmore hall => ih hall hmore
        rw [if_neg hc, if_neg (Nat.not_le.mpr hroom)]
        refine ⟨r, hr, hreturns.cons ?_ c⟩
        rw [linesOf, linesOf, Segments.ended_dropWhile_append, List.flatten_cons,
          List.append_assoc]

theorem engReadline_returns {atBuffer : List UInt8} {reads : List (List UInt8)}
    (h : CallFits atBuffer reads) :
    ∃ r, engReadline atBuffer reads = some r ∧ Returns (atBuffer ++ reads.flatten) reads r := by
  rw [engReadline]
  by_cases hempty : atBuffer = []
  · subst hempty
    rw [if_pos rfl]
    exact readMore_returns reads (fun b hb => absurd hb List.not_mem_nil) h
  · rw [CallFits, if_neg hempty] at h
    rw [if_neg hempty]
    obtain ⟨r, hr, hreturns⟩ := takeLine_returns (head_dropWhile_isNewline atBuffer) h
      fun hmore hall => readMore_returns reads hall hmore
    have hlines : linesOf (atBuffer ++ reads.flatten) =
        linesOf (atBuffer.dropWhile isNewline ++ reads.flatten) :=
      (Segments.ended_dropWhile_append atBuffer reads.flatten).symm
    refine ⟨r, hr, ?_⟩
    cases hreturns with
    | line text hline hreads hpending => exact .line text hline hreads (hlines.trans hpending)
    | null hline hpending hreads => exact .null hline (hlines.trans hpending) hreads

theorem scanFits_of_takeLine {cur : List UInt8} {reads : List (List UInt8)}
    {more : Option Readline} {r : Readline} (h : takeLine cur reads more = some r) {next : Prop}
    (hmore : more = some r → next) : ScanFits cur next := by
  rw [takeLine] at h
  split_ifs at h with hprompt
  refine ⟨hprompt, fun hall => ?_⟩
  obtain ⟨hnone, -⟩ | ⟨s, t, m, rfl, -, ht, -⟩ := findNextEOL_cases cur
  · rw [hnone] at h
    exact hmore h
  · rw [hall t (List.mem_append_right s (List.mem_cons_self ..))] at ht
    exact absurd ht Bool.false_ne_true

theorem readsFit_of_readMore (reads : List (List UInt8)) :
    ∀ {cur : List UInt8} {pRead : ℕ} {r : Readline}, readMore reads cur pRead = some r →
      ReadsFit reads cur pRead := by
  induction reads with
  | nil => exact fun _ => trivial
  | cons c reads ih =>
      intro cur pRead r h hc
      rw [readMore, if_neg hc] at h
      split_ifs at h with hroom
      exact ⟨Nat.lt_of_not_le hroom, scanFits_of_takeLine h ih⟩

/-- The condition is what a call needs to stay inside `s_ATBuffer`, prompts apart. -/
theorem callFits_iff {atBuffer : List UInt8} {reads : List (List UInt8)} :
    CallFits atBuffer reads ↔ ∃ r, engReadline atBuffer reads = some r := by
  constructor
  · intro h
    obtain ⟨r, hr, -⟩ := engReadline_returns h
    exact ⟨r, hr⟩
  · rintro ⟨r, hr⟩
    rw [engReadline] at hr
    rw [CallFits]
    split_ifs at hr ⊢ with hempty
    · exact readsFit_of_readMore reads hr
    · exact scanFits_of_takeLine hr (readsFit_of_readMore reads)

/-! ## Calls one after the other -/

theorem engReadlines_spec (n : ℕ) :
    ∀ {atBuffer : List UInt8} {reads : List (List UInt8)}, CallsFit n atBuffer reads →
      ∃ r, engReadlines n atBuffer reads = some r ∧
        linesOf (atBuffer ++ reads.flatten) =
          r.lines ++ linesOf (r.atBuffer ++ r.reads.flatten) ∧
        (reads.length + (linesOf (atBuffer ++ reads.flatten)).length ≤ n →
          linesOf (r.atBuffer ++ r.reads.flatten) = []) := by
  induction n with
  | zero =>
      intro atBuffer reads _
      refine ⟨_, rfl, rfl, fun hn => ?_⟩
      have hzero : (linesOf (atBuffer ++ reads.flatten)).length = 0 := by omega
      exact List.length_eq_zero_iff.mp hzero
  | succ n ih =>
      intro atBuffer reads h
      obtain ⟨r, hr, hreturns⟩ := engReadline_returns h.1
      obtain ⟨s, hs, hlines, hend⟩ := ih (h.2 r hr)
      refine ⟨{ s with lines := r.line.toList ++ s.lines }, ?_, ?_, ?_⟩
      · rw [engReadlines, hr, Option.bind_some, hs]
        rfl
      · cases hreturns with
        | line text hline _ hpending =>
            rw [hpending, hlines, hline]
            rfl
        | null hline hpending _ =>
            rw [hpending, hlines, hline]
            rfl
      · intro hn
        apply hend
        cases hreturns with
        | line text hline hreads hpending =>
            rw [hpending, List.length_cons] at hn
            omega
        | null hline hpending hreads =>
            rw [hpending] at hn
            obtain hlt | ⟨-, hnil, hnone⟩ := hreads
            · omega
            · rw [hnil, List.flatten_nil, List.append_nil, hnone]
              exact Nat.zero_le n

/-- The calls return the lines of the stream, and all of them when there are enough calls, where
no read fills the buffer and no scan sees the prompt. -/
theorem engReadlines_lines {n : ℕ} {reads : List (List UInt8)} (h : CallsFit n [] reads) :
    ∃ r, engReadlines n [] reads = some r ∧ r.lines <+: linesOf reads.flatten ∧
      (reads.length + (linesOf reads.flatten).length ≤ n → r.lines = linesOf reads.flatten) := by
  obtain ⟨r, hr, hlines, hend⟩ := engReadlines_spec n h
  rw [List.nil_append] at hlines hend
  refine ⟨r, hr, ⟨_, hlines.symm⟩, fun hn => ?_⟩
  rw [hlines, hend hn, List.append_nil]

theorem engReadlines_lines_two :
    ∃ r, engReadlines 5 [] [[79], [75, 13, 10, 65], [13]] = some r ∧
      r.lines <+: linesOf [[79], [75, 13, 10, 65], [13]].flatten ∧
      ([[79], [75, 13, 10, 65], [(13 : UInt8)]].length +
          (linesOf [[79], [75, 13, 10, 65], [13]].flatten).length ≤ 5 →
        r.lines = linesOf [[79], [75, 13, 10, 65], [13]].flatten) :=
  engReadlines_lines (by decide +kernel)

theorem engReadline_full {c : List UInt8} (hc : ENG_BUF_LEN ≤ c.length)
    (reads : List (List UInt8)) : engReadline [] (c :: reads) = none := by
  have hpos : 0 < ENG_BUF_LEN := by decide
  have hne : c ≠ [] := List.ne_nil_of_length_pos (Nat.lt_of_lt_of_le hpos hc)
  rw [engReadline, if_pos rfl, readMore, if_neg hne, if_pos (by omega)]

theorem not_engReadline_full :
    ¬ ∀ reads : List (List UInt8), 0 ∉ reads.flatten →
      (∀ s ∈ reads.flatten.splitOnP isNewline, s.length < ENG_BUF_LEN) →
        ∃ r, engReadline [] reads = some r := by
  intro h
  obtain ⟨r, hr⟩ := h [List.replicate 2046 65 ++ [13, 10]] (by decide +kernel) (by decide +kernel)
  rw [engReadline_full (by rw [List.length_append, List.length_replicate]; decide)] at hr
  exact absurd hr.symm (Option.some_ne_none r)

end Engcs

end Tarako
