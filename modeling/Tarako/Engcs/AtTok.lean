import Tarako.Lib.Hex

/-!
# Tokens of an AT request

The parsers of `eng_attok.c` move a cursor over a C string. The cursor is the text from
where it stands, and `none` for the NULL pointer that `strsep` leaves behind the last
token. A token that is no number is stored as 0 and reported; behind the last token
nothing is stored at all, so the variable keeps what it had.
-/

namespace Tarako

namespace Engcs

open Text

/-- The cursor `*p_cur`. -/
abbrev Cursor := Option (List UInt8)

/-- `strsep` with the separator `c`: the token and the new cursor. -/
def strsep (c : UInt8) : List UInt8 → List UInt8 × Cursor
  | [] => ([], none)
  | b :: l => if b = c then ([], some l) else (b :: (strsep c l).1, (strsep c l).2)

def skipWhiteSpace (cur : List UInt8) : List UInt8 := cur.dropWhile isSpace

/-- `skipNextComma`; at the end of the text there is nothing to skip. -/
def skipNextComma (cur : List UInt8) : List UInt8 := (cur.dropWhile (· ≠ 44)).tail

/-- `nextTok`: the token, if the cursor is not NULL, and the new cursor. -/
def nextTok : Cursor → Option (List UInt8) × Cursor
  | none => (none, none)
  | some cur =>
      match skipWhiteSpace cur with
      | 34 :: quoted => (some (strsep 34 quoted).1, (strsep 34 quoted).2.map skipNextComma)
      | plain => (some (strsep 44 plain).1, (strsep 44 plain).2)

/-- `strtol` finds a number, so that `end` is not `ret`. -/
def converts : List UInt8 → Bool
  | [] => false
  | b :: l =>
      if isSpace b then converts l
      else if b = 45 ∨ b = 43 then l.head?.any isDigit
      else isDigit b

/-- The result of `at_tok_nextint`: its return value, what it stores through `p_out`, if
anything, and the new cursor. -/
structure NextInt where
  ret : ℤ
  stored : Option ℤ
  cur : Cursor

/-- `at_tok_nextint`, which is `at_tok_nextint_base` with base 10. -/
def atTokNextint (cur : Cursor) : NextInt :=
  match nextTok cur with
  | (none, cur) => ⟨-1, none, cur⟩
  | (some tok, cur) => ⟨if converts tok then 0 else -1, some (atoi32 tok), cur⟩

/-- `at_tok_nexthexint`, which is `at_tok_nextint_base` with base 16 and `strtoul`. -/
def atTokNexthexint (cur : Cursor) : NextInt :=
  match nextTok cur with
  | (none, cur) => ⟨-1, none, cur⟩
  | (some tok, cur) =>
      ⟨if (Hex.strtoulSigned16 tok).2 then 0 else -1,
        some (Int.bmod (Hex.strtoulSigned16 tok).1 (2 ^ 32)), cur⟩

/-- The result of `at_tok_nextstr`. -/
structure NextStr where
  ret : ℤ
  stored : Option (List UInt8)
  cur : Cursor

def atTokNextstr (cur : Cursor) : NextStr :=
  match nextTok cur with
  | (none, cur) => ⟨-1, none, cur⟩
  | (some tok, cur) => ⟨0, some tok, cur⟩

def atTokEquelStart (cur : Cursor) : Cursor := cur.bind fun l => (strsep 61 l).2

/-- `at_tok_start`: the cursor behind the first `:`. -/
def atTokStart (cur : Cursor) : Cursor := cur.bind fun l => (strsep 58 l).2

/-! ## What is stored -/

theorem nextTok_fst_eq_none_iff {cur : Cursor} : (nextTok cur).1 = none ↔ cur = none := by
  cases cur with
  | none => simp [nextTok]
  | some l =>
      simp only [nextTok, reduceCtorEq, iff_false]
      split <;> exact Option.some_ne_none _

theorem atTokNextint_stored_eq_none_iff {cur : Cursor} :
    (atTokNextint cur).stored = none ↔ cur = none := by
  refine Iff.trans ?_ nextTok_fst_eq_none_iff
  rw [atTokNextint]
  split <;> simp_all

theorem exists_stored_of_ret_eq_zero {cur : Cursor} (h : (atTokNextint cur).ret = 0) :
    ∃ n, (atTokNextint cur).stored = some n ∧ -2 ^ 31 ≤ n ∧ n < 2 ^ 31 := by
  rw [atTokNextint] at h ⊢
  generalize nextTok cur = next at h ⊢
  rcases next with ⟨_ | tok, rest⟩
  · have hfail : (-1 : ℤ) = 0 := h
    exact absurd hfail (by decide)
  · exact ⟨atoi32 tok, rfl, atoi32_mem_range tok⟩

/-! ## Where the cursor can stand -/

theorem strsep_snd_suffix {c : UInt8} {l rest : List UInt8} (h : (strsep c l).2 = some rest) :
    rest <:+ l := by
  induction l with
  | nil => cases h
  | cons b l ih =>
      rw [strsep] at h
      split_ifs at h
      · rw [← Option.some.inj h]
        exact List.suffix_cons b l
      · exact (ih h).trans (List.suffix_cons b l)

theorem nextTok_snd_suffix {l rest : List UInt8} (h : (nextTok (some l)).2 = some rest) :
    rest <:+ l := by
  have hskip : skipWhiteSpace l <:+ l := List.dropWhile_suffix _
  rw [nextTok] at h
  split at h
  · rename_i quoted hquote
    obtain ⟨m, hm, rfl⟩ := Option.map_eq_some_iff.mp h
    have hquoted : quoted <:+ l := (List.suffix_cons 34 quoted).trans (hquote ▸ hskip)
    have hcomma : skipNextComma m <:+ m :=
      (List.tail_suffix _).trans (List.dropWhile_suffix _)
    exact hcomma.trans ((strsep_snd_suffix hm).trans hquoted)
  · exact (strsep_snd_suffix h).trans hskip

theorem atTokNextint_cur_suffix {l rest : List UInt8}
    (h : (atTokNextint (some l)).cur = some rest) : rest <:+ l := by
  apply nextTok_snd_suffix
  rw [← h, atTokNextint]
  split <;> simp_all

end Engcs

end Tarako
