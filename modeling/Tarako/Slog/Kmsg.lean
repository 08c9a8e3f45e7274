import Mathlib.Data.List.Flatten
import Tarako.Lib.Lines
import Tarako.Lib.Splice
import Tarako.Lib.Text

/-!
# Kernel log lines with a time

`stream_log_handler` reads a piece of the kernel log, and `strinst` copies it with the time in
front of every line. The copy ends with the last newline, and its size is not looked at.
`keepsChunk_iff` says which pieces are written whole.
-/

namespace Tarako

namespace Slog

open Text Lines Splice

structure KmsgTime where
  mon : Fin 12
  mday : Fin 32
  hour : Fin 24
  min : Fin 60
  sec : Fin 61
  msec : Fin 1000

/-- `%0nd`. -/
def zeroPadded (n k : ℕ) : List UInt8 := (decimal k).leftpad n 48

/-- `obtime`: `"%m-%d %H:%M:%S"` and `".%03d "`. -/
def obtime (t : KmsgTime) : List UInt8 :=
  zeroPadded 2 (t.mon + 1) ++ 45 :: (zeroPadded 2 t.mday ++ 32 :: (zeroPadded 2 t.hour ++
    58 :: (zeroPadded 2 t.min ++ 58 :: (zeroPadded 2 t.sec ++ 46 :: (zeroPadded 3 t.msec ++
      [32])))))

/-- `strchr(s, '\n')` in an array from `s` to its end: what is in front of the newline and
what is behind it. There is no result when the array ends before the string does. -/
def strchrNewline : List UInt8 → Option (Option (List UInt8 × List UInt8))
  | [] => none
  | b :: s =>
      if b = newline then some (some ([], s))
      else if b = 0 then some none
      else (strchrNewline s).map fun r => r.map fun p => (b :: p.1, p.2)

/-- `dest` and the place that `p` points to. -/
structure Dest (n : ℕ) where
  buf : Bytes n
  p : ℕ

namespace Dest

/-- `mstrncpy` of a text; no result when the copy leaves `dest`. -/
def mstrncpy {n : ℕ} (d : Dest n) (src : List UInt8) : Option (Dest n) :=
  (d.buf.write? d.p src).map fun buf => ⟨buf, d.p + src.length⟩

end Dest

/-- The loop of `strinst`. Every turn goes behind a newline, so `fuel` turns are enough for
as many bytes. -/
def strinstLoop {n : ℕ} (time : List UInt8) : ℕ → Dest n → List UInt8 → Option (Dest n)
  | 0, _, _ => none
  | fuel + 1, dest, pos2 => do
      match ← strchrNewline pos2 with
      | none => return dest
      | some (line, rest) =>
          let dest ← dest.mstrncpy (line ++ [newline])
          match ← strchrNewline rest with
          | none => return dest
          | some _ =>
              let dest ← dest.mstrncpy time
              strinstLoop time fuel dest rest

def strinst {n : ℕ} (time : List UInt8) (dest : Dest n) (src : List UInt8) : Option (Dest n) :=
  (dest.mstrncpy time).bind fun dest => strinstLoop time (src.length + 1) dest src

/-- What `stream_log_handler` writes for a piece, where `maxLen` is `LOGGER_ENTRY_MAX_LEN`.
Both arrays are cleared before; `strlen` leaves `wbuf_kmsg` when there is no NUL in it. -/
def kmsgText (maxLen : ℕ) (t : KmsgTime) (chunk : List UInt8) : Option (List UInt8) := do
  let wbuf : Dest (maxLen * 2) := ⟨Buffer.fill (maxLen * 2) 0, 0⟩
  let dest ← strinst (obtime t) wbuf (chunk ++ List.replicate (maxLen - chunk.length) 0)
  if 0 ∈ dest.buf.bytes then some (cstring dest.buf.bytes) else none

def deleteTimes (time text : List UInt8) : List UInt8 :=
  (fgets (text.length + 1) text).flatMap fun line =>
    if time <+: line then line.drop time.length else line

/-- What is written for a piece is the piece, when the times are deleted. -/
def KeepsChunk (maxLen : ℕ) (t : KmsgTime) (chunk : List UInt8) : Prop :=
  ∃ text, kmsgText maxLen t chunk = some text ∧ deleteTimes (obtime t) text = chunk

/-! ## The time -/

theorem length_zeroPadded {n k : ℕ} (hn : 0 < n) (hk : k < 10 ^ n) :
    (zeroPadded n k).length = n := by
  rw [zeroPadded, List.length_leftpad]
  exact Nat.max_eq_left ((length_decimal_le_iff hn).mpr hk)

theorem isDigit_of_mem_zeroPadded {n k : ℕ} {b : UInt8} (h : b ∈ zeroPadded n k) :
    isDigit b := by
  rw [zeroPadded, List.leftpad, List.mem_append, List.mem_replicate] at h
  rcases h with ⟨-, rfl⟩ | h
  · decide
  · exact isDigit_of_mem_decimal h

def TIME_LEN : ℕ := 19

theorem length_obtime (t : KmsgTime) : (obtime t).length = TIME_LEN := by
  have hmon := t.mon.isLt
  have hmday := t.mday.isLt
  have hhour := t.hour.isLt
  have hmin := t.min.isLt
  have hsec := t.sec.isLt
  have hmsec := t.msec.isLt
  simp only [obtime, List.length_append, List.length_cons, List.length_nil]
  rw [length_zeroPadded, length_zeroPadded, length_zeroPadded, length_zeroPadded,
    length_zeroPadded, length_zeroPadded]
  · rfl
  all_goals omega

theorem mem_obtime {t : KmsgTime} {b : UInt8} (h : b ∈ obtime t) : b ≠ newline ∧ b ≠ 0 := by
  have hdigit : ∀ n k, b ∈ zeroPadded n k → b ≠ newline ∧ b ≠ 0 := by
    intro n k hmem
    have hb := isDigit_of_mem_zeroPadded hmem
    constructor
    · rintro rfl
      exact absurd hb (by decide)
    · rintro rfl
      exact absurd hb (by decide)
  simp only [obtime, List.mem_append, List.mem_cons, List.not_mem_nil, or_false] at h
  rcases h with h | rfl | h | rfl | h | rfl | h | rfl | h | rfl | h | rfl
  all_goals first | exact hdigit _ _ h | exact ⟨by decide, by decide⟩

/-! ## `strchr` -/

section Strchr

variable {l : List UInt8} (hline : newline ∉ l) (hzero : 0 ∉ l)

include hline hzero

theorem strchrNewline_line (s : List UInt8) :
    strchrNewline (l ++ newline :: s) = some (some (l, s)) := by
  induction l with
  | nil => rfl
  | cons b l ih =>
      rw [List.mem_cons, not_or] at hline hzero
      rw [List.cons_append, strchrNewline, if_neg (Ne.symm hline.1), if_neg (Ne.symm hzero.1),
        ih hline.2 hzero.2]
      rfl

theorem strchrNewline_last (s : List UInt8) : strchrNewline (l ++ 0 :: s) = some none := by
  induction l with
  | nil => rfl
  | cons b l ih =>
      rw [List.mem_cons, not_or] at hline hzero
      rw [List.cons_append, strchrNewline, if_neg (Ne.symm hline.1), if_neg (Ne.symm hzero.1),
        ih hline.2 hzero.2]
      rfl

end Strchr

/-- In an array without NUL a newline is found, or the array is left. -/
theorem strchrNewline_of_zero_not_mem {s : List UInt8} (h : 0 ∉ s) :
    strchrNewline s = none ∨
      ∃ line rest, strchrNewline s = some (some (line, rest)) ∧ 0 ∉ rest := by
  induction s with
  | nil => exact Or.inl rfl
  | cons b s ih =>
      rw [List.mem_cons, not_or] at h
      rw [strchrNewline, if_neg (Ne.symm h.1)]
      by_cases hb : b = newline
      · rw [if_pos hb]
        exact Or.inr ⟨[], s, rfl, h.2⟩
      · rw [if_neg hb]
        rcases ih h.2 with hnone | ⟨line, rest, hsome, hrest⟩
        · rw [hnone]
          exact Or.inl rfl
        · rw [hsome]
          exact Or.inr ⟨b :: line, rest, rfl, hrest⟩

/-- A piece that fills its array is searched behind the end of it. -/
theorem strinstLoop_of_zero_not_mem {n : ℕ} (time : List UInt8) (fuel : ℕ) (dest : Dest n)
    {pos2 : List UInt8} (h : 0 ∉ pos2) : strinstLoop time fuel dest pos2 = none := by
  induction fuel generalizing dest pos2 with
  | zero => rfl
  | succ fuel ih =>
      rw [strinstLoop]
      rcases strchrNewline_of_zero_not_mem h with hnone | ⟨line, rest, hsome, hrest⟩
      · rw [hnone]
        rfl
      · rw [hsome]
        change (dest.mstrncpy (line ++ [newline])).bind _ = none
        refine Option.bind_eq_none_iff.mpr fun dest₁ _ => ?_
        rcases strchrNewline_of_zero_not_mem hrest with hnone | ⟨line₁, rest₁, hsome₁, -⟩
        · rw [hnone]
          rfl
        · rw [hsome₁]
          change (dest₁.mstrncpy time).bind _ = none
          exact Option.bind_eq_none_iff.mpr fun dest₂ _ => ih dest₂ hrest

/-! ## What `strinst` writes -/

namespace Dest

variable {n : ℕ} {d d' : Dest n} {w : List UInt8}

/-- The text that has been written to a cleared array. -/
structure Holds (d : Dest n) (w : List UInt8) : Prop where
  bytes_eq : d.buf.bytes = w ++ List.replicate (n - w.length) 0
  p_eq : d.p = w.length

theorem Holds.length_le (h : d.Holds w) : w.length ≤ n := by
  have hsize := d.buf.size_eq
  rw [h.bytes_eq, List.length_append, List.length_replicate] at hsize
  omega

theorem exists_holds (h : w.length ≤ n) : ∃ d : Dest n, d.Holds w := by
  refine ⟨⟨⟨w ++ List.replicate (n - w.length) 0, ?_⟩, w.length⟩, rfl, rfl⟩
  rw [List.length_append, List.length_replicate]
  omega

theorem Holds.exists_of_append {v : List UInt8} (h : d.Holds (w ++ v)) :
    ∃ d' : Dest n, d'.Holds w := by
  have hle := h.length_le
  rw [List.length_append] at hle
  exact exists_holds (by omega)

theorem Holds.mstrncpy_iff (h : d.Holds w) (src : List UInt8) :
    d.mstrncpy src = some d' ↔ d'.Holds (w ++ src) := by
  have hsize := h.length_le
  have hcopy : w.length + src.length ≤ n →
      splice d.buf.bytes d.p src = w ++ src ++ List.replicate (n - (w ++ src).length) 0 := by
    intro hfits
    have hrest : n - w.length = src.length + (n - (w ++ src).length) := by
      rw [List.length_append]
      omega
    rw [h.bytes_eq, h.p_eq, hrest, splice_append_replicate]
  rw [mstrncpy, Option.map_eq_some_iff]
  constructor
  · rintro ⟨buf, hbuf, rfl⟩
    obtain ⟨hfits, hbytes⟩ := (Buffer.write?_eq_some_iff _ _ _ _).mp hbuf
    rw [h.p_eq] at hfits
    refine ⟨hbytes.trans (hcopy hfits), ?_⟩
    change d.p + src.length = (w ++ src).length
    rw [h.p_eq, List.length_append]
  · intro h'
    have hfits := h'.length_le
    rw [List.length_append] at hfits
    refine ⟨d'.buf, (Buffer.write?_eq_some_iff _ _ _ _).mpr ⟨?_, ?_⟩, ?_⟩
    · rw [h.p_eq]
      exact hfits
    · rw [hcopy hfits, h'.bytes_eq]
    · rw [h.p_eq, ← List.length_append, ← h'.p_eq]

end Dest

def timedLines (time : List UInt8) (lines : List (List UInt8)) : List UInt8 :=
  lines.flatMap fun line => time ++ (line ++ [newline])

@[simp] theorem timedLines_nil (time : List UInt8) : timedLines time [] = [] := rfl

theorem timedLines_cons (time l : List UInt8) (lines : List (List UInt8)) :
    timedLines time (l :: lines) = time ++ (l ++ [newline]) ++ timedLines time lines := by
  rw [timedLines, List.flatMap_cons]
  rfl

theorem exists_timedLines {time : List UInt8} {lines : List (List UInt8)} (hne : lines ≠ []) :
    ∃ rest, timedLines time lines = time ++ rest := by
  obtain ⟨l, lines, rfl⟩ := List.exists_cons_of_ne_nil hne
  exact ⟨l ++ [newline] ++ timedLines time lines, by
    rw [timedLines_cons, List.append_assoc]⟩

section Loop

variable {n fuel : ℕ} {time last w : List UInt8} {dest d : Dest n}
  (hlast : newline ∉ last ∧ 0 ∉ last) (z : List UInt8)

include hlast

theorem strinstLoop_line {l : List UInt8} (hl : newline ∉ l ∧ 0 ∉ l) {lines : List (List UInt8)}
    (hlines : ∀ l ∈ lines, newline ∉ l ∧ 0 ∉ l) :
    strinstLoop time (fuel + 1) dest
        (l ++ newline :: (lines.flatMap (· ++ [newline]) ++ (last ++ 0 :: z))) =
      (dest.mstrncpy (l ++ [newline])).bind fun dest =>
        if lines = [] then some dest
        else (dest.mstrncpy time).bind fun dest =>
          strinstLoop time fuel dest (lines.flatMap (· ++ [newline]) ++ (last ++ 0 :: z)) := by
  rw [strinstLoop, strchrNewline_line hl.1 hl.2]
  change (dest.mstrncpy (l ++ [newline])).bind _ = _
  congr 1
  funext dest
  cases lines with
  | nil =>
      rw [List.flatMap_nil, List.nil_append, strchrNewline_last hlast.1 hlast.2]
      rfl
  | cons l' lines =>
      obtain ⟨hl', -⟩ := List.forall_mem_cons.mp hlines
      rw [List.flatMap_cons, List.append_assoc, List.append_assoc, List.singleton_append,
        strchrNewline_line hl'.1 hl'.2, if_neg (List.cons_ne_nil _ _)]
      rfl

theorem strinstLoop_iff {lines : List (List UInt8)}
    (hlines : ∀ l ∈ lines, newline ∉ l ∧ 0 ∉ l) (hne : lines ≠ []) (hfuel : lines.length ≤ fuel)
    (hdest : dest.Holds (w ++ time)) :
    strinstLoop time fuel dest (lines.flatMap (· ++ [newline]) ++ (last ++ 0 :: z)) = some d ↔
      d.Holds (w ++ timedLines time lines) := by
  induction lines generalizing fuel w dest with
  | nil => exact absurd rfl hne
  | cons l lines ih =>
      obtain ⟨hl, hlines⟩ := List.forall_mem_cons.mp hlines
      obtain ⟨fuel, rfl⟩ : ∃ k, fuel = k + 1 := ⟨fuel - 1, by
        rw [List.length_cons] at hfuel
        omega⟩
      rw [List.flatMap_cons, List.append_assoc, List.append_assoc, List.singleton_append,
        strinstLoop_line hlast z hl hlines, Option.bind_eq_some_iff, timedLines_cons]
      have hparts : w ++ (time ++ (l ++ [newline]) ++ timedLines time lines) =
          w ++ time ++ (l ++ [newline]) ++ timedLines time lines := by
        simp only [List.append_assoc]
      rw [hparts]
      by_cases hnil : lines = []
      · simp only [hnil, if_true, Option.some.injEq, exists_eq_right, timedLines_nil,
          List.append_nil]
        exact hdest.mstrncpy_iff _
      · simp only [if_neg hnil]
        constructor
        · rintro ⟨dest₁, hline, hrun⟩
          have hdest₁ := (hdest.mstrncpy_iff _).mp hline
          obtain ⟨dest₂, htime, hloop⟩ := Option.bind_eq_some_iff.mp hrun
          have hdest₂ := (hdest₁.mstrncpy_iff _).mp htime
          exact (ih hlines hnil (Nat.le_of_succ_le_succ hfuel) hdest₂).mp hloop
        · intro hd
          obtain ⟨rest, hrest⟩ := @exists_timedLines time _ hnil
          have hd' := hd
          rw [hrest, ← List.append_assoc] at hd'
          obtain ⟨dest₂, hdest₂⟩ := hd'.exists_of_append
          obtain ⟨dest₁, hdest₁⟩ := hdest₂.exists_of_append
          have hloop := (ih hlines hnil (Nat.le_of_succ_le_succ hfuel) hdest₂).mpr hd
          exact ⟨dest₁, (hdest.mstrncpy_iff _).mpr hdest₁,
            Option.bind_eq_some_iff.mpr ⟨dest₂, (hdest₁.mstrncpy_iff _).mpr hdest₂, hloop⟩⟩

end Loop

/-- What `strinst` writes. -/
def timedText (time : List UInt8) (lines : List (List UInt8)) : List UInt8 :=
  if lines = [] then time else timedLines time lines

section Text

variable {maxLen : ℕ} {t : KmsgTime} {lines : List (List UInt8)} {last text : List UInt8}

theorem strinst_iff {n : ℕ} {time : List UInt8} {dest d : Dest n}
    (hlines : ∀ l ∈ lines, newline ∉ l ∧ 0 ∉ l) (hlast : newline ∉ last ∧ 0 ∉ last)
    (z : List UInt8) (hdest : dest.Holds []) :
    strinst time dest (lines.flatMap (· ++ [newline]) ++ (last ++ 0 :: z)) = some d ↔
      d.Holds (timedText time lines) := by
  rw [strinst, timedText]
  have htime : ∀ {dest₁ : Dest n}, dest.mstrncpy time = some dest₁ ↔ dest₁.Holds time :=
    hdest.mstrncpy_iff time
  by_cases hnil : lines = []
  · have hloop : ∀ dest₁ : Dest n, ∀ fuel,
        strinstLoop time (fuel + 1) dest₁ (last ++ 0 :: z) = some dest₁ := by
      intro dest₁ fuel
      rw [strinstLoop, strchrNewline_last hlast.1 hlast.2]
      rfl
    rw [hnil, List.flatMap_nil, List.nil_append, if_pos rfl, Option.bind_eq_some_iff, ← htime]
    simp only [hloop, Option.some.injEq, exists_eq_right]
  · have hfuel : lines.length ≤
        (lines.flatMap (· ++ [newline]) ++ (last ++ 0 :: z)).length + 1 := by
      have hle := @List.count_le_length _ _ newline (lines.flatMap (· ++ [newline]))
      rw [count_lines fun l hl => (hlines l hl).1] at hle
      rw [List.length_append]
      omega
    have hrun : ∀ {dest₁ : Dest n}, dest₁.Holds time → _ := fun h =>
      strinstLoop_iff (d := d) (w := []) hlast z hlines hnil hfuel h
    rw [if_neg hnil, Option.bind_eq_some_iff]
    constructor
    · rintro ⟨dest₁, hcopy, hloop⟩
      exact (hrun (htime.mp hcopy)).mp hloop
    · intro hd
      obtain ⟨rest, hrest⟩ := @exists_timedLines time _ hnil
      have hd' := hd
      rw [hrest] at hd'
      obtain ⟨dest₁, hdest₁⟩ := hd'.exists_of_append
      exact ⟨dest₁, htime.mpr hdest₁, (hrun hdest₁).mpr hd⟩

theorem zero_not_mem_timedText (hlines : ∀ l ∈ lines, 0 ∉ l) :
    0 ∉ timedText (obtime t) lines := by
  have htime : 0 ∉ obtime t := fun h => (mem_obtime h).2 rfl
  rw [timedText]
  split_ifs
  · exact htime
  · simp only [timedLines, List.mem_flatMap, List.mem_append, List.mem_singleton]
    rintro ⟨l, hl, h | h | h⟩
    · exact htime h
    · exact hlines l hl h
    · exact absurd h (by decide)

theorem kmsgText_iff (hlines : ∀ l ∈ lines, newline ∉ l ∧ 0 ∉ l)
    (hlast : newline ∉ last ∧ 0 ∉ last)
    (hlen : (lines.flatMap (· ++ [newline]) ++ last).length < maxLen) :
    kmsgText maxLen t (lines.flatMap (· ++ [newline]) ++ last) = some text ↔
      text = timedText (obtime t) lines ∧ text.length < maxLen * 2 := by
  have hzero := @zero_not_mem_timedText t lines fun l hl => (hlines l hl).2
  have hpad : List.replicate (maxLen - (lines.flatMap (· ++ [newline]) ++ last).length) 0 =
      (0 : UInt8) :: List.replicate
        (maxLen - (lines.flatMap (· ++ [newline]) ++ last).length - 1) 0 := by
    rw [← List.replicate_succ]
    congr 1
    omega
  have hclear : Dest.Holds (⟨Buffer.fill (maxLen * 2) 0, 0⟩ : Dest (maxLen * 2)) [] := ⟨rfl, rfl⟩
  rw [kmsgText, hpad, List.append_assoc]
  change (strinst _ _ _).bind _ = some text ↔ _
  rw [Option.bind_eq_some_iff]
  simp only [strinst_iff hlines hlast _ hclear]
  have htext : ∀ {d : Dest (maxLen * 2)}, d.Holds (timedText (obtime t) lines) →
      ((if 0 ∈ d.buf.bytes then some (cstring d.buf.bytes) else none) = some text ↔
        text = timedText (obtime t) lines ∧ text.length < maxLen * 2) := by
    intro d hd
    have hmem : 0 ∈ d.buf.bytes ↔ (timedText (obtime t) lines).length < maxLen * 2 := by
      rw [hd.bytes_eq, List.mem_append, List.mem_replicate]
      simp only [hzero, false_or, and_true]
      omega
    have hstring : cstring d.buf.bytes = timedText (obtime t) lines := by
      rw [hd.bytes_eq, cstring_append_replicate, cstring_of_not_mem hzero]
    rw [Option.ite_none_right_eq_some, Option.some.injEq, hmem, hstring]
    constructor
    · rintro ⟨hlt, rfl⟩
      exact ⟨rfl, hlt⟩
    · rintro ⟨rfl, hlt⟩
      exact ⟨hlt, rfl⟩
  constructor
  · rintro ⟨d, hd, h⟩
    exact (htext hd).mp h
  · intro h
    have hfits : (timedText (obtime t) lines).length ≤ maxLen * 2 := by
      rw [← h.1]
      exact Nat.le_of_lt h.2
    obtain ⟨d, hd⟩ := Dest.exists_holds hfits
    exact ⟨d, hd, (htext hd).mpr h⟩

theorem deleteTimes_timedLines {time : List UInt8} (htime : newline ∉ time)
    (hlines : ∀ l ∈ lines, newline ∉ l) :
    deleteTimes time (timedLines time lines) = lines.flatMap (· ++ [newline]) := by
  have htext : timedLines time lines = (lines.map (time ++ ·)).flatMap (· ++ [newline]) := by
    rw [timedLines, List.flatMap_map]
    simp only [List.append_assoc]
  have hfits : ∀ l ∈ lines.map (time ++ ·),
      newline ∉ l ∧ l.length < (timedLines time lines).length + 1 := by
    intro l hl
    refine ⟨?_, ?_⟩
    · obtain ⟨l', hl', rfl⟩ := List.mem_map.mp hl
      rw [List.mem_append, not_or]
      exact ⟨htime, hlines l' hl'⟩
    · have hmem := List.mem_map_of_mem (f := (· ++ [newline])) hl
      have hle := (List.sublist_flatten_of_mem hmem).length_le
      rw [List.length_append] at hle
      rw [htext, List.flatMap]
      omega
  have hread := fgets_lines hfits
  rw [← htext] at hread
  rw [deleteTimes, hread, List.map_map, List.flatMap_map]
  congr 1
  funext l
  have hstart : time <+: time ++ l ++ [newline] := by
    rw [List.append_assoc]
    exact List.prefix_append _ _
  change (if time <+: time ++ l ++ [newline] then (time ++ l ++ [newline]).drop time.length
    else time ++ l ++ [newline]) = l ++ [newline]
  rw [if_pos hstart, List.append_assoc, List.drop_left]

theorem deleteTimes_self {time : List UInt8} (htime : newline ∉ time) (hne : time ≠ []) :
    deleteTimes time time = [] := by
  rw [deleteTimes, fgets_last htime hne (Nat.le_succ _), List.flatMap_singleton,
    if_pos List.prefix_rfl, List.drop_length]

theorem length_timedLines (time : List UInt8) (lines : List (List UInt8)) :
    (timedLines time lines).length =
      (lines.flatMap (· ++ [newline])).length + time.length * lines.length := by
  induction lines with
  | nil => rfl
  | cons l lines ih =>
      simp only [timedLines_cons, List.flatMap_cons, List.length_append, ih, List.length_cons,
        Nat.mul_succ]
      omega

theorem kmsgText_of_length_eq {chunk : List UInt8} (hzero : 0 ∉ chunk)
    (hlen : chunk.length = maxLen) : kmsgText maxLen t chunk = none := by
  rw [kmsgText, hlen, Nat.sub_self, List.replicate_zero, List.append_nil]
  change (strinst _ _ _).bind _ = none
  rw [Option.bind_eq_none_iff]
  intro d hd
  rw [strinst, Option.bind_eq_some_iff] at hd
  obtain ⟨dest, -, hloop⟩ := hd
  rw [strinstLoop_of_zero_not_mem _ _ _ hzero] at hloop
  cases hloop

theorem deleteTimes_timedText (hlines : ∀ l ∈ lines, newline ∉ l) :
    deleteTimes (obtime t) (timedText (obtime t) lines) = lines.flatMap (· ++ [newline]) := by
  have htime : newline ∉ obtime t := fun h => (mem_obtime h).1 rfl
  rw [timedText]
  split_ifs with hnil
  · have hne : obtime t ≠ [] := by
      rw [← List.length_pos_iff, length_obtime]
      decide
    rw [deleteTimes_self htime hne, hnil, List.flatMap_nil]
  · exact deleteTimes_timedLines htime hlines

theorem getLast?_lines_append (hlast : newline ∉ last) :
    (lines.flatMap (· ++ [newline]) ++ last).getLast? = some newline ↔
      last = [] ∧ lines ≠ [] := by
  rcases List.eq_nil_or_concat' last with rfl | ⟨last, b, rfl⟩
  · rw [List.append_nil]
    rcases List.eq_nil_or_concat' lines with rfl | ⟨lines, l, rfl⟩
    · simp
    · simp
  · rw [← List.append_assoc, List.getLast?_concat, Option.some.injEq]
    have hb : b ≠ newline := by
      rintro rfl
      exact hlast (List.mem_append_right _ (List.mem_singleton_self _))
    simp [hb]

end Text

/-- A piece of the kernel log is written whole, with the times in front of its lines, exactly
when its last byte is a newline, it leaves room for the NUL that ends it, and the text with
the times leaves room for one too. -/
theorem keepsChunk_iff {maxLen : ℕ} (t : KmsgTime) {chunk : List UInt8} (hzero : 0 ∉ chunk)
    (hne : chunk ≠ []) (hread : chunk.length ≤ maxLen) :
    KeepsChunk maxLen t chunk ↔
      chunk.getLast? = some newline ∧ chunk.length < maxLen ∧
        chunk.length + TIME_LEN * chunk.count newline < maxLen * 2 := by
  rcases Nat.eq_or_lt_of_le hread with hfull | hroom
  · rw [KeepsChunk, kmsgText_of_length_eq hzero hfull, hfull]
    simp
  · obtain ⟨lines, last, rfl, hlines, hlast⟩ := exists_lines chunk
    rw [List.mem_append, not_or] at hzero
    have hlines' : ∀ l ∈ lines, newline ∉ l ∧ 0 ∉ l := by
      intro l hl
      refine ⟨hlines l hl, fun h => hzero.1 ?_⟩
      exact List.mem_flatMap.mpr ⟨l, hl, List.mem_append_left _ h⟩
    have hlen : (timedLines (obtime t) lines).length =
        (lines.flatMap (· ++ [newline])).length + TIME_LEN * lines.length := by
      rw [length_timedLines, length_obtime]
    rw [getLast?_lines_append hlast, List.count_append, count_lines hlines,
      List.count_eq_zero.mpr hlast, Nat.add_zero]
    simp only [KeepsChunk, kmsgText_iff hlines' ⟨hlast, hzero.2⟩ hroom]
    constructor
    · rintro ⟨text, ⟨rfl, hfits⟩, hkeeps⟩
      rw [deleteTimes_timedText hlines, List.self_eq_append_right] at hkeeps
      have hnil : lines ≠ [] := by
        rintro rfl
        exact hne (by rw [hkeeps]; rfl)
      rw [timedText, if_neg hnil, hlen] at hfits
      rw [hkeeps, List.append_nil] at hroom ⊢
      exact ⟨⟨rfl, hnil⟩, hroom, hfits⟩
    · rintro ⟨⟨rfl, hnil⟩, -, hfits⟩
      rw [List.append_nil] at hfits ⊢
      rw [← hlen] at hfits
      refine ⟨_, ⟨rfl, ?_⟩, deleteTimes_timedText hlines⟩
      rwa [timedText, if_neg hnil]

theorem keepsChunk_twoLines : KeepsChunk 4096 ⟨0, 2, 3, 4, 5, 678⟩
    (ofAscii ['<', '6', '>', 'a', '\n', '<', '6', '>', 'b', '\n']) :=
  (keepsChunk_iff _ (by decide) (by decide) (by decide)).mpr (by decide)

theorem not_keepsChunk : ¬ ∀ chunk : List UInt8, 0 ∉ chunk → chunk ≠ [] → chunk.length ≤ 4096 →
    KeepsChunk 4096 ⟨0, 2, 3, 4, 5, 678⟩ chunk := by
  intro h
  obtain ⟨text, htext, hkeeps⟩ := h (ofAscii ['<', '6', '>', 'a']) (by decide) (by decide)
    (by decide)
  have hlast : newline ∉ ofAscii ['<', '6', '>', 'a'] ∧ 0 ∉ ofAscii ['<', '6', '>', 'a'] :=
    ⟨by decide, by decide⟩
  have hiff := @kmsgText_iff 4096 ⟨0, 2, 3, 4, 5, 678⟩ [] _ text (by simp) hlast (by decide)
  obtain ⟨rfl, -⟩ := hiff.mp htext
  rw [deleteTimes_timedText (by simp)] at hkeeps
  exact absurd hkeeps (by decide)

end Slog

end Tarako
