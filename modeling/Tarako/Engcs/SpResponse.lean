import Mathlib.Data.List.Flatten
import Mathlib.Data.List.SplitLengths
import Tarako.Engcs.AtTok
import Tarako.Engcs.Parcel

/-!
# Answers of several lines of integers

Four response functions take the integers out of every line of an answer and print them
one line behind the other. They are copies of one loop that differ in the prefix they
skip, in the integers they print and in what they print behind the last one.
`response_keeps_iff` says for which answers the integers can be read from the text.
-/

namespace Tarako

namespace Engcs

open Text

/-- What the copies of the loop differ in: whether `at_tok_start` is called, how many
integers are taken from a line, which of them `sprintf` prints with a comma between, and
what the format has behind the last one. -/
structure SpResponse where
  start : Bool
  width : ℕ
  args : List ℕ
  last : List UInt8

namespace SpResponse

/-- `at_tok_nextint` into each of the variables, one after the other. -/
def nextInts : Cursor → List ℤ → List ℤ
  | _, [] => []
  | cur, v :: vars =>
      (atTokNextint cur).stored.getD v :: nextInts (atTokNextint cur).cur vars

/-- The cursor at which the first integer of an item is looked for. -/
def itemPtr (r : SpResponse) (item : List UInt8) : Cursor :=
  if r.start then atTokStart (some item) else some item

/-- `sprintf` with the variables. -/
def print (r : SpResponse) (vars : List ℤ) : List UInt8 :=
  List.intercalate [44] (r.args.map fun i => decimalInt (vars.getD i 0)) ++ r.last

/-- The loop over the items; the variables of one turn are still there in the next. -/
def printItems (r : SpResponse) : List ℤ → List (List UInt8) → List UInt8
  | _, [] => []
  | vars, item :: items =>
      r.print (nextInts (r.itemPtr item) vars) ++
        printItems r (nextInts (r.itemPtr item) vars) items

/-- The text in `out`. `stack` is what the variables hold before anything is stored. -/
def out (r : SpResponse) (stack : ℕ → ℤ) (content : List UInt8) : Option (List UInt8) :=
  (responseItems content).map (r.printItems ((List.range r.width).map stack))

end SpResponse

def eng_ResponseGetSpPsrate : SpResponse := ⟨true, 3, [0, 1, 2], [44]⟩

def eng_ResponseSPTest : SpResponse := ⟨true, 2, [0, 1], [44]⟩

/-- The second integer is never printed; the third one is printed in its place. -/
def eng_ResponseSPFRQ : SpResponse := ⟨true, 4, [0, 2, 2, 3], [44]⟩

/-- Nothing is printed between the last integer of a line and the first one of the next. -/
def eng_ResponseGetSPDGCINFO : SpResponse := ⟨false, 3, [0, 1, 2], []⟩

/-! ## What the answer says -/

/-- The integers at the cursor, when `at_tok_nextint` finds a number every time. -/
def intsAt : ℕ → Cursor → Option (List ℤ)
  | 0, _ => some []
  | n + 1, cur =>
      if (atTokNextint cur).ret = 0 then do
        let v ← (atTokNextint cur).stored
        let vs ← intsAt n (atTokNextint cur).cur
        return v :: vs
      else none

namespace SpResponse

/-- Every line of the answer has the integers that the function looks for. -/
def Lines (r : SpResponse) (content : List UInt8) (rows : List (List ℤ)) : Prop :=
  ∃ items, responseItems content = some items ∧
    List.Forall₂ (fun item row => intsAt r.width (r.itemPtr item) = some row) items rows

def listed (text : List UInt8) : List ℤ :=
  ((text.splitOn 44).filter fun field => !field.isEmpty).map atoi32

/-- The rows of a text, with `width` integers in each. -/
def rowsOf (width : ℕ) (text : List UInt8) : List (List ℤ) :=
  (List.replicate ((listed text).length / width) width).splitLengths (listed text)

/-- The text lists the integers of the answer, and the rows can be told from it. -/
def Keeps (r : SpResponse) (stack : ℕ → ℤ) (content : List UInt8) (rows : List (List ℤ)) :
    Prop :=
  ∃ text, r.out stack content = some text ∧ listed text = rows.flatten ∧
    rowsOf r.width text = rows

end SpResponse

/-! ## The text is read back -/

theorem SpResponse.nextInts_of_intsAt {cur : Cursor} {row : List ℤ} (vars : List ℤ)
    (h : intsAt vars.length cur = some row) : SpResponse.nextInts cur vars = row := by
  induction vars generalizing cur row with
  | nil => exact Option.some.inj h
  | cons v vars ih =>
      rw [List.length_cons, intsAt] at h
      split_ifs at h with hret
      obtain ⟨n, hstored, -⟩ := exists_stored_of_ret_eq_zero hret
      simp only [hstored, Option.bind_eq_bind, Option.bind_some, Option.bind_eq_some_iff,
        Option.pure_def, Option.some.injEq] at h
      obtain ⟨rest, hrest, rfl⟩ := h
      rw [nextInts, hstored, Option.getD_some, ih hrest]

/-- A row has as many integers as were looked for, and they are all `int`s. -/
theorem of_intsAt {n : ℕ} {cur : Cursor} {row : List ℤ} (h : intsAt n cur = some row) :
    row.length = n ∧ ∀ v ∈ row, -2 ^ 31 ≤ v ∧ v < 2 ^ 31 := by
  induction n generalizing cur row with
  | zero =>
      cases h
      exact ⟨rfl, List.forall_mem_nil _⟩
  | succ n ih =>
      rw [intsAt] at h
      split_ifs at h with hret
      obtain ⟨v, hstored, hrange⟩ := exists_stored_of_ret_eq_zero hret
      simp only [hstored, Option.bind_eq_bind, Option.bind_some, Option.bind_eq_some_iff,
        Option.pure_def, Option.some.injEq] at h
      obtain ⟨rest, hrest, rfl⟩ := h
      obtain ⟨hlength, hrest⟩ := ih hrest
      exact ⟨by rw [List.length_cons, hlength], List.forall_mem_cons.mpr ⟨hrange, hrest⟩⟩

namespace SpResponse

def picked (r : SpResponse) (row : List ℤ) : List ℤ := r.args.map fun i => row.getD i 0

theorem printItems_eq (r : SpResponse) {items : List (List UInt8)} {rows : List (List ℤ)}
    (h : List.Forall₂ (fun item row => intsAt r.width (r.itemPtr item) = some row) items rows)
    {vars : List ℤ} (hvars : vars.length = r.width) :
    r.printItems vars items = rows.flatMap r.print := by
  induction h generalizing vars with
  | nil => rfl
  | @cons item row items rows hrow _ ih =>
      have hnext : nextInts (r.itemPtr item) vars = row :=
        nextInts_of_intsAt vars (hvars ▸ hrow)
      rw [printItems, hnext, ih (of_intsAt hrow).1, List.flatMap_cons]

theorem out_eq (r : SpResponse) (stack : ℕ → ℤ) {content : List UInt8} {rows : List (List ℤ)}
    (h : r.Lines content rows) : r.out stack content = some (rows.flatMap r.print) := by
  obtain ⟨items, hitems, hrows⟩ := h
  rw [out, hitems, Option.map_some, r.printItems_eq hrows (by simp)]

theorem Lines.forall {r : SpResponse} {content : List UInt8} {rows : List (List ℤ)}
    (h : r.Lines content rows) :
    ∀ row ∈ rows, row.length = r.width ∧ ∀ v ∈ row, -2 ^ 31 ≤ v ∧ v < 2 ^ 31 := by
  obtain ⟨items, -, hrows⟩ := h
  induction hrows with
  | nil => exact List.forall_mem_nil _
  | cons hrow _ ih => exact List.forall_mem_cons.mpr ⟨of_intsAt hrow, ih⟩

/-! ## Reading a text -/

theorem comma_not_mem_decimalInt (n : ℤ) : 44 ∉ decimalInt n := by
  intro hmem
  rcases mem_decimalInt hmem with heq | hdigit
  · exact absurd heq (by decide)
  · exact absurd hdigit (by decide)

theorem listed_of_splitOn {n : ℤ} (hn : -2 ^ 31 ≤ n ∧ n < 2 ^ 31) {text : List UInt8}
    {fields : List (List UInt8)} (h : text.splitOn 44 = decimalInt n :: fields) :
    listed text = n :: ((fields.filter fun field => !field.isEmpty).map atoi32) := by
  have hne : ¬ (decimalInt n).isEmpty := by
    rw [List.isEmpty_iff, ← ne_eq, ← List.length_pos_iff]
    exact length_decimalInt_pos n
  have hread : atoi32 (decimalInt n) = n := by
    have hread := atoi32_decimalInt_append hn (m := []) (by simp)
    rwa [List.append_nil] at hread
  rw [listed, h, List.filter_cons_of_pos (by simpa using hne), List.map_cons, hread]

theorem splitOn_decimalInt (n : ℤ) : (decimalInt n).splitOn 44 = [decimalInt n] :=
  List.splitOnP_eq_singleton fun _ hb =>
    beq_eq_false_iff_ne.mpr fun heq => comma_not_mem_decimalInt n (heq ▸ hb)

theorem listed_decimalInt {n : ℤ} (hn : -2 ^ 31 ≤ n ∧ n < 2 ^ 31) :
    listed (decimalInt n) = [n] :=
  listed_of_splitOn hn (splitOn_decimalInt n)

theorem listed_decimalInt_cons {n : ℤ} (hn : -2 ^ 31 ≤ n ∧ n < 2 ^ 31) (text : List UInt8) :
    listed (decimalInt n ++ 44 :: text) = n :: listed text := by
  refine listed_of_splitOn hn ?_
  have hone := splitOn_decimalInt n
  rw [List.splitOn] at hone
  rw [List.splitOn, List.splitOnP_append_cons _ _ (p := fun b => b == 44) rfl, hone]
  rfl

theorem listed_flatMap {row : List ℤ} (h : ∀ v ∈ row, -2 ^ 31 ≤ v ∧ v < 2 ^ 31)
    (text : List UInt8) :
    listed (row.flatMap (fun v => decimalInt v ++ [44]) ++ text) = row ++ listed text := by
  induction row with
  | nil => rfl
  | cons v row ih =>
      obtain ⟨hv, hrow⟩ := List.forall_mem_cons.mp h
      rw [List.flatMap_cons, List.append_assoc, List.append_assoc, List.singleton_append,
        listed_decimalInt_cons hv, ih hrow, List.cons_append]

theorem length_listed_le (text : List UInt8) : (listed text).length ≤ text.count 44 + 1 := by
  have hsplit : ∀ l : List UInt8, (l.splitOn 44).length = l.count 44 + 1 := by
    intro l
    induction l with
    | nil => rfl
    | cons b l ih =>
        rw [List.splitOn] at ih ⊢
        rw [List.splitOnP_cons_eq_if_modifyHead, List.count_cons]
        split_ifs
        · rw [List.length_cons, ih]
        · rw [List.length_modifyHead, ih]
  rw [listed, List.length_map, ← hsplit]
  exact List.length_filter_le _ _

theorem length_flatten_of_forall {width : ℕ} {rows : List (List ℤ)}
    (h : ∀ row ∈ rows, row.length = width) : rows.flatten.length = rows.length * width := by
  rw [List.length_flatten, List.map_eq_replicate_iff.mpr h, List.sum_replicate_nat]

theorem rowsOf_of_listed {width : ℕ} (hwidth : 0 < width) {text : List UInt8}
    {rows : List (List ℤ)} (h : ∀ row ∈ rows, row.length = width)
    (hlisted : listed text = rows.flatten) : rowsOf width text = rows := by
  have hlength := length_flatten_of_forall h
  have hsplit : ((List.replicate rows.length width).splitLengths rows.flatten) = rows := by
    clear hlisted hlength
    induction rows with
    | nil => rfl
    | cons row rows ih =>
        obtain ⟨hrow, hrows⟩ := List.forall_mem_cons.mp h
        rw [List.length_cons, List.replicate_succ, List.splitLengths_cons, List.flatten_cons,
          List.take_left' hrow, List.drop_left' hrow, ih hrows]
  rw [rowsOf, hlisted, hlength, Nat.mul_div_cancel _ hwidth, hsplit]

/-! ## Answers with a comma behind every integer -/

theorem intercalate_comma_append {fields : List (List UInt8)} (h : fields ≠ []) :
    List.intercalate [44] fields ++ [44] = fields.flatMap (· ++ [44]) := by
  induction fields with
  | nil => exact absurd rfl h
  | cons f fields ih =>
      cases fields with
      | nil => simp
      | cons g fields =>
          rw [List.intercalate_cons_cons, List.append_assoc, ih (List.cons_ne_nil _ _),
            List.flatMap_cons (x := f)]

theorem picked_mem_range (r : SpResponse) {row : List ℤ}
    (h : ∀ v ∈ row, -2 ^ 31 ≤ v ∧ v < 2 ^ 31) :
    ∀ v ∈ r.picked row, -2 ^ 31 ≤ v ∧ v < 2 ^ 31 := by
  intro v hv
  obtain ⟨i, -, rfl⟩ := List.mem_map.mp hv
  rw [List.getD_eq_getElem?_getD]
  cases hi : row[i]? with
  | none => decide
  | some v => exact h v (List.mem_of_getElem? hi)

/-- With a comma behind the last integer, the text lists what was printed. -/
theorem listed_flatMap_print {r : SpResponse} (hlast : r.last = [44]) (hargs : r.args ≠ [])
    {rows : List (List ℤ)} (h : ∀ row ∈ rows, ∀ v ∈ row, -2 ^ 31 ≤ v ∧ v < 2 ^ 31) :
    listed (rows.flatMap r.print) = (rows.map r.picked).flatten := by
  induction rows with
  | nil => rfl
  | cons row rows ih =>
      obtain ⟨hrow, hrows⟩ := List.forall_mem_cons.mp h
      have hprint : r.print row = (r.picked row).flatMap fun v => decimalInt v ++ [44] := by
        rw [print, hlast, intercalate_comma_append (by simpa using hargs), picked,
          List.flatMap_map, List.flatMap_map]
      rw [List.flatMap_cons, hprint, listed_flatMap (r.picked_mem_range hrow), ih hrows,
        List.map_cons, List.flatten_cons]

/-- With a comma behind every integer an answer is kept exactly when every line is printed as
it is. -/
theorem keeps_iff_picked {r : SpResponse} (hlast : r.last = [44])
    (hargs : r.args.length = r.width) (hwidth : 0 < r.width) {stack : ℕ → ℤ}
    {content : List UInt8} {rows : List (List ℤ)} (h : r.Lines content rows) :
    r.Keeps stack content rows ↔ ∀ row ∈ rows, r.picked row = row := by
  have hargs' : r.args ≠ [] := by
    rw [← List.length_pos_iff, hargs]
    exact hwidth
  have hlisted : listed (rows.flatMap r.print) = (rows.map r.picked).flatten :=
    listed_flatMap_print hlast hargs' fun row hrow => (h.forall row hrow).2
  have hrowsOf : rowsOf r.width (rows.flatMap r.print) = rows.map r.picked := by
    refine rowsOf_of_listed hwidth ?_ hlisted
    intro row hrow
    obtain ⟨row', -, rfl⟩ := List.mem_map.mp hrow
    rw [picked, List.length_map, hargs]
  have hsame : rows.map r.picked = rows ↔ ∀ row ∈ rows, r.picked row = row := by
    have hinj := List.map_inj_left (l := rows) (f := r.picked) (g := id)
    rwa [List.map_id] at hinj
  rw [← hsame]
  constructor
  · rintro ⟨text, htext, -, hrows⟩
    rw [r.out_eq stack h, Option.some.injEq] at htext
    rwa [← htext, hrowsOf] at hrows
  · intro hmap
    exact ⟨_, r.out_eq stack h, by rw [hlisted, hmap], by rw [hrowsOf, hmap]⟩

end SpResponse

/-! ## The four functions -/

theorem keeps_getSpPsrate {stack : ℕ → ℤ} {content : List UInt8} {rows : List (List ℤ)}
    (h : eng_ResponseGetSpPsrate.Lines content rows) :
    eng_ResponseGetSpPsrate.Keeps stack content rows := by
  rw [SpResponse.keeps_iff_picked rfl rfl (by decide) h]
  intro row hrow
  obtain ⟨type, ul, dl, rfl⟩ := List.length_eq_three.mp (h.forall row hrow).1
  rfl

theorem keeps_sptest {stack : ℕ → ℤ} {content : List UInt8} {rows : List (List ℤ)}
    (h : eng_ResponseSPTest.Lines content rows) :
    eng_ResponseSPTest.Keeps stack content rows := by
  rw [SpResponse.keeps_iff_picked rfl rfl (by decide) h]
  intro row hrow
  obtain ⟨type, value, rfl⟩ := List.length_eq_two.mp (h.forall row hrow).1
  rfl

theorem keeps_spfrq_iff {stack : ℕ → ℤ} {content : List UInt8} {rows : List (List ℤ)}
    (h : eng_ResponseSPFRQ.Lines content rows) :
    eng_ResponseSPFRQ.Keeps stack content rows ↔ ∀ row ∈ rows, row[1]? = row[2]? := by
  rw [SpResponse.keeps_iff_picked rfl rfl (by decide) h]
  refine forall₂_congr fun row hrow => ?_
  obtain ⟨freq, cell₁, cell₂, cell₃, rfl⟩ := List.length_eq_four.mp (h.forall row hrow).1
  change [freq, cell₂, cell₂, cell₃] = [freq, cell₁, cell₂, cell₃] ↔ some cell₁ = some cell₂
  simp [eq_comm]

theorem count_print_getSPDGCINFO (row : List ℤ) :
    (eng_ResponseGetSPDGCINFO.print row).count 44 = 2 := by
  have hcount : ∀ n : ℤ, (decimalInt n).count 44 = 0 := fun n =>
    List.count_eq_zero.mpr (SpResponse.comma_not_mem_decimalInt n)
  simp [SpResponse.print, eng_ResponseGetSPDGCINFO, hcount, List.intercalate_cons_cons]

theorem keeps_getSPDGCINFO_iff {stack : ℕ → ℤ} {content : List UInt8} {rows : List (List ℤ)}
    (h : eng_ResponseGetSPDGCINFO.Lines content rows) :
    eng_ResponseGetSPDGCINFO.Keeps stack content rows ↔ rows.length ≤ 1 := by
  have hwidth : ∀ row ∈ rows, row.length = 3 := fun row hrow => (h.forall row hrow).1
  constructor
  · -- two commas in the text of a line leave room for three integers in the first line only
    rintro ⟨text, htext, hlisted, -⟩
    rw [SpResponse.out_eq _ stack h, Option.some.injEq] at htext
    have hcount : text.count 44 = rows.length * 2 := by
      have hmap : rows.map (List.count 44 ∘ eng_ResponseGetSPDGCINFO.print) =
          List.replicate rows.length 2 :=
        List.map_eq_replicate_iff.mpr fun row _ => count_print_getSPDGCINFO row
      rw [← htext, List.count_flatMap, hmap, List.sum_replicate_nat]
    have hle := SpResponse.length_listed_le text
    rw [hlisted, SpResponse.length_flatten_of_forall hwidth, hcount] at hle
    omega
  · intro hle
    have hlisted : SpResponse.listed (rows.flatMap eng_ResponseGetSPDGCINFO.print) =
        rows.flatten := by
      rcases rows with _ | ⟨row, rows⟩
      · rfl
      · obtain rfl : rows = [] := by
          rw [List.length_cons] at hle
          exact List.eq_nil_of_length_eq_zero (by omega)
        obtain ⟨hlength, hrange⟩ := h.forall row List.mem_cons_self
        obtain ⟨index, arfcn, bsic, rfl⟩ := List.length_eq_three.mp hlength
        simp only [List.forall_mem_cons] at hrange
        obtain ⟨hindex, harfcn, hbsic, -⟩ := hrange
        have hprint : [[index, arfcn, bsic]].flatMap eng_ResponseGetSPDGCINFO.print =
            decimalInt index ++ 44 :: (decimalInt arfcn ++ 44 :: decimalInt bsic) := by
          simp [SpResponse.print, eng_ResponseGetSPDGCINFO, List.intercalate_cons_cons]
        rw [hprint, SpResponse.listed_decimalInt_cons hindex,
          SpResponse.listed_decimalInt_cons harfcn, SpResponse.listed_decimalInt hbsic]
        rfl
    exact ⟨_, SpResponse.out_eq _ stack h, hlisted,
      SpResponse.rowsOf_of_listed (by decide) hwidth hlisted⟩

/-- The integers of an answer can be read from the text: always for two of the functions;
when the first two cells of every line are one for `eng_ResponseSPFRQ`; and for
`eng_ResponseGetSPDGCINFO` when the answer has at most one line. The room of the caller's
`respose_data`, 256 bytes, is left out here: the text is what the function prints, however
long it is. -/
theorem response_keeps_iff (stack : ℕ → ℤ) (content : List UInt8) (rows : List (List ℤ)) :
    (eng_ResponseGetSpPsrate.Lines content rows →
        eng_ResponseGetSpPsrate.Keeps stack content rows) ∧
      (eng_ResponseSPTest.Lines content rows → eng_ResponseSPTest.Keeps stack content rows) ∧
      (eng_ResponseSPFRQ.Lines content rows →
        (eng_ResponseSPFRQ.Keeps stack content rows ↔ ∀ row ∈ rows, row[1]? = row[2]?)) ∧
      (eng_ResponseGetSPDGCINFO.Lines content rows →
        (eng_ResponseGetSPDGCINFO.Keeps stack content rows ↔ rows.length ≤ 1)) :=
  ⟨keeps_getSpPsrate, keeps_sptest, keeps_spfrq_iff, keeps_getSPDGCINFO_iff⟩

def answer (lines : List (List Char)) : List UInt8 :=
  [0, UInt8.ofNat lines.length] ++
    lines.flatMap (fun l => UInt8.ofNat l.length :: ofAscii l) ++ [0]

theorem response_keeps_examples :
    eng_ResponseGetSpPsrate.Keeps (fun _ => 0) (answer [[':', '1', ',', '2', ',', '3']])
        [[1, 2, 3]] ∧
      eng_ResponseSPTest.Keeps (fun _ => 0)
        (answer [[':', '1', ',', '2'], [':', '-', '3', ',', '4']]) [[1, 2], [-3, 4]] ∧
      eng_ResponseSPFRQ.Keeps (fun _ => 0) (answer [[':', '1', ',', '3', ',', '3', ',', '4']])
        [[1, 3, 3, 4]] ∧
      eng_ResponseGetSPDGCINFO.Keeps (fun _ => 0) (answer [['1', ',', '2', ',', '3']])
        [[1, 2, 3]] := by
  refine ⟨(response_keeps_iff _ _ _).1 ?_, (response_keeps_iff _ _ _).2.1 ?_,
    ((response_keeps_iff _ _ _).2.2.1 ?_).mpr ?_, ((response_keeps_iff _ _ _).2.2.2 ?_).mpr ?_⟩
  · exact ⟨_, rfl, .cons rfl .nil⟩
  · exact ⟨_, rfl, .cons rfl (.cons rfl .nil)⟩
  · exact ⟨_, rfl, .cons rfl .nil⟩
  · decide
  · exact ⟨_, rfl, .cons rfl .nil⟩
  · decide

/-- Two answers with different integers have the same text. -/
def SpResponse.Ambiguous (r : SpResponse) : Prop :=
  ∃ content content' rows rows', r.Lines content rows ∧ r.Lines content' rows' ∧
    rows ≠ rows' ∧ ∀ stack, r.out stack content = r.out stack content'

theorem SpResponse.ambiguous {r : SpResponse} {content content' : List UInt8}
    {rows rows' : List (List ℤ)} (h : r.Lines content rows) (h' : r.Lines content' rows')
    (hne : rows ≠ rows') (htext : rows.flatMap r.print = rows'.flatMap r.print) :
    r.Ambiguous := by
  refine ⟨content, content', rows, rows', h, h', hne, fun stack => ?_⟩
  rw [r.out_eq stack h, r.out_eq stack h', htext]

/-- `":1,2,3,4"` and `":1,3,3,4"` are one text, and so are the lines `"1,2,3"` and
`"45,5,6"` and the lines `"1,2,34"` and `"5,5,6"`. -/
theorem not_response_keeps :
    eng_ResponseSPFRQ.Ambiguous ∧ eng_ResponseGetSPDGCINFO.Ambiguous ∧
      ¬ ∀ stack content rows,
        (eng_ResponseSPFRQ.Lines content rows → eng_ResponseSPFRQ.Keeps stack content rows) ∧
          (eng_ResponseGetSPDGCINFO.Lines content rows →
            eng_ResponseGetSPDGCINFO.Keeps stack content rows) := by
  have hspfrq : eng_ResponseSPFRQ.Lines (answer [[':', '1', ',', '2', ',', '3', ',', '4']])
      [[1, 2, 3, 4]] := ⟨_, rfl, .cons rfl .nil⟩
  refine ⟨?_, ?_, fun h => ?_⟩
  · have hspfrq' : eng_ResponseSPFRQ.Lines (answer [[':', '1', ',', '3', ',', '3', ',', '4']])
        [[1, 3, 3, 4]] := ⟨_, rfl, .cons rfl .nil⟩
    exact SpResponse.ambiguous hspfrq hspfrq' (by decide) (by decide)
  · have hinfo : eng_ResponseGetSPDGCINFO.Lines
        (answer [['1', ',', '2', ',', '3'], ['4', '5', ',', '5', ',', '6']])
        [[1, 2, 3], [45, 5, 6]] := ⟨_, rfl, .cons rfl (.cons rfl .nil)⟩
    have hinfo' : eng_ResponseGetSPDGCINFO.Lines
        (answer [['1', ',', '2', ',', '3', '4'], ['5', ',', '5', ',', '6']])
        [[1, 2, 34], [5, 5, 6]] := ⟨_, rfl, .cons rfl (.cons rfl .nil)⟩
    exact SpResponse.ambiguous hinfo hinfo' (by decide) (by decide)
  · have hkeeps := (h (fun _ => 0) _ _).1 hspfrq
    rw [keeps_spfrq_iff hspfrq] at hkeeps
    exact absurd hkeeps (by decide)

end Engcs

end Tarako
