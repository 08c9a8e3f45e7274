import Mathlib.Data.List.Forall2
import Tarako.Lib.Fields
import Tarako.Lib.Lines
import Tarako.Lib.Strtok
import Tarako.Lib.Text

/-!
# The alarms of the database

`add_alarm_db_list` reads what `sqlite3` prints, one row on a line, and `parse_db_item`
cuts a line into the columns. `strtok` takes neighbouring bars for one: where there is one
text behind the numbers, it is taken for the alert. Memory for a new element is always
found.
-/

namespace Tarako

namespace Alarm

open Lines Strtok Text

/-! ### The code -/

def bar : UInt8 := 124

/-- An element of `g_alarm_db_list`. -/
structure DbItem where
  id : ℤ
  hour : ℤ
  min : ℤ
  dayofweek : ℤ
  time : ℤ
  enable : ℤ
  vibrate : ℤ
  message : List UInt8
  alert : List UInt8
  deriving DecidableEq, Repr

/-- What `strncpy` writes for the string at `src`. -/
def strncpy (src : List UInt8) (n : ℕ) : List UInt8 := (cstring src ++ List.replicate n 0).take n

/-- `parse_db_item`; `none` when `atoi` or `strncpy` is given no text. -/
def parseDbItem (dbBuf : List UInt8) : Option DbItem := do
  let buf := cstring (strncpy dbBuf 1024)
  let (id, s) ← next bar buf
  let (hour, s) ← next bar s
  let (min, s) ← next bar s
  let (dayofweek, s) ← next bar s
  let (time, s) ← next bar s
  let (enable, s) ← next bar s
  let (vibrate, s) ← next bar s
  let (token, s) ← next bar s
  let message := strncpy token 512
  let (message, alert) := match next bar s with
    | none => (List.replicate 512 0, strncpy message 512)
    | some (tmp, _) => (message, strncpy tmp 512)
  return {
    id := atoi32 id
    hour := atoi32 hour
    min := atoi32 min
    dayofweek := atoi32 dayofweek
    time := atoi32 time
    enable := atoi32 enable
    vibrate := atoi32 vibrate
    message
    alert }

/-- `add_alarm_db_list` on what the pipe gives, or `none` if it cannot be opened. -/
def addAlarmDbList (fp : Option (List UInt8)) (dbList : List DbItem) :
    Option (ℤ × List DbItem) :=
  match fp with
  | none => some (-1, dbList)
  | some text => do
      let dbList ← (fgets 1023 text).foldlM
        (fun dbList dbItem => do return dbList ++ [← parseDbItem dbItem]) dbList
      return (0, dbList)

/-! ### The table -/

structure Columns where
  id : ℤ
  hour : ℤ
  minutes : ℤ
  daysofweek : ℤ
  time : ℤ
  enabled : ℤ
  vibrate : ℤ
  label : List UInt8
  uri : List UInt8
  deriving DecidableEq, Repr

namespace Columns

variable (row : Columns)

def ints : List ℤ :=
  [row.id, row.hour, row.minutes, row.daysofweek, row.time, row.enabled, row.vibrate]

def text : List UInt8 :=
  Fields.join bar (row.ints.map decimalInt) (row.label ++ bar :: row.uri)

end Columns

/-- A row that fits the buffers. -/
structure Row extends Columns where
  label_text : ∀ b ∈ label, b ≠ 0 ∧ b ≠ newline
  label_length : label.length < 500
  uri_text : ∀ b ∈ uri, b ≠ 0 ∧ b ≠ newline ∧ b ≠ bar
  uri_length : uri.length < 500
  text_length : toColumns.text.length < 1023

/-- What `sqlite3` prints for a table. -/
def printed (rows : List Row) : List UInt8 := rows.flatMap fun row => row.text ++ [newline]

def DbItem.ints (item : DbItem) : List ℤ :=
  [item.id, item.hour, item.min, item.dayofweek, item.time, item.enable, item.vibrate]

/-- The element has the columns of the row; its alert may end with the newline. -/
structure Kept (row : Row) (item : DbItem) : Prop where
  ints : item.ints = row.ints
  message : cstring item.message = row.label
  alert : cstring item.alert = row.uri ∨ cstring item.alert = row.uri ++ [newline]

/-- The table is read: one element for each row, in their order, and no text is missing. -/
def Loaded (rows : List Row) : Prop :=
  ∀ dbList, ∃ items, addAlarmDbList (some (printed rows)) dbList = some (0, dbList ++ items) ∧
    List.Forall₂ Kept rows items

/-! ### Strings -/

theorem cstring_strncpy {src : List UInt8} {n : ℕ} (h : 0 ∉ src) (hn : src.length < n) :
    cstring (strncpy src n) = src := by
  obtain ⟨k, hk⟩ : ∃ k, n - src.length = k + 1 := ⟨n - src.length - 1, by omega⟩
  have htake : strncpy src n = src ++ List.replicate (k + 1) 0 := by
    rw [strncpy, cstring_of_not_mem h, List.take_append, List.take_of_length_le (by omega), hk,
      List.take_replicate, Nat.min_eq_left (by omega)]
  rw [htake, cstring_append_of_not_mem h, List.replicate_succ]
  exact List.append_nil src

theorem strncpy_strncpy {src : List UInt8} {n : ℕ} (h : 0 ∉ src) (hn : src.length < n) :
    strncpy (strncpy src n) n = strncpy src n := by
  rw [strncpy, cstring_strncpy h hn, strncpy, cstring_of_not_mem h]

theorem not_mem_cstring_strncpy {c : UInt8} (hc : c ≠ 0) {src : List UInt8} (h : c ∉ src)
    (n : ℕ) : c ∉ cstring (strncpy src n) := by
  intro hmem
  have hin := List.mem_of_mem_take ((List.takeWhile_prefix _).subset hmem)
  rcases List.mem_append.mp hin with hin | hin
  · exact h ((List.takeWhile_prefix _).subset hin)
  · exact hc (List.eq_of_mem_replicate hin)

theorem cstring_replicate_zero (n : ℕ) : cstring (List.replicate n 0) = [] := by
  cases n <;> rfl

/-! ### A row -/

theorem bar_not_mem_decimalInt (n : ℤ) : bar ∉ decimalInt n := by
  intro h
  rcases mem_decimalInt h with h | h
  · exact absurd h (by decide)
  · exact absurd h (by decide)

theorem next_decimalInt (n : ℤ) (rest : List UInt8) :
    next bar (decimalInt n ++ bar :: rest) = some (decimalInt n, rest) :=
  next_append (List.ne_nil_of_length_pos (length_decimalInt_pos n)) (bar_not_mem_decimalInt n) rest

theorem atoi32_decimalInt_iff (n : ℤ) :
    atoi32 (decimalInt n) = n ↔ -2 ^ 31 ≤ n ∧ n < 2 ^ 31 := by
  constructor
  · intro h
    rw [← h]
    exact atoi32_mem_range _
  · intro h
    have hread := atoi32_decimalInt_append h (m := []) (by simp)
    rwa [List.append_nil] at hread

namespace Row

variable (row : Row)

def texts : List UInt8 := row.label ++ bar :: (row.uri ++ [newline])

theorem text_newline : row.text ++ [newline] =
    decimalInt row.id ++ bar :: (decimalInt row.hour ++ bar :: (decimalInt row.minutes ++ bar ::
      (decimalInt row.daysofweek ++ bar :: (decimalInt row.time ++ bar ::
        (decimalInt row.enabled ++ bar :: (decimalInt row.vibrate ++ bar :: row.texts)))))) := by
  simp [Columns.text, Columns.ints, texts, Fields.join]

theorem not_mem_text {c : UInt8} (hc : c = 0 ∨ c = newline) : c ∉ row.text := by
  intro h
  rcases Fields.mem_join h with hbar | ⟨f, hf, hmem⟩ | hlast
  · rcases hc with rfl | rfl <;> exact absurd hbar (by decide)
  · obtain ⟨n, -, rfl⟩ := List.mem_map.mp hf
    rcases hc with rfl | rfl <;> rcases mem_decimalInt hmem with h | h <;>
      exact absurd h (by decide)
  · rw [List.mem_append, List.mem_cons] at hlast
    rcases hlast with h | h | h
    · have htext := row.label_text c h
      rcases hc with rfl | rfl
      · exact htext.1 rfl
      · exact htext.2 rfl
    · rcases hc with rfl | rfl <;> exact absurd h (by decide)
    · have htext := row.uri_text c h
      rcases hc with rfl | rfl
      · exact htext.1 rfl
      · exact htext.2.1 rfl

/-- The end of a line is one token, and `strncpy` keeps all of it. -/
theorem next_uri : next bar (row.uri ++ [newline]) = some (row.uri ++ [newline], []) := by
  refine next_self (by simp) ?_
  rw [List.mem_append, List.mem_singleton]
  rintro (h | h)
  · exact (row.uri_text bar h).2.2 rfl
  · exact absurd h (by decide)

theorem zero_not_mem_uri : 0 ∉ row.uri ++ [newline] := by
  rw [List.mem_append, List.mem_singleton]
  rintro (h | h)
  · exact (row.uri_text 0 h).1 rfl
  · exact absurd h (by decide)

theorem length_uri_lt : (row.uri ++ [newline]).length < 512 := by
  have h := row.uri_length
  rw [List.length_append, List.length_singleton]
  omega

theorem cstring_strncpy_uri : cstring (strncpy (row.uri ++ [newline]) 512) = row.uri ++ [newline] :=
  cstring_strncpy row.zero_not_mem_uri row.length_uri_lt

theorem message_ne_label (hbar : bar ∈ row.label) {token s : List UInt8}
    (hnext : next bar row.texts = some (token, s)) :
    cstring (strncpy token 512) ≠ row.label ∧ cstring (List.replicate 512 0) ≠ row.label := by
  constructor
  · intro h
    have hnot : bar ∉ cstring (strncpy token 512) :=
      not_mem_cstring_strncpy (by decide) (not_mem_of_next hnext) 512
    exact hnot (h ▸ hbar)
  · rw [cstring_replicate_zero]
    intro h
    rw [← h] at hbar
    cases hbar

theorem exists_texts : ∃ token s message alert, next bar row.texts = some (token, s) ∧
    (match next bar s with
      | none => (List.replicate 512 0, strncpy (strncpy token 512) 512)
      | some (tmp, _) => (strncpy token 512, strncpy tmp 512)) = (message, alert) ∧
    (cstring message = row.label ↔ bar ∉ row.label) ∧
    (bar ∉ row.label → cstring alert = row.uri ++ [newline]) := by
  by_cases hbar : bar ∈ row.label
  · obtain ⟨token, s, hnext⟩ : ∃ token s, next bar row.texts = some (token, s) :=
      exists_next (b := newline) (by simp [texts]) (by decide)
    obtain ⟨hmessage, hzero⟩ := row.message_ne_label hbar hnext
    have hnot : ¬ bar ∉ row.label := not_not_intro hbar
    cases hrest : next bar s with
    | none => exact ⟨token, s, _, _, hnext, by rw [hrest], iff_of_false hzero hnot, absurd hbar⟩
    | some tmp =>
      exact ⟨token, s, _, _, hnext, by rw [hrest], iff_of_false hmessage hnot, absurd hbar⟩
  · by_cases hlabel : row.label = []
    · -- the only token is the alert
      have hnext : next bar row.texts = some (row.uri ++ [newline], []) := by
        rw [texts, hlabel, List.nil_append, next_cons_self, next_uri]
      refine ⟨_, _, _, _, hnext, rfl, iff_of_true ?_ hbar, fun _ => ?_⟩
      · rw [cstring_replicate_zero, hlabel]
      · rw [strncpy_strncpy row.zero_not_mem_uri row.length_uri_lt]
        exact row.cstring_strncpy_uri
    · have hnext : next bar row.texts = some (row.label, row.uri ++ [newline]) :=
        next_append hlabel hbar _
      have hnul : 0 ∉ row.label := fun h => (row.label_text 0 h).1 rfl
      have hmessage : cstring (strncpy row.label 512) = row.label :=
        cstring_strncpy hnul (Nat.lt_trans row.label_length (by decide))
      exact ⟨_, _, _, _, hnext, by rw [next_uri], iff_of_true hmessage hbar,
        fun _ => row.cstring_strncpy_uri⟩

/-- The row can be stored: each number fits an `int`, and no bar is in the label. -/
def Storable : Prop :=
  (∀ n ∈ row.ints, -2 ^ 31 ≤ n ∧ n < 2 ^ 31) ∧ bar ∉ row.label

/-- No text is missing in a line, and its element has the columns of a row that can be
stored. -/
theorem exists_parseDbItem : ∃ item, parseDbItem (row.text ++ [newline]) = some item ∧
    (Kept row item ↔ row.Storable) ∧
    (row.Storable → cstring item.alert = row.uri ++ [newline]) := by
  have hbuf : cstring (strncpy (row.text ++ [newline]) 1024) = row.text ++ [newline] := by
    have hlength := row.text_length
    refine cstring_strncpy ?_ (by rw [List.length_append, List.length_singleton]; omega)
    rw [List.mem_append, List.mem_singleton]
    rintro (h | h)
    · exact row.not_mem_text (Or.inl rfl) h
    · exact absurd h (by decide)
  obtain ⟨token, s, message, alert, htoken, htexts, hmessage, halert⟩ := row.exists_texts
  rw [parseDbItem, hbuf, row.text_newline]
  simp only [next_decimalInt, htoken, htexts, bind, Option.bind, pure]
  refine ⟨_, rfl, ?_, fun h => halert h.2⟩
  have hints : row.ints.map (fun n => atoi32 (decimalInt n)) = row.ints ↔
      ∀ n ∈ row.ints, -2 ^ 31 ≤ n ∧ n < 2 ^ 31 := by
    have hself : row.ints.map (fun n => atoi32 (decimalInt n)) = row.ints.map id ↔
        ∀ n ∈ row.ints, atoi32 (decimalInt n) = id n := List.map_inj_left
    rw [List.map_id] at hself
    rw [hself]
    exact forall₂_congr fun n _ => atoi32_decimalInt_iff n
  constructor
  · intro h
    exact ⟨hints.mp h.ints, hmessage.mp h.message⟩
  · intro h
    exact ⟨hints.mpr h.1, hmessage.mpr h.2, Or.inr (halert h.2)⟩

end Row

/-! ### The whole table -/

theorem fgets_printed (rows : List Row) :
    fgets 1023 (printed rows) = rows.map fun row => row.text ++ [newline] := by
  have hlines : ∀ l ∈ rows.map fun row => row.text, newline ∉ l ∧ l.length < 1023 := by
    intro l hl
    obtain ⟨row, -, rfl⟩ := List.mem_map.mp hl
    exact ⟨row.not_mem_text (Or.inr rfl), row.text_length⟩
  have hread := fgets_lines hlines
  rwa [List.flatMap_map, List.map_map] at hread

theorem foldlM_parseDbItem {item : Row → DbItem}
    (h : ∀ row : Row, parseDbItem (row.text ++ [newline]) = some (item row)) (rows : List Row)
    (dbList : List DbItem) :
    (rows.map fun row => row.text ++ [newline]).foldlM
        (fun dbList dbItem => do return dbList ++ [← parseDbItem dbItem]) dbList
      = some (dbList ++ rows.map item) := by
  induction rows generalizing dbList with
  | nil => simp
  | cons row rows ih =>
    rw [List.map_cons, List.foldlM_cons, h row, List.map_cons, List.append_cons]
    exact ih (dbList ++ [item row])

/-- Whatever the labels are, a table gives one element for each row, in their order. -/
theorem exists_addAlarmDbList : ∃ item : Row → DbItem,
    (∀ rows dbList, addAlarmDbList (some (printed rows)) dbList
      = some (0, dbList ++ rows.map item)) ∧
    (∀ row, Kept row (item row) ↔ row.Storable) ∧
    ∀ row, row.Storable → cstring (item row).alert = row.uri ++ [newline] := by
  choose item hparse hkept halert using Row.exists_parseDbItem
  refine ⟨item, fun rows dbList => ?_, hkept, halert⟩
  rw [addAlarmDbList]
  simp only [fgets_printed, foldlM_parseDbItem hparse rows]
  rfl

/-- A table is read with all its columns exactly when each row can be stored. -/
theorem loaded_iff (rows : List Row) : Loaded rows ↔ ∀ row ∈ rows, row.Storable := by
  obtain ⟨item, hload, hkept, -⟩ := exists_addAlarmDbList
  have hforall : List.Forall₂ Kept rows (rows.map item) ↔ ∀ row ∈ rows, row.Storable := by
    rw [List.forall₂_map_right_iff, List.forall₂_same]
    exact forall₂_congr fun row _ => hkept row
  constructor
  · intro h
    obtain ⟨items, hitems, hall⟩ := h []
    rw [hload] at hitems
    obtain rfl : rows.map item = items := by simpa using hitems
    exact hforall.mp hall
  · intro h dbList
    exact ⟨rows.map item, hload rows dbList, hforall.mpr h⟩

/-- An alarm at half past seven with the label `a|b`. -/
def barRow : Row where
  id := 1
  hour := 7
  minutes := 30
  daysofweek := 0
  time := 0
  enabled := 1
  vibrate := 1
  label := [97, bar, 98]
  uri := [117]
  label_text := forall_mem_of_all (by decide)
  label_length := by decide
  uri_text := forall_mem_of_all (by decide)
  uri_length := by decide
  text_length := by decide +kernel

/-- The message is `a` and the alert `b`. -/
theorem not_loaded_barRow : ¬ Loaded [barRow] := by
  obtain ⟨item, hload, hkept, -⟩ := exists_addAlarmDbList
  intro h
  obtain ⟨items, hitems, hall⟩ := h []
  rw [hload] at hitems
  obtain rfl : [item barRow] = items := by simpa using hitems
  have hstorable := (hkept barRow).mp (List.forall₂_cons.mp hall).1
  exact hstorable.2 (by decide)

end Alarm

end Tarako
