import Tarako.Lib.Splice
import Tarako.Slog.ParseConf

/-!
# The answer to a query

For `CTRL_CMD_TYPE_QUERY` the configuration is printed into `slog_cmd.content`, call after call
of `sprintf` and without a look at the room that is left. `answersQuery_iff` says for which
configurations it fits, by the lengths of the entries.
-/

namespace Tarako

namespace Slog

open Text Splice

/-- The texts of the calls of `sprintf` in `gen_config_string`; the first call prints the first
two of them. -/
def configLines (s : Globals) (misc : SlogInfo) : List (List UInt8) :=
  (headerLines s).map (· ++ [Lines.newline]) ++ s.streamLogHead.map streamLine ++
    [miscLine misc] ++ s.snapshotLogHead.map snapLine ++ s.notifyLogHead.map notifyLine

/-- `off += sprintf(buffer + off, …)` for each text; no result when a text and its NUL leave
the array. -/
def sprintfAll {n : ℕ} : Bytes n → ℕ → List (List UInt8) → Option (Bytes n)
  | buffer, _, [] => some buffer
  | buffer, off, line :: lines =>
      (buffer.write? off (line ++ [0])).bind fun buffer =>
        sprintfAll buffer (off + line.length) lines

/-- `gen_config_string(cmd.content)`. -/
def queryContent (s : Globals) (content : Bytes MAX_LINE_LEN) : Option (Bytes MAX_LINE_LEN) :=
  s.miscLog.bind fun misc => sprintfAll content 0 (configLines s misc)

/-- The text of the configuration is the string in `content` afterwards. -/
def AnswersQuery (s : Globals) (content : Bytes MAX_LINE_LEN) : Prop :=
  ∃ content' text, queryContent s content = some content' ∧ genConfigString s = some text ∧
    cstring content'.bytes = text

/-! ## Lengths -/

def streamLength (info : SlogInfo) : ℕ :=
  info.name.length + info.state.text.length + (decimalInt info.maxSize).length +
    (decimalInt info.level).length + 11

def miscLength (info : SlogInfo) : ℕ :=
  info.name.length + info.state.text.length + (decimalInt info.maxSize).length +
    (decimalInt info.level).length + 9

def snapLength (info : SlogInfo) : ℕ :=
  info.name.length + info.opt.length + (decimalInt info.level).length +
    (decimalInt info.interval).length + info.content.length + 10

def notifyLength (info : SlogInfo) : ℕ :=
  info.name.length + (decimalInt info.level).length + info.content.length + 10

/-- The length of a path, where `none` is a null pointer. -/
def pathLength (s : Globals) : Option LogPath → ℕ
  | some .internal => 10
  | some .external => s.externalStorage.text.length
  | none => 6

def headerLength (s : Globals) : ℕ :=
  pathLength s s.currentLogPath + pathLength s (some s.configLogPath) +
    s.externalStorage.text.length + 158

def reportLength (s : Globals) : ℕ :=
  headerLength s + (s.streamLogHead.map streamLength).sum +
    (s.miscLog.toList.map miscLength).sum + (s.snapshotLogHead.map snapLength).sum +
    (s.notifyLogHead.map notifyLength).sum

theorem length_streamLine (info : SlogInfo) : (streamLine info).length = streamLength info := by
  simp only [streamLine, Fields.join_cons, Fields.join_nil, List.length_append, List.length_cons,
    List.length_nil, streamLength]
  have hkey : STREAM.length = 6 := rfl
  omega

theorem length_miscLine (info : SlogInfo) : (miscLine info).length = miscLength info := by
  simp only [miscLine, Fields.join_cons, Fields.join_nil, List.length_append, List.length_cons,
    List.length_nil, miscLength]
  have hkey : MISC.length = 4 := rfl
  omega

theorem length_snapLine (info : SlogInfo) : (snapLine info).length = snapLength info := by
  simp only [snapLine, Fields.join_cons, Fields.join_nil, List.length_append, List.length_cons,
    List.length_nil, snapLength]
  have hkey : SNAP.length = 4 := rfl
  omega

theorem length_notifyLine (info : SlogInfo) : (notifyLine info).length = notifyLength info := by
  simp only [notifyLine, Fields.join_cons, Fields.join_nil, List.length_append, List.length_cons,
    List.length_nil, notifyLength]
  have hkey : NOTIFY.length = 6 := rfl
  omega

theorem length_logPathText (s : Globals) (path : Option LogPath) :
    (logPathText s path).length = pathLength s path := by
  rcases path with - | - | -
  · rfl
  · rfl
  · rfl

theorem length_flagText (flag : Bool) : (flagText flag).length = 1 := by
  rcases flagText_eq flag with h | h
  · rw [h]
    rfl
  · rw [h]
    rfl

theorem length_headerLines (s : Globals) :
    ((headerLines s).map (· ++ [Lines.newline])).flatten.length = headerLength s := by
  have hstate : (decimalInt s.slogEnable.value).length = 1 := by
    cases s.slogEnable <;> rfl
  have hstorage : pathLength s (some .external) = s.externalStorage.text.length := rfl
  have hinternal : pathLength s (some .internal) = 10 := rfl
  simp only [headerLines, List.map_cons, List.map_nil, List.flatten_cons, List.flatten_nil,
    List.length_append, List.length_cons, List.length_nil, Fields.join_cons, Fields.join_nil,
    length_flagText, length_logPathText, hstate, hstorage, hinternal, ofAscii, headerLength]
  omega

theorem flatten_configLines {s : Globals} {misc : SlogInfo} (hmisc : s.miscLog = some misc) :
    genConfigString s = some (configLines s misc).flatten := by
  rw [genConfigString, hmisc, Option.map_some, configLines]
  simp only [List.flatten_append, List.flatMap, List.flatten_cons, List.flatten_nil,
    List.append_nil]

theorem length_flatten_map {line : SlogInfo → List UInt8} {length : SlogInfo → ℕ}
    (h : ∀ info, (line info).length = length info) (infos : List SlogInfo) :
    (infos.map line).flatten.length = (infos.map length).sum := by
  rw [List.length_flatten, List.map_map]
  congr 1
  exact List.map_congr_left fun info _ => h info

theorem length_configLines {s : Globals} {misc : SlogInfo} (hmisc : s.miscLog = some misc) :
    (configLines s misc).flatten.length = reportLength s := by
  simp only [configLines, List.flatten_append, List.length_append, length_headerLines,
    length_flatten_map length_streamLine, length_flatten_map length_snapLine,
    length_flatten_map length_notifyLine, List.flatten_singleton, length_miscLine, reportLength,
    hmisc, Option.toList_some, List.map_cons, List.map_nil, List.sum_singleton]

/-! ## Printing into an array -/

section Print

variable {n off : ℕ} {buffer buffer' : Bytes n} {lines : List (List UInt8)}

theorem exists_sprintfAll_iff (hne : lines ≠ []) :
    (∃ buffer', sprintfAll buffer off lines = some buffer') ↔
      off + lines.flatten.length < n := by
  induction lines generalizing buffer off with
  | nil => exact absurd rfl hne
  | cons line lines ih =>
      have hwrite : off + (line.length + 1) ≤ n →
          ∃ buffer₁, buffer.write? off (line ++ [0]) = some buffer₁ := by
        intro hfits
        rw [← Option.ne_none_iff_exists', Ne, Buffer.write?_eq_none_iff, List.length_append,
          List.length_singleton]
        omega
      have hroom : ∀ {buffer₁}, buffer.write? off (line ++ [0]) = some buffer₁ →
          off + (line.length + 1) ≤ n := by
        intro buffer₁ h
        have hfits := ((Buffer.write?_eq_some_iff _ _ _ _).mp h).1
        rwa [List.length_append] at hfits
      simp only [sprintfAll, Option.bind_eq_some_iff, List.flatten_cons, List.length_append]
      by_cases hnil : lines = []
      · rw [hnil, List.flatten_nil, List.length_nil]
        constructor
        · rintro ⟨buffer', buffer₁, h, -⟩
          have hfits := hroom h
          omega
        · intro hlt
          obtain ⟨buffer₁, h⟩ := hwrite (by omega)
          exact ⟨buffer₁, buffer₁, h, rfl⟩
      · constructor
        · rintro ⟨buffer', buffer₁, -, h⟩
          have hlt := (ih hnil).mp ⟨buffer', h⟩
          omega
        · intro hlt
          obtain ⟨buffer₁, h₁⟩ := hwrite (by omega)
          obtain ⟨buffer', h⟩ : ∃ buffer', sprintfAll buffer₁ (off + line.length) lines =
              some buffer' := (ih hnil).mpr (by omega)
          exact ⟨buffer', buffer₁, h₁, h⟩

theorem take_of_sprintfAll (hne : lines ≠ []) (h : sprintfAll buffer off lines = some buffer') :
    buffer'.bytes.take (off + lines.flatten.length + 1) =
      buffer.bytes.take off ++ (lines.flatten ++ [0]) := by
  induction lines generalizing buffer off with
  | nil => exact absurd rfl hne
  | cons line lines ih =>
      obtain ⟨buffer₁, hwrite, hrest⟩ := Option.bind_eq_some_iff.mp h
      obtain ⟨hfits, hbytes⟩ := (Buffer.write?_eq_some_iff _ _ _ _).mp hwrite
      have hoff : off ≤ buffer.bytes.length := by
        rw [buffer.size_eq]
        omega
      have htake := @take_splice _ buffer.bytes (line ++ [0]) off hoff
      rw [← hbytes, List.length_append, List.length_singleton] at htake
      by_cases hnil : lines = []
      · subst hnil
        cases hrest
        rw [List.flatten_singleton, Nat.add_assoc, htake]
      · have hline : buffer₁.bytes.take (off + line.length) = buffer.bytes.take off ++ line := by
          calc buffer₁.bytes.take (off + line.length)
              = (buffer₁.bytes.take (off + (line.length + 1))).take (off + line.length) := by
                rw [List.take_take, Nat.min_eq_left (by omega)]
            _ = (buffer.bytes.take off ++ line ++ [0]).take (off + line.length) := by
                rw [htake, List.append_assoc]
            _ = buffer.bytes.take off ++ line := by
                refine List.take_left' ?_
                rw [List.length_append, List.length_take_of_le hoff]
        have hlines := ih hnil hrest
        rw [hline] at hlines
        rw [List.flatten_cons, List.length_append, ← Nat.add_assoc off, hlines]
        simp only [List.append_assoc]

end Print

theorem configLines_ne_nil (s : Globals) (misc : SlogInfo) : configLines s misc ≠ [] := by
  rw [configLines]
  simp

/-- The configuration fits exactly when its report leaves room for the NUL. -/
theorem exists_queryContent_iff (s : Globals) (content : Bytes MAX_LINE_LEN) :
    (∃ content', queryContent s content = some content') ↔
      s.miscLog.isSome ∧ reportLength s < MAX_LINE_LEN := by
  rw [queryContent]
  cases hmisc : s.miscLog with
  | none => simp
  | some misc =>
      rw [Option.bind_some, exists_sprintfAll_iff (configLines_ne_nil s misc),
        length_configLines hmisc]
      simp

theorem zero_not_mem_line {fs : List (List UInt8)} {last : List UInt8}
    (hfs : ∀ f ∈ fs, Token f) (hlast : 0 ∉ last) :
    0 ∉ Fields.join tab fs last ++ [Lines.newline] := by
  have hjoin : 0 ∉ Fields.join tab fs last :=
    not_mem_join (by decide) (fun f hf => (hfs f hf).zero_not_mem) hlast
  rw [List.mem_append, not_or]
  exact ⟨hjoin, by decide⟩

theorem zero_not_mem_streamLine {info : SlogInfo} (h : IsStream info) : 0 ∉ streamLine info := by
  obtain @⟨name, state, maxSize, level, hname, -, -⟩ := h
  exact zero_not_mem_line (@token_entryFields STREAM token_keys.1 _ hname)
    (token_decimalInt level).zero_not_mem

theorem zero_not_mem_miscLine {info : SlogInfo} (h : IsMisc info) : 0 ∉ miscLine info := by
  obtain @⟨name, state, maxSize, level, hname, -, -⟩ := h
  exact zero_not_mem_line (@token_entryFields MISC token_keys.2.1 _ hname)
    (token_decimalInt level).zero_not_mem

theorem zero_not_mem_snapLine {info : SlogInfo} (h : IsSnap info) : 0 ∉ snapLine info := by
  obtain @⟨name, opt, content, level, interval, hname, hopt, -, -, hcontent⟩ := h
  exact zero_not_mem_line (token_snapFields hname hopt level interval) hcontent.zero_not_mem

theorem zero_not_mem_notifyLine {info : SlogInfo} (h : IsNotify info) :
    0 ∉ notifyLine info := by
  obtain @⟨name, content, level, hname, -, hcontent⟩ := h
  exact zero_not_mem_line (token_notifyFields hname level) hcontent.zero_not_mem

theorem zero_not_mem_configLines {s : Globals} (hs : s.Printable) {misc : SlogInfo}
    (hmisc : s.miscLog = some misc) : 0 ∉ (configLines s misc).flatten := by
  rw [List.mem_flatten]
  rintro ⟨line, hline, hzero⟩
  simp only [configLines, List.mem_append, List.mem_map, List.mem_singleton] at hline
  rcases hline with (((⟨header, hheader, rfl⟩ | ⟨info, hinfo, rfl⟩) | rfl) | ⟨info, hinfo, rfl⟩) |
    ⟨info, hinfo, rfl⟩
  · rcases List.mem_append.mp hzero with h | h
    · exact (headerLine_of_mem hheader).zero_not_mem h
    · exact absurd h (by decide)
  · exact zero_not_mem_streamLine (hs.stream info hinfo) hzero
  · exact zero_not_mem_miscLine (hs.misc misc hmisc) hzero
  · exact zero_not_mem_snapLine (hs.snap info hinfo) hzero
  · exact zero_not_mem_notifyLine (hs.notify info hinfo) hzero

/-- The report of a configuration that has been accepted is the string in `content` exactly when
there is a `misc` entry and the lengths of the entries add up to less than the array has. -/
theorem answersQuery_iff {s₀ s : Globals} (hs₀ : s₀.Printable) {text : List UInt8}
    (hparse : parseConfig s₀ text = some (s, 0)) (content : Bytes MAX_LINE_LEN) :
    AnswersQuery s content ↔ s.miscLog.isSome ∧ reportLength s < MAX_LINE_LEN := by
  have hs := printable_parseConfig hs₀ hparse
  rw [← exists_queryContent_iff s content]
  constructor
  · rintro ⟨content', out, hquery, -, -⟩
    exact ⟨content', hquery⟩
  · rintro ⟨content', hquery⟩
    obtain ⟨misc, hmisc, hprint⟩ := Option.bind_eq_some_iff.mp hquery
    refine ⟨content', _, hquery, flatten_configLines hmisc, ?_⟩
    have htake := take_of_sprintfAll (configLines_ne_nil s misc) hprint
    rw [List.take_zero, List.nil_append] at htake
    have hzero := zero_not_mem_configLines hs hmisc
    rw [← List.take_append_drop (0 + (configLines s misc).flatten.length + 1) content'.bytes,
      htake, List.append_assoc, cstring_append_of_not_mem hzero]
    exact List.append_nil _

theorem answersQuery_shortConf : AnswersQuery shortConf (Buffer.fill MAX_LINE_LEN 0) := by
  have hparse : parseConfig Globals.start shortText = some (shortConf, 0) := rfl
  exact (answersQuery_iff empty_start.printable hparse _).mpr ⟨rfl, by decide⟩

/-- Every line is shorter than `MAX_LINE_LEN` and there is a `misc` entry, and the header and
the one `stream` entry are too long together. -/
theorem not_answersQuery_longStream :
    ¬ ∀ (s₀ s : Globals) (text : List UInt8) (content : Bytes MAX_LINE_LEN), s₀.Empty →
      (∀ line ∈ Lines.fgets (MAX_LINE_LEN - 1) text, line.getLast? = some Lines.newline) →
      parseConfig s₀ text = some (s, 0) → s.miscLog.isSome → AnswersQuery s content := by
  intro h
  obtain ⟨content', out, hquery, -, -⟩ := h _ _ _ (Buffer.fill MAX_LINE_LEN 0) empty_start
    (fun _ hline => getLast?_of_mem_fgets_longStream hline) parseConfig_longStream rfl
  have hlen := ((exists_queryContent_iff _ _).mp ⟨content', hquery⟩).2
  have hbuf : MAX_LINE_LEN = 2048 := rfl
  simp only [reportLength, headerLength, List.map_cons, List.map_nil, List.sum_singleton,
    streamLength, streamInfo, length_longName] at hlen
  omega

end Slog

end Tarako
