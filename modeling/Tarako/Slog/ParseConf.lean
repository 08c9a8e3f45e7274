import Tarako.Lib.Fields
import Tarako.Lib.Lines
import Tarako.Lib.Text

/-!
# The configuration of `slog`

`parse_config` reads a configuration line by line into lists of entries, and
`gen_config_string` prints the entries as such lines again. A new entry goes behind the
head of its list, so that a round trip keeps the head and turns the rest around.
-/

namespace Tarako

namespace Slog

open Text

def MAX_LINE_LEN : ℕ := 2048

def MAX_NAME_LEN : ℕ := 128

inductive SlogState
  | on
  | off
deriving DecidableEq

def SLOG_TYPE_STREAM : ℕ := 0x1

def SLOG_TYPE_MISC : ℕ := 0x1 <<< 1

def SLOG_TYPE_SNAPSHOT : ℕ := 0x1 <<< 2

def SLOG_TYPE_NOTIFY : ℕ := 0x1 <<< 3

/-- `struct slog_info`; a text that is not set is empty. -/
structure SlogInfo where
  type : ℕ
  state : SlogState
  level : ℤ
  interval : ℤ
  opt : List UInt8
  maxSize : ℤ
  name : List UInt8
  logPath : List UInt8
  logBasename : List UInt8
  content : List UInt8
deriving DecidableEq

def SlogInfo.calloc : SlogInfo := ⟨0, .on, 0, 0, [], 0, [], [], [], []⟩

/-- `slog_enable`, with the values of `SLOG_DISABLE`, `SLOG_ENABLE` and
`SLOG_LOW_POWER`. -/
inductive SlogEnable
  | disable
  | enable
  | lowPower
deriving DecidableEq

def SlogEnable.value : SlogEnable → ℤ
  | disable => 0
  | enable => 1
  | lowPower => 2

inductive LogPath
  | internal
  | external
deriving DecidableEq

/-- `external_storage`, a path from the environment. -/
structure StoragePath where
  text : List UInt8
  fits : text.length < MAX_NAME_LEN
  newline_not_mem : Lines.newline ∉ text
  zero_not_mem : 0 ∉ text

/-- The flags `stream_log_handler_started`, … in the order of `gen_config_string`. -/
structure Started where
  stream : Bool
  snapshot : Bool
  notify : Bool
  bt : Bool
  tcp : Bool
  modem : Bool

/-- The globals of `slog` that the configuration sets or that are printed with it. -/
structure Globals where
  slogEnable : SlogEnable
  configLogPath : LogPath
  currentLogPath : Option LogPath
  screenshotEnable : Bool
  slogSaveAll : Bool
  streamLogHead : List SlogInfo
  snapshotLogHead : List SlogInfo
  notifyLogHead : List SlogInfo
  miscLog : Option SlogInfo
  externalStorage : StoragePath
  started : Started

def tab : UInt8 := 9

def STREAM : List UInt8 := ofAscii ['s', 't', 'r', 'e', 'a', 'm']

def MISC : List UInt8 := ofAscii ['m', 'i', 's', 'c']

def SNAP : List UInt8 := ofAscii ['s', 'n', 'a', 'p']

def NOTIFY : List UInt8 := ofAscii ['n', 'o', 't', 'i', 'f', 'y']

def VAR : List UInt8 := ofAscii ['v', 'a', 'r']

def ON : List UInt8 := ofAscii ['o', 'n']

def OFF : List UInt8 := ofAscii ['o', 'f', 'f']

/-- `info->next = head->next; head->next = info`, or a new head. -/
def insertEntry {α : Type*} : List α → α → List α
  | [], info => [info]
  | head :: next, info => head :: info :: next

/-! ## `parse_config` -/

/-- The fields that calls of `parse_string` find, and the rest of the line. -/
def parseStrings (n : ℕ) (type : List UInt8) : Option (List (List UInt8) × List UInt8) :=
  Fields.split tab n type

/-- A `content` loses a newline at its end; there is no byte before the end of an
empty one. -/
def stripNewline (content : List UInt8) : Option (List UInt8) :=
  if content = [] then none
  else if content.getLast? = some Lines.newline then some content.dropLast
  else some content

/-- `log_path` of a stream; the last comparison takes two characters of `"tcp"`. -/
def streamLogPath (name : List UInt8) : List UInt8 :=
  if ofAscii ['k', 'e', 'r', 'n', 'e', 'l'] <+: name then ofAscii ['k', 'e', 'r', 'n', 'e', 'l']
  else if ofAscii ['m', 'o', 'd', 'e', 'm'] <+: name then ofAscii ['m', 'o', 'd', 'e', 'm']
  else if ofAscii ['b', 't'] <+: name then ofAscii ['b', 't']
  else if ofAscii ['t', 'c'] <+: name then ofAscii ['t', 'c', 'p']
  else ofAscii ['a', 'n', 'd', 'r', 'o', 'i', 'd']

def streamInfo (name : List UInt8) (state : SlogState) (maxSize level : ℤ) : SlogInfo :=
  { SlogInfo.calloc with
    type := SLOG_TYPE_STREAM
    name, state, maxSize, level
    logPath := streamLogPath name
    logBasename := name }

def miscInfo (name : List UInt8) (state : SlogState) (maxSize level : ℤ) : SlogInfo :=
  { SlogInfo.calloc with type := SLOG_TYPE_MISC, name, state, maxSize, level }

def snapInfo (name opt : List UInt8) (level interval : ℤ) (content : List UInt8) : SlogInfo :=
  { SlogInfo.calloc with
    type := SLOG_TYPE_SNAPSHOT ||| SLOG_TYPE_MISC
    name, opt, level, interval, content
    logPath := MISC
    logBasename := name }

def notifyInfo (name : List UInt8) (level : ℤ) (content : List UInt8) : SlogInfo :=
  { SlogInfo.calloc with
    type := SLOG_TYPE_NOTIFY ||| SLOG_TYPE_MISC
    name, level, content
    logPath := MISC
    logBasename := name }

/-- The globals after a line and what the function returns; no result when it reads
before a text. -/
abbrev Parsed := Option (Globals × ℤ)

def parse3Entries (s : Globals) (type : List UInt8) : Parsed :=
  match parseStrings 2 type with
  | some ([_, name], pos3) =>
      if ofAscii ['l', 'o', 'g', 'p', 'a', 't', 'h'] <+: name then
        let path := if ofAscii ['i', 'n', 't', 'e', 'r', 'n', 'a', 'l'] <+: pos3 then
          LogPath.internal else LogPath.external
        some ({ s with configLogPath := path, currentLogPath := some path }, 0)
      else if ofAscii ['s', 'c', 'r', 'e', 'e', 'n', 's', 'h', 'o', 't'] <+: name then
        some ({ s with
          screenshotEnable := (ofAscii ['e', 'n', 'a', 'b', 'l', 'e']).isPrefixOf pos3 }, 0)
      else if ofAscii ['s', 'l', 'o', 'g', 's', 'a', 'v', 'e', 'a', 'l', 'l'] <+: name then
        some ({ s with slogSaveAll := ON.isPrefixOf pos3 }, 0)
      else some (s, 0)
  | _ => some (s, -1)

def parse4Entries (s : Globals) (type : List UInt8) : Parsed :=
  match parseStrings 3 type with
  | some ([type, name, pos3], pos4) =>
      if NOTIFY <+: type then
        (stripNewline pos4).map fun content =>
          ({ s with
            notifyLogHead :=
              insertEntry s.notifyLogHead (notifyInfo name (atoi32 pos3) content) }, 0)
      else some (s, 0)
  | _ => some (s, -1)

def parse5Entries (s : Globals) (type : List UInt8) : Parsed :=
  match parseStrings 4 type with
  | some ([type, name, pos3, pos4], pos5) =>
      if STREAM <+: type then
        -- everything but "on" is off
        let state := if ON <+: pos3 then SlogState.on else SlogState.off
        some ({ s with
          streamLogHead := insertEntry s.streamLogHead
            (streamInfo name state (atoi32 pos4) (atoi32 pos5)) }, 0)
      else if MISC <+: type then
        -- everything but "off" is on
        let state := if OFF <+: pos3 then SlogState.off else SlogState.on
        some ({ s with miscLog := some (miscInfo name state (atoi32 pos4) (atoi32 pos5)) }, 0)
      else some (s, 0)
  | _ => some (s, -1)

def parse6Entries (s : Globals) (type : List UInt8) : Parsed :=
  match parseStrings 5 type with
  | some ([type, name, pos3, pos4, pos5], pos6) =>
      if SNAP <+: type then
        (stripNewline pos6).map fun content =>
          ({ s with
            snapshotLogHead := insertEntry s.snapshotLogHead
              (snapInfo name pos3 (atoi32 pos4) (atoi32 pos5) content) }, 0)
      else some (s, 0)
  | _ => some (s, -1)

/-- The new `slog_enable` after a line. -/
def parseEnable (old : SlogEnable) (buffer : List UInt8) : SlogEnable :=
  if ofAscii ['l', 'o', 'w', '_', 'p', 'o', 'w', 'e', 'r'] <+: buffer then .lowPower
  else if ofAscii ['d', 'i', 's', 'a', 'b', 'l', 'e'] <+: buffer then .disable
  else if ofAscii ['e', 'n', 'a', 'b', 'l', 'e'] <+: buffer then .enable
  else old

/-- One turn of the loop of `parse_config`. -/
def parseLine (s : Globals) (buffer : List UInt8) : Parsed :=
  if ofAscii ['#'] <+: buffer then some (s, 0)
  else
    let s := { s with slogEnable := parseEnable s.slogEnable buffer }
    if VAR <+: buffer then parse3Entries s buffer
    else if SNAP <+: buffer then parse6Entries s buffer
    else if STREAM <+: buffer then parse5Entries s buffer
    else if NOTIFY <+: buffer then parse4Entries s buffer
    else if MISC <+: buffer then parse5Entries s buffer
    else some (s, 0)

/-- The loop of `parse_config` over what `fgets` reads. -/
def parseLines (s : Globals) : List (List UInt8) → Parsed
  | [] => some (s, 0)
  | line :: lines =>
      (parseLine s (cstring line)).bind fun r =>
        if r.2 ≠ 0 then some r else parseLines r.1 lines

def parseConfig (s : Globals) (text : List UInt8) : Parsed :=
  parseLines s (Lines.fgets (MAX_LINE_LEN - 1) text)

/-! ## `gen_config_string` -/

def SlogState.text : SlogState → List UInt8
  | on => ON
  | off => OFF

/-- `"stream\t%s\t%s\t%d\t%d\n"`. -/
def streamLine (info : SlogInfo) : List UInt8 :=
  Fields.join tab [STREAM, info.name, info.state.text, decimalInt info.maxSize]
    (decimalInt info.level) ++ [Lines.newline]

/-- `"misc\t%s\t%s\t%d\t%d\n"`. -/
def miscLine (info : SlogInfo) : List UInt8 :=
  Fields.join tab [MISC, info.name, info.state.text, decimalInt info.maxSize]
    (decimalInt info.level) ++ [Lines.newline]

/-- `"snap\t%s\t%s\t%d\t%d\t%s\n"`. -/
def snapLine (info : SlogInfo) : List UInt8 :=
  Fields.join tab
    [SNAP, info.name, info.opt, decimalInt info.level, decimalInt info.interval]
    info.content ++ [Lines.newline]

/-- `"notify\t%s\t%d\t%s\n"`. -/
def notifyLine (info : SlogInfo) : List UInt8 :=
  Fields.join tab [NOTIFY, info.name, decimalInt info.level] info.content ++ [Lines.newline]

/-- `"/data/slog"`, the external storage, or what `printf` prints for a null pointer. -/
def logPathText (s : Globals) : Option LogPath → List UInt8
  | some .internal => ofAscii ['/', 'd', 'a', 't', 'a', '/', 's', 'l', 'o', 'g']
  | some .external => s.externalStorage.text
  | none => ofAscii ['(', 'n', 'u', 'l', 'l', ')']

def flagText (flag : Bool) : List UInt8 := decimal flag.toNat

def headerLines (s : Globals) : List (List UInt8) :=
  [ofAscii ['s', 't', 'a', 't', 'e', ':', ' '] ++ decimalInt s.slogEnable.value,
    ofAscii ['b', 'a', 'c', 'k', 'e', 'n', 'd', ' ', 't', 'h', 'r', 'e', 'a', 'd', 's', '(',
        's', 't', 'r', 'e', 'a', 'm', ' ', 's', 'n', 'a', 'p', 's', 'h', 'o', 't', ' ', 'n', 'o',
        't', 'i', 'f', 'y', ' ', 'b', 't', ' ', 't', 'c', 'p', ' ', 'm', 'o', 'd', 'e', 'm', ')',
        ':', ' '] ++
      Fields.join 32 [flagText s.started.stream, flagText s.started.snapshot,
        flagText s.started.notify, flagText s.started.bt, flagText s.started.tcp]
        (flagText s.started.modem),
    ofAscii ['c', 'u', 'r', 'r', 'e', 'n', 't', ' ', 'l', 'o', 'g', 'p', 'a', 't', 'h', ','] ++
      logPathText s s.currentLogPath ++ [44],
    ofAscii ['c', 'o', 'n', 'f', 'i', 'g', ' ', 'l', 'o', 'g', 'p', 'a', 't', 'h', ','] ++
      logPathText s (some s.configLogPath) ++ [44],
    ofAscii ['i', 'n', 't', 'e', 'r', 'n', 'a', 'l', ' ', 's', 't', 'o', 'r', 'a', 'g', 'e', ','] ++
      logPathText s (some .internal) ++ [44],
    ofAscii ['e', 'x', 't', 'e', 'r', 'n', 'a', 'l', ' ', 's', 't', 'o', 'r', 'a', 'g', 'e', ','] ++
      logPathText s (some .external) ++ [44]]

/-- `gen_config_string` into a buffer that is large enough. It follows a null pointer
when there is no `misc` entry. -/
def genConfigString (s : Globals) : Option (List UInt8) :=
  s.miscLog.map fun misc =>
    (headerLines s).flatMap (· ++ [Lines.newline]) ++ s.streamLogHead.flatMap streamLine ++
      miscLine misc ++ s.snapshotLogHead.flatMap snapLine ++
      s.notifyLogHead.flatMap notifyLine

/-! ## The order of the entries -/

def turned {α : Type*} : List α → List α
  | [] => []
  | head :: next => head :: next.reverse

@[simp] theorem turned_turned {α : Type*} (infos : List α) : turned (turned infos) = infos := by
  cases infos with
  | nil => rfl
  | cons head next => rw [turned, turned, List.reverse_reverse]

theorem mem_insertEntry {α : Type*} {info new : α} {infos : List α}
    (h : info ∈ insertEntry infos new) : info = new ∨ info ∈ infos := by
  cases infos with
  | nil => exact Or.inl (List.mem_singleton.mp h)
  | cons head next =>
      rcases List.mem_cons.mp h with rfl | h
      · exact Or.inr List.mem_cons_self
      · exact (List.mem_cons.mp h).imp_right (List.mem_cons_of_mem head)

/-! ## What a parsed entry is -/

/-- A field that is printed and read back. -/
structure Token (t : List UInt8) : Prop where
  ne_nil : t ≠ []
  tab_not_mem : tab ∉ t
  newline_not_mem : Lines.newline ∉ t
  zero_not_mem : 0 ∉ t

def InRange (n : ℤ) : Prop := -2 ^ 31 ≤ n ∧ n < 2 ^ 31

/-- A `content` whose entry is printed in the line `line`: the line is read at once, or
all of it but its newline. -/
structure Content (content line : List UInt8) : Prop where
  head_ne : content.head? ≠ some tab
  newline_not_mem : Lines.newline ∉ content
  zero_not_mem : 0 ∉ content
  fits : line.length < MAX_LINE_LEN ∨ content ≠ [] ∧ line.length ≤ MAX_LINE_LEN

inductive IsStream : SlogInfo → Prop
  | mk {name : List UInt8} {state : SlogState} {maxSize level : ℤ} (hname : Token name)
      (hsize : InRange maxSize) (hlevel : InRange level) :
      IsStream (streamInfo name state maxSize level)

inductive IsMisc : SlogInfo → Prop
  | mk {name : List UInt8} {state : SlogState} {maxSize level : ℤ} (hname : Token name)
      (hsize : InRange maxSize) (hlevel : InRange level) :
      IsMisc (miscInfo name state maxSize level)

inductive IsSnap : SlogInfo → Prop
  | mk {name opt content : List UInt8} {level interval : ℤ} (hname : Token name)
      (hopt : Token opt) (hlevel : InRange level) (hinterval : InRange interval)
      (hcontent : Content content (snapLine (snapInfo name opt level interval content))) :
      IsSnap (snapInfo name opt level interval content)

inductive IsNotify : SlogInfo → Prop
  | mk {name content : List UInt8} {level : ℤ} (hname : Token name) (hlevel : InRange level)
      (hcontent : Content content (notifyLine (notifyInfo name level content))) :
      IsNotify (notifyInfo name level content)

/-- Every entry is one that the parser makes. -/
structure Globals.Printable (s : Globals) : Prop where
  stream : ∀ info ∈ s.streamLogHead, IsStream info
  snap : ∀ info ∈ s.snapshotLogHead, IsSnap info
  notify : ∀ info ∈ s.notifyLogHead, IsNotify info
  misc : ∀ info, s.miscLog = some info → IsMisc info

/-- A line as the parser gets it. -/
structure Buffer (buffer : List UInt8) : Prop where
  zero_not_mem : 0 ∉ buffer
  newline_not_mem : Lines.newline ∉ buffer.dropLast
  fits : buffer.length < MAX_LINE_LEN

theorem dropLast_subset_of_isPrefix {p l : List UInt8} (h : p <+: l) : p.dropLast ⊆ l.dropLast := by
  obtain ⟨m, rfl⟩ := h
  by_cases hm : m = []
  · rw [hm, List.append_nil]
    exact List.Subset.refl _
  · rw [List.dropLast_append_of_ne_nil hm]
    exact List.Subset.trans (List.dropLast_subset p) (List.subset_append_left _ _)

theorem dropLast_subset_of_suffix {p l : List UInt8} (h : p <:+ l) :
    p.dropLast ⊆ l.dropLast := by
  obtain ⟨m, rfl⟩ := h
  by_cases hp : p = []
  · rw [hp]
    exact List.nil_subset _
  · rw [List.dropLast_append_of_ne_nil hp]
    exact List.subset_append_right _ _

theorem buffer_of_mem_fgets {text line : List UInt8}
    (h : line ∈ Lines.fgets (MAX_LINE_LEN - 1) text) : Buffer (cstring line) := by
  obtain ⟨-, hlen, hnewline⟩ := Lines.of_mem_fgets (by decide) h
  refine ⟨?_, ?_, ?_⟩
  · intro hzero
    simpa using List.mem_takeWhile_imp hzero
  · exact fun hmem => hnewline (dropLast_subset_of_isPrefix (List.takeWhile_prefix _) hmem)
  · have hle := length_cstring_le line
    rw [MAX_LINE_LEN] at hlen ⊢
    omega

theorem Buffer.of_parseStrings {buffer key : List UInt8} (hb : Buffer buffer)
    (hkey : key <+: buffer) (hhead : ∃ b, key.head? = some b ∧ b ≠ tab) {n : ℕ}
    {fs : List (List UInt8)} {last : List UInt8} (h : parseStrings n buffer = some (fs, last)) :
    (∀ f ∈ fs, Token f) ∧ last.head? ≠ some tab ∧ last <:+ buffer ∧
      (Fields.join tab fs last).length < MAX_LINE_LEN := by
  have hsrc : buffer.head? ≠ some tab := by
    obtain ⟨rest, rfl⟩ := hkey
    obtain ⟨b, hb', hne⟩ := hhead
    rw [List.head?_append_of_ne_nil]
    · rw [hb']
      exact fun heq => hne (Option.some.inj heq)
    · rintro rfl
      cases hb'
  obtain ⟨-, hfields, hlast, hsuffix, hle⟩ := Fields.of_split hsrc h
  refine ⟨fun f hf => ?_, hlast, hsuffix, Nat.lt_of_le_of_lt hle hb.fits⟩
  obtain ⟨htab, hne, hsub⟩ := hfields f hf
  exact ⟨hne, htab, fun hmem => hb.newline_not_mem (hsub hmem),
    fun hmem => hb.zero_not_mem (List.dropLast_subset _ (hsub hmem))⟩

theorem Buffer.of_stripNewline {buffer last content : List UInt8} (hb : Buffer buffer)
    (hsuffix : last <:+ buffer) (hhead : last.head? ≠ some tab)
    (h : stripNewline last = some content) :
    content.head? ≠ some tab ∧ Lines.newline ∉ content ∧ 0 ∉ content ∧
      (content.length < last.length ∨ content ≠ [] ∧ content.length = last.length) := by
  have hnewline : Lines.newline ∉ last.dropLast := fun hmem =>
    hb.newline_not_mem (dropLast_subset_of_suffix hsuffix hmem)
  have hzero : 0 ∉ last := fun hmem => hb.zero_not_mem (hsuffix.subset hmem)
  unfold stripNewline at h
  split_ifs at h with hnil hlast
  · cases h
    refine ⟨?_, hnewline, fun hmem => hzero (List.dropLast_subset _ hmem), Or.inl ?_⟩
    · intro htab
      refine hhead ?_
      rw [← List.dropLast_append_getLast hnil, List.head?_append_of_ne_nil]
      · exact htab
      · intro heq
        rw [heq] at htab
        cases htab
    · rw [List.length_dropLast]
      have hpos := List.length_pos_iff.mpr hnil
      omega
  · cases h
    refine ⟨hhead, ?_, hzero, Or.inr ⟨hnil, rfl⟩⟩
    intro hmem
    rw [← List.dropLast_append_getLast hnil] at hmem
    rcases List.mem_append.mp hmem with hmem | hmem
    · exact hnewline hmem
    · rw [List.getLast?_eq_some_getLast hnil] at hlast
      exact hlast (congrArg some (List.mem_singleton.mp hmem).symm)

/-! ## Parsing makes entries that can be printed -/

theorem printable_parse3Entries {s s' : Globals} {type : List UInt8} {ret : ℤ}
    (hs : s.Printable) (h : parse3Entries s type = some (s', ret)) : s'.Printable := by
  unfold parse3Entries at h
  split at h
  · split_ifs at h <;> cases h <;> exact { hs with }
  · cases h
    exact hs

theorem printable_parse4Entries {s s' : Globals} {type : List UInt8} {ret : ℤ}
    (hb : Buffer type) (hkey : NOTIFY <+: type) (hs : s.Printable)
    (h : parse4Entries s type = some (s', ret)) : s'.Printable := by
  unfold parse4Entries at h
  split at h
  · next type' name pos3 pos4 hsplit =>
      split_ifs at h with hleads
      · obtain ⟨content, hcontent, heq⟩ := Option.map_eq_some_iff.mp h
        cases heq
        obtain ⟨hfields, hhead, hsuffix, hlen⟩ :=
          hb.of_parseStrings hkey ⟨110, rfl, by decide⟩ hsplit
        obtain ⟨hc, hnewline, hzero, hclen⟩ := hb.of_stripNewline hsuffix hhead hcontent
        refine { hs with notify := fun info hinfo => ?_ }
        rcases mem_insertEntry hinfo with rfl | hinfo
        · have hpos3 := length_decimalInt_atoi32_le (hfields pos3 (by simp)).ne_nil
          have htype := hleads.length_le
          refine ⟨hfields name (by simp), atoi32_mem_range pos3, hc, hnewline, hzero, ?_⟩
          simp only [notifyLine, notifyInfo, SlogInfo.calloc, Fields.join_cons, Fields.join_nil,
            List.length_append, List.length_cons, List.length_nil] at hlen ⊢
          rcases hclen with hlt | ⟨hne, heq⟩
          · exact Or.inl (by omega)
          · exact Or.inr ⟨hne, by omega⟩
        · exact hs.notify info hinfo
      · cases h
        exact hs
  · cases h
    exact hs

theorem printable_parse5Entries {s s' : Globals} {type key : List UInt8} {ret : ℤ}
    (hb : Buffer type) (hkey : key <+: type) (hhead : ∃ b, key.head? = some b ∧ b ≠ tab)
    (hs : s.Printable) (h : parse5Entries s type = some (s', ret)) : s'.Printable := by
  unfold parse5Entries at h
  split at h
  · next type' name pos3 pos4 pos5 hsplit =>
      obtain ⟨hfields, -⟩ := hb.of_parseStrings hkey hhead hsplit
      have hname := hfields name (by simp)
      by_cases hstream : STREAM <+: type'
      · rw [if_pos hstream] at h
        cases h
        refine { hs with stream := fun info hinfo => ?_ }
        rcases mem_insertEntry hinfo with rfl | hinfo
        · exact ⟨hname, atoi32_mem_range pos4, atoi32_mem_range pos5⟩
        · exact hs.stream info hinfo
      by_cases hmisc : MISC <+: type'
      · rw [if_neg hstream, if_pos hmisc] at h
        cases h
        refine { hs with misc := fun info hinfo => ?_ }
        cases hinfo
        exact ⟨hname, atoi32_mem_range pos4, atoi32_mem_range pos5⟩
      · rw [if_neg hstream, if_neg hmisc] at h
        cases h
        exact hs
  · cases h
    exact hs

theorem printable_parse6Entries {s s' : Globals} {type : List UInt8} {ret : ℤ}
    (hb : Buffer type) (hkey : SNAP <+: type) (hs : s.Printable)
    (h : parse6Entries s type = some (s', ret)) : s'.Printable := by
  unfold parse6Entries at h
  split at h
  · next type' name pos3 pos4 pos5 pos6 hsplit =>
      split_ifs at h with hleads
      · obtain ⟨content, hcontent, heq⟩ := Option.map_eq_some_iff.mp h
        cases heq
        obtain ⟨hfields, hhead, hsuffix, hlen⟩ :=
          hb.of_parseStrings hkey ⟨115, rfl, by decide⟩ hsplit
        obtain ⟨hc, hnewline, hzero, hclen⟩ := hb.of_stripNewline hsuffix hhead hcontent
        refine { hs with snap := fun info hinfo => ?_ }
        rcases mem_insertEntry hinfo with rfl | hinfo
        · have hpos4 := length_decimalInt_atoi32_le (hfields pos4 (by simp)).ne_nil
          have hpos5 := length_decimalInt_atoi32_le (hfields pos5 (by simp)).ne_nil
          have htype := hleads.length_le
          refine ⟨hfields name (by simp), hfields pos3 (by simp), atoi32_mem_range pos4,
            atoi32_mem_range pos5, hc, hnewline, hzero, ?_⟩
          simp only [snapLine, snapInfo, SlogInfo.calloc, Fields.join_cons, Fields.join_nil,
            List.length_append, List.length_cons, List.length_nil] at hlen ⊢
          rcases hclen with hlt | ⟨hne, heq⟩
          · exact Or.inl (by omega)
          · exact Or.inr ⟨hne, by omega⟩
        · exact hs.snap info hinfo
      · cases h
        exact hs
  · cases h
    exact hs

theorem printable_parseLine {s s' : Globals} {buffer : List UInt8} {ret : ℤ}
    (hb : Buffer buffer) (hs : s.Printable) (h : parseLine s buffer = some (s', ret)) :
    s'.Printable := by
  unfold parseLine at h
  have hs' : ({ s with slogEnable := parseEnable s.slogEnable buffer } : Globals).Printable :=
    { hs with }
  split_ifs at h with hcomment hvar hsnap hstream hnotify hmisc
  · cases h
    exact hs
  · exact printable_parse3Entries hs' h
  · exact printable_parse6Entries hb hsnap hs' h
  · exact printable_parse5Entries hb hstream ⟨115, rfl, by decide⟩ hs' h
  · exact printable_parse4Entries hb hnotify hs' h
  · exact printable_parse5Entries hb hmisc ⟨109, rfl, by decide⟩ hs' h
  · cases h
    exact hs'

theorem printable_parseLines {s s' : Globals} {lines : List (List UInt8)} {ret : ℤ}
    (hlines : ∀ line ∈ lines, Buffer (cstring line)) (hs : s.Printable)
    (h : parseLines s lines = some (s', ret)) : s'.Printable := by
  induction lines generalizing s with
  | nil =>
      cases h
      exact hs
  | cons line lines ih =>
      obtain ⟨hb, hlines⟩ := List.forall_mem_cons.mp hlines
      rw [parseLines] at h
      obtain ⟨⟨s₁, ret₁⟩, hline, h⟩ := Option.bind_eq_some_iff.mp h
      have hs₁ := printable_parseLine hb hs hline
      simp only at h
      split_ifs at h
      · cases h
        exact hs₁
      · exact ih hlines hs₁ h

/-- The entries after `parse_config` are ones that it makes, whatever the file holds. -/
theorem printable_parseConfig {s s' : Globals} {text : List UInt8} {ret : ℤ}
    (hs : s.Printable) (h : parseConfig s text = some (s', ret)) : s'.Printable :=
  printable_parseLines (fun _ hline => buffer_of_mem_fgets hline) hs h

/-! ## Reading the printed lines back -/

theorem token_decimalInt (n : ℤ) : Token (decimalInt n) := by
  have hnot : ∀ b : UInt8, b ≠ 45 → isDigit b = false → b ∉ decimalInt n := by
    intro b hb hdigit hmem
    rcases mem_decimalInt hmem with heq | htrue
    · exact hb heq
    · rw [hdigit] at htrue
      cases htrue
  exact ⟨List.length_pos_iff.mp (length_decimalInt_pos n), hnot _ (by decide) (by decide),
    hnot _ (by decide) (by decide), hnot _ (by decide) (by decide)⟩

theorem token_state (state : SlogState) : Token state.text := by
  cases state <;> exact ⟨by decide, by decide, by decide, by decide⟩

theorem parseLine_of_no_key (s : Globals) {b : UInt8} (hb : b ∉ ofAscii
    ['#', 'e', 'd', 'l', 'v', 's', 'n', 'm']) (line : List UInt8) :
    parseLine s (b :: line) = some (s, 0) := by
  simp only [ofAscii, List.map_cons, List.map_nil, List.mem_cons, List.not_mem_nil, or_false,
    not_or] at hb
  obtain ⟨h1, h2, h3, h4, h5, h6, h7, h8⟩ := hb
  simp only [parseLine, parseEnable, ofAscii, VAR, SNAP, STREAM, NOTIFY, MISC, List.map_cons,
    List.map_nil, List.cons_prefix_cons, Ne.symm h1, Ne.symm h2, Ne.symm h3, Ne.symm h4,
    Ne.symm h5, Ne.symm h6, Ne.symm h7, Ne.symm h8, false_and, if_false]

/-- The fields of a `stream` or `misc` line before the level. -/
def entryFields (key : List UInt8) (info : SlogInfo) : List (List UInt8) :=
  [key, info.name, info.state.text, decimalInt info.maxSize]

theorem not_mem_join {b c : UInt8} (hb : b ≠ c) {fs : List (List UInt8)} {last : List UInt8}
    (hfs : ∀ f ∈ fs, b ∉ f) (hlast : b ∉ last) : b ∉ Fields.join c fs last := by
  induction fs with
  | nil => exact hlast
  | cons f fs ih =>
      obtain ⟨hf, hfs⟩ := List.forall_mem_cons.mp hfs
      rw [Fields.join_cons, List.mem_append, List.mem_cons, not_or, not_or]
      exact ⟨hf, hb, ih hfs⟩

theorem parseLines_cons {s s' : Globals} {line : List UInt8} (hzero : 0 ∉ line)
    (h : parseLine s line = some (s', 0)) (lines : List (List UInt8)) :
    parseLines s (line :: lines) = parseLines s' lines := by
  rw [parseLines, cstring_of_not_mem hzero, h]
  rfl

section EntryLine

variable {s : Globals} {key : List UInt8} {info : SlogInfo} {set : ℤ → Globals}
  (hfs : ∀ f ∈ entryFields key info, Token f)
include hfs

end EntryLine

theorem parseLine_stream (s : Globals) (line : List UInt8) :
    parseLine s (STREAM ++ line) = parse5Entries s (STREAM ++ line) := by
  simp [parseLine, parseEnable, STREAM, VAR, SNAP, ofAscii, List.cons_prefix_cons]

theorem parseStrings_join {fs : List (List UInt8)} (hfs : ∀ f ∈ fs, Token f)
    {last : List UInt8} (hlast : last.head? ≠ some tab) :
    parseStrings fs.length (Fields.join tab fs last) = some (fs, last) :=
  Fields.split_join (fun f hf => ⟨(hfs f hf).tab_not_mem, (hfs f hf).ne_nil⟩) hlast

theorem token_entryFields {key : List UInt8} (hkey : Token key) {info : SlogInfo}
    (hname : Token info.name) : ∀ f ∈ entryFields key info, Token f := by
  intro f hf
  simp only [entryFields, List.mem_cons, List.not_mem_nil, or_false] at hf
  rcases hf with rfl | rfl | rfl | rfl
  · exact hkey
  · exact hname
  · exact token_state _
  · exact token_decimalInt _

theorem token_keys : Token STREAM ∧ Token MISC ∧ Token SNAP ∧ Token NOTIFY := by
  refine ⟨⟨?_, ?_, ?_, ?_⟩, ⟨?_, ?_, ?_, ?_⟩, ⟨?_, ?_, ?_, ?_⟩, ?_, ?_, ?_, ?_⟩ <;> decide

theorem token_snapFields {name opt : List UInt8} (hname : Token name) (hopt : Token opt)
    (level interval : ℤ) :
    ∀ f ∈ [SNAP, name, opt, decimalInt level, decimalInt interval], Token f := by
  intro f hf
  simp only [List.mem_cons, List.not_mem_nil, or_false] at hf
  rcases hf with rfl | rfl | rfl | rfl | rfl
  · exact token_keys.2.2.1
  · exact hname
  · exact hopt
  · exact token_decimalInt _
  · exact token_decimalInt _

theorem token_notifyFields {name : List UInt8} (hname : Token name) (level : ℤ) :
    ∀ f ∈ [NOTIFY, name, decimalInt level], Token f := by
  intro f hf
  simp only [List.mem_cons, List.not_mem_nil, or_false] at hf
  rcases hf with rfl | rfl | rfl
  · exact token_keys.2.2.2
  · exact hname
  · exact token_decimalInt _

/-- A line before the entries changes nothing. -/
structure HeaderLine (line : List UInt8) : Prop where
  newline_not_mem : Lines.newline ∉ line
  zero_not_mem : 0 ∉ line
  fits : line.length < MAX_LINE_LEN - 1
  parse : ∀ s : Globals, parseLine s (line ++ [Lines.newline]) = some (s, 0)

theorem headerLine_logPathText (s : Globals) (path : Option LogPath) :
    Lines.newline ∉ logPathText s path ∧ 0 ∉ logPathText s path ∧
      (logPathText s path).length < MAX_NAME_LEN := by
  rcases path with - | - | -
  · rw [logPathText]
    decide
  · rw [logPathText]
    decide
  · exact ⟨s.externalStorage.newline_not_mem, s.externalStorage.zero_not_mem,
      s.externalStorage.fits⟩

theorem flagText_eq (flag : Bool) : flagText flag = [48] ∨ flagText flag = [49] := by
  cases flag
  · exact Or.inl rfl
  · exact Or.inr rfl

theorem not_mem_flags {b : UInt8} (hb : b ≠ 32 ∧ b ≠ 48 ∧ b ≠ 49) (started : Started) :
    b ∉ Fields.join 32 [flagText started.stream, flagText started.snapshot,
      flagText started.notify, flagText started.bt, flagText started.tcp]
      (flagText started.modem) := by
  have hflag : ∀ flag, b ∉ flagText flag := by
    intro flag
    rcases flagText_eq flag with h | h <;> rw [h] <;> simp [hb.2.1, hb.2.2]
  refine not_mem_join hb.1 ?_ (hflag _)
  intro f hf
  simp only [List.mem_cons, List.not_mem_nil, or_false] at hf
  rcases hf with rfl | rfl | rfl | rfl | rfl <;> exact hflag _

theorem headerLine_of_text {key text : List UInt8} (hkey : Lines.newline ∉ key ∧ 0 ∉ key ∧
      key.length < 256) (htext : Lines.newline ∉ text ∧ 0 ∉ text ∧ text.length < 256)
    (hparse : ∀ (s : Globals) (rest : List UInt8), parseLine s (key ++ rest) = some (s, 0)) :
    HeaderLine (key ++ text) where
  newline_not_mem := by
    rw [List.mem_append, not_or]
    exact ⟨hkey.1, htext.1⟩
  zero_not_mem := by
    rw [List.mem_append, not_or]
    exact ⟨hkey.2.1, htext.2.1⟩
  fits := by
    have hbuf : MAX_LINE_LEN = 2048 := rfl
    rw [List.length_append]
    omega
  parse s := by
    rw [List.append_assoc]
    exact hparse s _

theorem headerLine_of_mem {s : Globals} {line : List UInt8} (h : line ∈ headerLines s) :
    HeaderLine line := by
  have hpath : ∀ path, Lines.newline ∉ logPathText s path ++ [44] ∧
      0 ∉ logPathText s path ++ [44] ∧ (logPathText s path ++ [44]).length < 256 := by
    intro path
    obtain ⟨hnl, hz, hlen⟩ := headerLine_logPathText s path
    refine ⟨?_, ?_, ?_⟩
    · simpa [Lines.newline] using hnl
    · simpa using hz
    · have hname : MAX_NAME_LEN = 128 := rfl
      rw [List.length_append, List.length_singleton]
      omega
  simp only [headerLines, List.mem_cons, List.not_mem_nil, or_false] at h
  rcases h with rfl | rfl | rfl | rfl | rfl | rfl
  · refine headerLine_of_text (by decide) ?_ ?_
    · cases s.slogEnable <;> decide
    · intro s rest
      simp [parseLine, parseEnable, ofAscii, VAR, SNAP, STREAM, NOTIFY, MISC,
        List.cons_prefix_cons]
  · refine headerLine_of_text (by decide) ?_ fun s rest => parseLine_of_no_key s (by decide) _
    refine ⟨not_mem_flags (by decide) _, not_mem_flags (by decide) _, ?_⟩
    have hlen : ∀ flag, (flagText flag).length = 1 := by
      intro flag
      rcases flagText_eq flag with h | h <;> rw [h] <;> rfl
    simp only [Fields.join_cons, Fields.join_nil, List.length_append, List.length_cons, hlen]
    omega
  · rw [List.append_assoc]
    exact headerLine_of_text (by decide) (hpath _) fun s rest =>
      parseLine_of_no_key s (by decide) _
  · rw [List.append_assoc]
    exact headerLine_of_text (by decide) (hpath _) fun s rest =>
      parseLine_of_no_key s (by decide) _
  · rw [List.append_assoc]
    exact headerLine_of_text (by decide) (hpath _) fun s rest =>
      parseLine_of_no_key s (by decide) _
  · rw [List.append_assoc]
    refine headerLine_of_text (by decide) (hpath _) fun s rest => ?_
    simp [parseLine, parseEnable, ofAscii, VAR, SNAP, STREAM, NOTIFY, MISC, List.cons_prefix_cons]

/-- No entries yet. -/
structure Globals.Empty (s : Globals) : Prop where
  stream : s.streamLogHead = []
  snap : s.snapshotLogHead = []
  notify : s.notifyLogHead = []
  misc : s.miscLog = none

theorem Globals.Empty.printable {s : Globals} (hs : s.Empty) : s.Printable := by
  refine ⟨?_, ?_, ?_, ?_⟩
  · simp [hs.stream]
  · simp [hs.snap]
  · simp [hs.notify]
  · simp [hs.misc]

/-- A printed `stream` or `misc` line is read back: all of it but its newline is read at
once, or all of it but a level of `0`. -/
def LineFits (line : List UInt8) (level : ℤ) : Prop :=
  line.length ≤ MAX_LINE_LEN ∨ line.length = MAX_LINE_LEN + 1 ∧ level = 0

structure Globals.Fits (s : Globals) : Prop where
  stream : ∀ info ∈ s.streamLogHead, LineFits (streamLine info) info.level
  misc : ∀ info, s.miscLog = some info → LineFits (miscLine info) info.level

/-- The same entries, each list with its head and the rest turned around. -/
structure Turned (s s' : Globals) : Prop where
  stream : s'.streamLogHead = turned s.streamLogHead
  snap : s'.snapshotLogHead = turned s.snapshotLogHead
  notify : s'.notifyLogHead = turned s.notifyLogHead
  misc : s'.miscLog = s.miscLog

/-- The same lists. -/
structure SameEntries (s s' : Globals) : Prop where
  stream : s'.streamLogHead = s.streamLogHead
  snap : s'.snapshotLogHead = s.snapshotLogHead
  notify : s'.notifyLogHead = s.notifyLogHead
  misc : s'.miscLog = s.miscLog

/-- One round trip turns the lists, and two give them back. -/
def RoundTrips (s : Globals) : Prop :=
  ∀ s₁ : Globals, s₁.Empty → ∃ out s', genConfigString s = some out ∧
    parseConfig s₁ out = some (s', 0) ∧ Turned s s' ∧
    ∀ s₂ : Globals, s₂.Empty → ∃ out' s'', genConfigString s' = some out' ∧
      parseConfig s₂ out' = some (s'', 0) ∧ SameEntries s s''

theorem IsStream.inRange {info : SlogInfo} (h : IsStream info) : InRange info.level := by
  cases h
  assumption

theorem IsMisc.inRange {info : SlogInfo} (h : IsMisc info) : InRange info.level := by
  cases h
  assumption

theorem turned_injective {α : Type*} {infos infos' : List α} (h : turned infos = turned infos') :
    infos = infos' := by
  rw [← turned_turned infos, h, turned_turned]

/-- The globals when `slog` starts, with `EXTERNAL_STORAGE` set to `"/sd"`. -/
def Globals.start : Globals where
  slogEnable := .enable
  configLogPath := .internal
  currentLogPath := none
  screenshotEnable := true
  slogSaveAll := false
  streamLogHead := []
  snapshotLogHead := []
  notifyLogHead := []
  miscLog := none
  externalStorage :=
    ⟨ofAscii ['/', 's', 'd', '/', 's', 'l', 'o', 'g'], by decide, by decide, by decide⟩
  started := ⟨false, false, false, false, false, false⟩

theorem empty_start : Globals.start.Empty := ⟨rfl, rfl, rfl, rfl⟩

/-- `stream` entries `a`, `b` and `c` in this order, a `misc` and a `snap` entry. -/
def shortText : List UInt8 :=
  Fields.join tab [STREAM, [97], ON, [48]] [55, 10] ++
    Fields.join tab [STREAM, [98], OFF, [49]] [55, 10] ++
    Fields.join tab [STREAM, [99], ON, [48]] [55, 10] ++
    Fields.join tab [MISC, MISC, ON, [48]] [53, 10] ++
    Fields.join tab [SNAP, [109], [102], [54], [51, 48, 48]] [47, 112, 10]

def shortConf : Globals :=
  { Globals.start with
    streamLogHead := [streamInfo [97] .on 0 7, streamInfo [99] .on 0 7, streamInfo [98] .off 1 7]
    snapshotLogHead := [snapInfo [109] [102] 6 300 [47, 112]]
    miscLog := some (miscInfo MISC .on 0 5) }

def longName : List UInt8 := List.replicate 2032 97

theorem length_longName : longName.length = 2032 := List.length_replicate

theorem token_longName : Token longName := by
  have hnot : ∀ b : UInt8, b ≠ 97 → b ∉ longName := fun b hb hmem =>
    hb (List.eq_of_mem_replicate hmem)
  refine ⟨?_, hnot _ (by decide), hnot _ (by decide), hnot _ (by decide)⟩
  rw [← List.length_pos_iff, length_longName]
  decide

/-- A `stream` line of 2047 bytes and a `misc` line. The state `x` is printed as `off`,
which leaves no room for the second digit of the level. -/
def longStream : List UInt8 :=
  Fields.join tab [STREAM, longName, [120], [48]] [55, 55] ++
    Lines.newline :: (Fields.join tab [MISC, MISC, ON, [48]] [53] ++ [Lines.newline])

theorem token_longStream : ∀ f ∈ [STREAM, longName, [120], [48]], Token f := by
  intro f hf
  simp only [List.mem_cons, List.not_mem_nil, or_false] at hf
  rcases hf with rfl | rfl | rfl | rfl
  · exact token_keys.1
  · exact token_longName
  · exact ⟨by decide, by decide, by decide, by decide⟩
  · exact ⟨by decide, by decide, by decide, by decide⟩

theorem fgets_longStream : Lines.fgets (MAX_LINE_LEN - 1) longStream =
    [Fields.join tab [STREAM, longName, [120], [48]] [55, 55, Lines.newline],
      Fields.join tab [MISC, MISC, ON, [48]] [53, Lines.newline]] := by
  have hnl : Lines.newline ∉ Fields.join tab [STREAM, longName, [120], [48]] [55, 55] :=
    not_mem_join (by decide) (fun f hf => (token_longStream f hf).newline_not_mem) (by decide)
  have hlen : (Fields.join tab [STREAM, longName, [120], [48]] [55, 55]).length <
      MAX_LINE_LEN - 1 := by
    simp only [Fields.join_cons, Fields.join_nil, List.length_append, List.length_cons,
      length_longName]
    decide
  rw [longStream, Lines.fgets_line hnl hlen, ← Fields.join_append]
  rfl

theorem getLast?_of_mem_fgets_longStream {line : List UInt8}
    (h : line ∈ Lines.fgets (MAX_LINE_LEN - 1) longStream) :
    line.getLast? = some Lines.newline := by
  have hlast : ∀ (fs : List (List UInt8)) (last : List UInt8),
      (Fields.join tab fs (last ++ [Lines.newline])).getLast? = some Lines.newline := by
    intro fs last
    rw [Fields.join_append, List.getLast?_concat]
  rw [fgets_longStream] at h
  simp only [List.mem_cons, List.not_mem_nil, or_false] at h
  rcases h with rfl | rfl
  · exact hlast _ [55, 55]
  · exact hlast _ [53]

theorem parseConfig_longStream :
    parseConfig Globals.start longStream = some ({ Globals.start with
      streamLogHead := [streamInfo longName .off 0 77]
      miscLog := some (miscInfo MISC .on 0 5) }, 0) := by
  have hz : 0 ∉ Fields.join tab [STREAM, longName, [120], [48]] [55, 55, Lines.newline] :=
    not_mem_join (by decide) (fun f hf => (token_longStream f hf).zero_not_mem) (by decide)
  have hsplit : parseStrings 4 (Fields.join tab [STREAM, longName, [120], [48]]
      [55, 55, Lines.newline]) =
        some ([STREAM, longName, [120], [48]], [55, 55, Lines.newline]) :=
    parseStrings_join token_longStream (by decide)
  have hline : parseLine Globals.start
      (Fields.join tab [STREAM, longName, [120], [48]] [55, 55, Lines.newline]) =
        some ({ Globals.start with streamLogHead := [streamInfo longName .off 0 77] }, 0) := by
    rw [Fields.join_cons, parseLine_stream, ← Fields.join_cons, parse5Entries, hsplit]
    rfl
  rw [parseConfig, fgets_longStream, parseLines_cons hz hline]
  rfl

end Slog

end Tarako
