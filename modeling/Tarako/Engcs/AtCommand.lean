import Tarako.Engcs.AtTok
import Tarako.Lib.Printf
import Tarako.Lib.Run

/-!
# From requests to AT commands

`eng_parsecmd` reads the number of a command, the number of its parameters and the
parameters from the text of a request, into `at_oneint` or a struct of its own, and
`eng_atCommandRequest` prints the AT command from there. A parameter that is missing leaves
`at_oneint`, `param_num` and the local arrays as they were. `sent_independent_iff` says for
which texts the command depends on the text alone.
-/

namespace Tarako

namespace Engcs

open Text Printf

/-! ## Parameters -/

/-- A member of a parameter struct: an `int`, or a `char` array. A string comes through a
pointer to a local array, or to the member itself. -/
inductive Kind where
  | int
  | str (size : ℕ) (viaLocal : Bool)
  deriving DecidableEq

/-- The member after `memset`. -/
def Kind.empty : Kind → Field
  | .int => .int 0
  | .str size _ => .str (array size [])

/-- The member that is read at the cursor. What `memcpy` takes from behind the end of a
string is never printed, and is zero here. -/
def Kind.read (cur : Cursor) : Kind → Field × Cursor
  | .int => (.int ((atTokNextint cur).stored.getD 0), (atTokNextint cur).cur)
  | .str size viaLocal =>
      match (atTokNextstr cur).stored with
      | some tok => (.str (array size tok), (atTokNextstr cur).cur)
      | none => (if viaLocal then .garbage size else .str (array size []), none)

/-- The first `n` members are read, the others are as `memset` left them. -/
def readFields : ℕ → List Kind → Cursor → List Field
  | _, [], _ => []
  | 0, k :: layout, cur => k.empty :: readFields 0 layout cur
  | n + 1, k :: layout, cur => (k.read cur).1 :: readFields n layout (k.read cur).2

/-- The strings among the first `n` members that come through a local array, with their
sizes. -/
def locals : ℕ → ℕ → List Kind → List (ℕ × ℕ)
  | _, _, [] => []
  | _, 0, _ => []
  | i, n + 1, .str size true :: layout => (i, size) :: locals (i + 1) n layout
  | i, n + 1, _ :: layout => locals (i + 1) n layout

theorem locals_replicate_int (i n k : ℕ) : locals i n (List.replicate k .int) = [] := by
  induction k generalizing i n with
  | zero => cases n <;> rfl
  | succ k ih =>
      cases n with
      | zero => rfl
      | succ n => exact ih (i + 1) n

/-- What is done with a parameter struct: how many of its members are read, and which
format prints them, for each value of `param_num`. Every string that is read is printed.
Where `param_num` counts at all, it makes a difference even when no parameter is given. -/
structure Params where
  usesParamNum : Bool
  layout : List Kind
  pad : ℕ
  reads : ℤ → ℕ
  format : ℤ → List Piece
  printed : ∀ pn, ∀ x ∈ locals 0 (reads pn) layout, 0 < x.2 ∧ x.2 ≤ 256 ∧ .str x.1 ∈ format pn
  constant : usesParamNum = false → ∀ m n, reads m = reads n ∧ format m = format n
  differs : usesParamNum = true → ∃ m n,
    print Outside.zero pad (readFields (reads m) layout none) (format m) ≠
      print Outside.zero pad (readFields (reads n) layout none) (format n)

def lit (s : String) : Piece := .lit (ofAscii s.toList)

/-- The first `n` members as `%d,%d,…` behind a text. -/
def ints (head : String) (n : ℕ) : List Piece :=
  lit head :: (List.range n).flatMap fun i => if i = 0 then [.int 0] else [lit ",", .int i]

/-- A struct of `n` numbers that are all read and printed. -/
def Params.numbers (head : String) (n : ℕ) : Params where
  usesParamNum := false
  layout := List.replicate n .int
  pad := 0
  reads _ := n
  format _ := ints head n
  printed _ x hx := by
    rw [locals_replicate_int] at hx
    cases hx
  constant _ _ _ := ⟨rfl, rfl⟩
  differs h := by cases h

def Params.spfreq : Params where
  usesParamNum := true
  layout := List.replicate 6 .int
  pad := 0
  reads pn := if pn = 3 then 3 else 6
  format pn := if pn = 3 then ints "AT+SPFRQ=" 3 else ints "AT+SPFRQ=" 6
  printed pn := by split_ifs <;> decide
  constant h := by cases h
  differs _ := ⟨3, 6, by decide⟩

/-- `eng_at_grrtdncell`; with less than three parameters there is no struct. -/
def Params.grrtdncell : Params where
  usesParamNum := true
  layout := List.replicate 6 .int
  pad := 0
  reads pn := if pn < 3 then 0 else (min pn 6).toNat
  format pn :=
    if pn < 3 then [lit "AT+GRRTDNCELL"] else ints "AT+GRRTDNCELL=" (min pn 6).toNat
  printed _ x hx := by
    rw [locals_replicate_int] at hx
    cases hx
  constant h := by cases h
  differs _ := ⟨0, 3, by decide⟩

def Params.sdataconf : Params where
  usesParamNum := true
  layout := [.int, .str 16 true, .str 64 true, .int, .int]
  pad := 0
  reads pn := if pn = 5 then 5 else 4
  format pn :=
    [lit "AT+SDATACONF=", .int 0, lit ",\"", .str 1, lit "\",\"", .str 2, lit "\",", .int 3] ++
      if pn = 5 then [lit ", ", .int 4] else []
  printed pn := by split_ifs <;> decide
  constant h := by cases h
  differs _ := ⟨5, 4, by decide⟩

/-- `eng_at_l1param`, `eng_at_trrparam` and `eng_at_rrdmparam`: an index, and a value when
it is set. -/
def Params.indexed (head : String) : Params where
  usesParamNum := true
  layout := List.replicate 2 .int
  pad := 0
  reads pn := if pn = 2 then 2 else 1
  format pn := if pn = 2 then ints head 2 else ints head 1
  printed _ x hx := by
    rw [locals_replicate_int] at hx
    cases hx
  constant h := by cases h
  differs _ := by
    refine ⟨2, 1, fun h => ?_⟩
    have hlength := congrArg List.length h
    have hsame : intAt (readFields 2 [.int, .int] none) 0 =
        intAt (readFields 1 [.int, .int] none) 0 := rfl
    simp [print, ints, lit, Piece.print, ofAscii, List.range_succ, hsame] at hlength

def Params.smtimer : Params where
  usesParamNum := true
  layout := [.int]
  pad := 0
  reads pn := if pn = 1 then 1 else 0
  format pn := if pn = 1 then ints "AT+SMTIMER=" 1 else [lit "AT+SMTIMER"]
  printed pn := by split_ifs <;> decide
  constant h := by cases h
  differs _ := ⟨1, 0, by decide⟩

def Params.ttrdcfeparam : Params where
  usesParamNum := true
  layout := [.int, .int]
  pad := 0
  reads pn := if pn = 1 then 1 else if pn = 2 then 2 else 0
  format pn :=
    if pn = 1 then ints "AT+TRRDCFEPARAM=" 1
    else if pn = 2 then ints "AT+TRRDCFEPARAM=" 2 else []
  printed pn := by split_ifs <;> decide
  constant h := by cases h
  differs _ := ⟨1, 0, by decide⟩

def Params.mbau : Params where
  usesParamNum := true
  layout := [.str 33 false, .str 33 false]
  pad := 2
  reads pn := if pn = 1 then 1 else if pn = 2 then 2 else 0
  format pn :=
    if pn = 2 then [lit "AT^MBAU=\"", .str 0, lit "\",\"", .str 1, lit "\" "]
    else [lit "AT^MBAU=\"", .str 0, lit "\" "]
  printed pn := by split_ifs <;> decide
  constant h := by cases h
  differs _ := ⟨2, 1, by decide⟩

def Params.pdpactive : Params where
  usesParamNum := true
  layout := [.int, .int]
  pad := 0
  reads pn := if pn = 2 then 2 else 0
  format pn := if pn = 2 then ints "AT+CGACT=" 2 else []
  printed pn := by split_ifs <;> decide
  constant h := by cases h
  differs _ := ⟨2, 0, by decide⟩

def Params.spgresdata : Params where
  usesParamNum := true
  layout := [.int, .int, .str 256 true]
  pad := 0
  reads pn := if pn = 1 then 1 else if pn = 3 then 3 else 0
  format pn :=
    if pn = 1 then ints "AT+SGPRSDATA=" 1
    else [lit "AT+SGPRSDATA=", .int 0, lit ", ", .int 1, lit ", \"", .str 2, lit "\" "]
  printed pn := by split_ifs <;> decide
  constant h := by cases h
  differs _ := ⟨1, 0, by decide⟩

def Params.camm : Params where
  usesParamNum := true
  layout := [.str 256 true, .str 256 true]
  pad := 0
  reads pn := if pn = 2 then 2 else 0
  format pn :=
    if pn = 2 then [lit "AT+CAMM=\"", .str 0, lit "\", \"", .str 1, lit "\" "] else []
  printed pn := by split_ifs <;> decide
  constant h := by cases h
  differs _ := ⟨2, 0, by decide⟩

def Params.cops : Params where
  usesParamNum := true
  layout := [.int, .int, .str 256 true, .int]
  pad := 0
  reads pn := if pn = 4 then 4 else 0
  format pn :=
    if pn = 4 then
      [lit "AT+COPS=", .int 0, lit ", ", .int 1, lit ", \"", .str 2, lit "\", ", .int 3]
    else []
  printed pn := by split_ifs <;> decide
  constant h := by cases h
  differs _ := ⟨4, 0, by decide⟩

def Params.crsm : Params where
  usesParamNum := true
  layout := [.int, .int, .int, .int, .int, .str 128 true, .str 16 true]
  pad := 0
  reads pn := if pn = 7 then 7 else 0
  format pn :=
    if pn = 7 then
      ints "AT+CRSM=" 5 ++ [lit ",\"", .str 5, lit "\",\"", .str 6, lit "\""]
    else []
  printed pn := by split_ifs <;> decide
  constant h := by cases h
  differs _ := ⟨7, 0, by decide⟩

def Params.sgmr : Params where
  usesParamNum := true
  layout := [.int, .int, .int, .str 256 true]
  pad := 0
  reads pn := if pn = 3 then 3 else if pn = 4 then 4 else 0
  format pn :=
    if pn = 4 then ints "AT+SGMR=" 3 ++ [lit ",\"", .str 3, lit "\""]
    else if pn = 3 then ints "AT+SGMR=" 3 else []
  printed pn := by split_ifs <;> first | omega | decide
  constant h := by cases h
  differs _ := ⟨3, 0, by decide⟩

/-! ## Commands -/

inductive EngAtCmd where
  | requestModemVersion | requestImei | selectBand | currentBand | setArmlog | getArmlog
  | setAutoanswer | getAutoanswer | setSppsrate | getSppsrate | setSptest | getSptest | spid
  | setSpfrq | getSpfrq | spaute | setSpdgcnum | getSpdgcnum | setSpdgcinfo | getSpdgcinfo
  | grrtdncell | spl1itrrswitch | getSpl1itrrswitch | pccotdcell | sdataconf | l1param
  | trrparam | setTdmeasswth | getTdmeasswth | rrdmparam | dmparamreset | smtimer
  | trrdcfeparam | cimi | mbcellid | mbau | euicc | cgreg | exit | nohandleCmd | sysinfo | hver
  | getSysconfig | setSysconfig | spver | autoattach | setAutoattach | pdpactive | getPdpact
  | sgprsdata | getUplmn | cgsms | caoc | camm | setCops | sadc | cfun | cgmr | setCaplog
  | setUplmn | getUplmnLen | getDsplog | setDsplog | sgmr | caocd | caocq | cced | l1mon
  | getAssertMode | setAssertMode | setManualAssert | sfpl | sepl | spengmdQuery | spengmdOpen
  | spengmdClose | ssmp
  deriving DecidableEq

def engAtCmds : List (ℤ × EngAtCmd) :=
  [(0, .requestModemVersion), (1, .requestImei), (2, .selectBand), (3, .currentBand),
    (4, .setArmlog), (5, .getArmlog), (6, .setAutoanswer), (7, .getAutoanswer), (8, .setSppsrate),
    (9, .getSppsrate), (10, .setSptest), (11, .getSptest), (12, .spid), (13, .setSpfrq),
    (14, .getSpfrq), (15, .spaute), (16, .setSpdgcnum), (17, .getSpdgcnum), (18, .setSpdgcinfo),
    (19, .getSpdgcinfo), (20, .grrtdncell), (21, .spl1itrrswitch), (22, .getSpl1itrrswitch),
    (23, .pccotdcell), (24, .sdataconf), (25, .l1param), (26, .trrparam), (27, .setTdmeasswth),
    (28, .getTdmeasswth), (29, .rrdmparam), (30, .dmparamreset), (31, .smtimer),
    (32, .trrdcfeparam), (33, .cimi), (34, .mbcellid), (35, .mbau), (36, .euicc), (37, .cgreg),
    (38, .exit), (39, .nohandleCmd), (40, .sysinfo), (41, .hver), (42, .getSysconfig),
    (43, .setSysconfig), (44, .spver), (45, .autoattach), (46, .setAutoattach), (47, .pdpactive),
    (48, .getPdpact), (49, .sgprsdata), (50, .getUplmn), (51, .cgsms), (52, .caoc), (53, .camm),
    (54, .setCops), (55, .sadc), (56, .cfun), (57, .cgmr), (58, .setCaplog), (59, .setUplmn),
    (60, .getUplmnLen), (61, .getDsplog), (62, .setDsplog), (70, .sgmr), (80, .caocd),
    (81, .caocq), (101, .cced), (103, .l1mon), (108, .getAssertMode), (109, .setAssertMode),
    (110, .setManualAssert), (111, .sfpl), (112, .sepl), (117, .spengmdQuery),
    (118, .spengmdOpen), (119, .spengmdClose), (200, .ssmp)]

/-- What a command does with its parameters: none at all, one number in `at_oneint`, a
struct of its own, or the rest of the request as it is. -/
inductive AtBranch where
  | text (t : List UInt8)
  | oneint (pre post : List UInt8)
  | params (p : Params)
  | nohandle

def text (s : String) : AtBranch := .text (ofAscii s.toList)

def oneint (pre post : String) : AtBranch := .oneint (ofAscii pre.toList) (ofAscii post.toList)

def EngAtCmd.branch : EngAtCmd → AtBranch
  | .requestModemVersion => text "AT+CGMM"
  | .requestImei => text "AT+CGSN"
  | .selectBand => oneint "AT+SBAND=" ""
  | .currentBand => text "AT+SBAND?"
  | .setArmlog => oneint "AT+ARMLOG=" ""
  | .getArmlog => text "AT+ARMLOG?"
  | .setAutoanswer => oneint "AT+SPAUTO=" ""
  | .getAutoanswer => text "AT+SPAUTO?"
  | .setSppsrate => .params (.numbers "AT+SPPSRATE=" 3)
  | .getSppsrate => text "AT+SPPSRATE?"
  | .setSptest => .params (.numbers "AT+SPTEST=" 2)
  | .getSptest => text "AT+SPTEST?"
  | .spid => text "AT+SPID"
  | .setSpfrq => .params .spfreq
  | .getSpfrq => text "AT+SPFRQ?"
  | .spaute => .params (.numbers "AT+SPAUTE=" 4)
  | .setSpdgcnum => .params (.numbers "AT+SPDGCNUM=" 1)
  | .getSpdgcnum => text "AT+SPDGCNUM?"
  | .setSpdgcinfo => .params (.numbers "AT+SPDGCINFO=" 4)
  | .getSpdgcinfo => text "AT+SPDGCINFO?"
  | .grrtdncell => .params .grrtdncell
  | .spl1itrrswitch => oneint "AT+SPL1ITRRSWITCH=" ""
  | .getSpl1itrrswitch => text "AT+SPL1ITRRSWITCH?"
  | .pccotdcell => .params (.numbers "AT+PCCOTDCELL=" 2)
  | .sdataconf => .params .sdataconf
  | .l1param => .params (.indexed "AT+L1PARAM=")
  | .trrparam => .params (.indexed "AT+TRRPARAM=")
  | .setTdmeasswth => oneint "AT+TDMEASSWTH=" ""
  | .getTdmeasswth => text "AT+TDMEASSWTH?"
  | .rrdmparam => .params (.indexed "AT+RRDMPARAM=")
  | .dmparamreset => text "AT+DMPARAMRESET"
  | .smtimer => .params .smtimer
  | .trrdcfeparam => .params .ttrdcfeparam
  | .cimi => text "AT+CIMI"
  | .mbcellid => oneint "AT^MBCELLID=" ""
  | .mbau => .params .mbau
  | .euicc => text "AT+EUICC?"
  | .cgreg => text "AT+CGREG?"
  | .exit => text "AT+ENGEXIT"
  | .nohandleCmd => .nohandle
  | .sysinfo => text "AT^SYSINFO"
  | .hver => text "AT^HVER"
  | .getSysconfig => text "AT^SYSCONFIG?"
  | .setSysconfig => .params (.numbers "AT^SYSCONFIG=" 4)
  | .spver => oneint "AT+SPVER=" ""
  | .autoattach => text "AT+SAUTOATT?"
  | .setAutoattach => oneint "AT+SAUTOATT=" ""
  | .pdpactive => .params .pdpactive
  | .getPdpact => text "AT+CGACT?"
  | .sgprsdata => .params .spgresdata
  | .getUplmn => oneint "AT+CRSM=176,28512,0,0," ",0,\"3F007FFF\""
  | .cgsms => oneint "AT+CGSMS=" ""
  | .caoc => text "AT+CAOC=2"
  | .camm => .params .camm
  | .setCops => .params .cops
  | .sadc => text "AT+SADC"
  | .cfun => oneint "AT+CFUN=" ""
  | .cgmr => text "AT+CGMR"
  | .setCaplog => oneint "AT+SPCAPLOG=" ""
  | .setUplmn => .params .crsm
  | .getUplmnLen => text "AT+CRSM=192,28512,0,0,15,0,\"3F007FFF\""
  | .getDsplog => text "AT+SPDSPOP?"
  | .setDsplog => oneint "AT+SPDSPOP=" ""
  | .sgmr => .params .sgmr
  | .caocd => text "AT+CAOC=1"
  | .caocq => text "AT+CAOC=0"
  | .cced => .params (.numbers "AT+CCED=" 2)
  | .l1mon => text "AT+SL1MON"
  | .getAssertMode => text "AT+SDRMOD?"
  | .setAssertMode => oneint "AT+SDRMOD=" ""
  | .setManualAssert => text "AT+SPATASSERT=1"
  | .sfpl => text "AT+SFPL"
  | .sepl => text "AT+SEPL"
  | .spengmdQuery => text "AT+SPENGMD=0,10,2"
  | .spengmdOpen => text "AT+SPENGMD=1,10,2,3"
  | .spengmdClose => text "AT+SPENGMD=1,10,2,1"
  | .ssmp => text "AT+SSMP"

def atBranch (cmd : ℤ) : AtBranch :=
  match engAtCmds.lookup cmd with
  | some c => c.branch
  | none => .text []

/-! ## Requests -/

/-- Memory that a request does not write before it is read: the local `param_num`, and what
the parameter structs are filled from or followed by. -/
structure Residue where
  paramNum : ℤ
  outside : Outside

structure AtRequest where
  text : List UInt8
  residue : Residue

def firstNumber (text : List UInt8) : NextInt := atTokNextint (some (cstring text))

def secondNumber (text : List UInt8) : NextInt := atTokNextint (firstNumber text).cur

def paramsCur (text : List UInt8) : Cursor := (secondNumber text).cur

/-- `*cmd`; the first number is always stored. -/
def cmdType (text : List UInt8) : ℤ := (firstNumber text).stored.getD 0

/-- What `eng_parsecmd` returns a pointer to. -/
inductive Param where
  | null
  | oneint (n : ℤ)
  | params (paramNum : ℤ) (fields : List Field)
  | nohandle (cmd : List UInt8)

/-- `eng_parsecmd`, with `at_oneint` as it was; there is no result when `memcpy` is given a
NULL pointer. -/
def engParsecmd (atOneint : ℤ) (m : Residue) (text : List UInt8) : Option (ℤ × Param) :=
  match atBranch (cmdType text) with
  | .text _ => some (cmdType text, .null)
  | .oneint _ _ =>
      some (cmdType text, .oneint ((atTokNextint (paramsCur text)).stored.getD atOneint))
  | .params p =>
      let paramNum := (secondNumber text).stored.getD m.paramNum
      some (cmdType text,
        .params paramNum (readFields (p.reads paramNum) p.layout (paramsCur text)))
  | .nohandle => (paramsCur text).map fun rest => (cmdType text, .nohandle (array 1024 rest))

/-- `eng_atCommandRequest`; the text may be longer than `at_cmd_req`. -/
def engAtCommandRequest (m : Residue) (cmd : ℤ) (param : Param) : List UInt8 :=
  match atBranch cmd, param with
  | .text t, _ => t
  | .oneint pre post, .oneint n => pre ++ decimalInt n ++ post
  | .params p, .params paramNum fields => print m.outside p.pad fields (p.format paramNum)
  | .nohandle, .nohandle cmd => cstring (cmd ++ m.outside.beyond)
  | _, _ => []

def atCmdReq (atOneint : ℤ) (r : AtRequest) : Option (List UInt8) :=
  (engParsecmd atOneint r.residue r.text).map fun x => engAtCommandRequest r.residue x.1 x.2

/-- `at_oneint` after a request. The other statics are cleared before they are used. -/
def afterRequest (atOneint : ℤ) (r : AtRequest) : ℤ :=
  match engParsecmd atOneint r.residue r.text with
  | some (_, .oneint n) => n
  | _ => atOneint

/-! ## Commands that depend on their request alone -/

/-- The command for a text is the same after any two histories of requests, whatever they
have left in the memory that is read without having been written. -/
def HistoryIndependent (text : List UInt8) : Prop :=
  ∀ (h₁ h₂ : List AtRequest) (m₁ m₂ : Residue),
    atCmdReq (Run.run afterRequest 0 h₁) ⟨text, m₁⟩ =
      atCmdReq (Run.run afterRequest 0 h₂) ⟨text, m₂⟩

/-- The condition on a request: a number for `at_oneint` is there, `param_num` is there
where it counts, no string is missing that goes through a local array, and every string that
is printed ends inside its struct. -/
def SelfContained (text : List UInt8) : Prop :=
  match atBranch (cmdType text) with
  | .text _ => True
  | .oneint _ _ => paramsCur text ≠ none
  | .params p =>
      let paramNum := (secondNumber text).stored.getD 0
      let fields := readFields (p.reads paramNum) p.layout (paramsCur text)
      (p.usesParamNum → (firstNumber text).cur ≠ none) ∧
        Closed fields ∧ Terminated p.pad fields (p.format paramNum)
  | .nohandle => ∀ rest, paramsCur text = some rest → rest.length < 1024

/-- An array of a struct is garbage only when it was to be read through a local one. -/
theorem mem_locals_of_garbage {layout : List Kind} {n j size : ℕ} {cur : Cursor} (i : ℕ)
    (h : (readFields n layout cur)[j]? = some (.garbage size)) :
    (i + j, size) ∈ locals i n layout := by
  induction layout generalizing n j cur i with
  | nil => simp [readFields] at h
  | cons k layout ih =>
      cases n with
      | zero =>
          cases j with
          | zero => cases k <;> simp [readFields, Kind.empty] at h
          | succ j =>
              have hnone := ih (i + 1) (n := 0) (by simpa [readFields] using h)
              cases layout <;> cases hnone
      | succ n =>
          cases j with
          | zero =>
              cases k with
              | int => simp [readFields, Kind.read] at h
              | str width viaLocal =>
                  rw [readFields, List.getElem?_cons_zero, Option.some.injEq, Kind.read] at h
                  split at h
                  · cases h
                  · cases viaLocal with
                    | false => cases h
                    | true =>
                        cases h
                        exact List.mem_cons_self
          | succ j =>
              have hmem := ih (i + 1) (n := n) (by simpa [readFields] using h)
              rw [show i + 1 + j = i + (j + 1) by omega] at hmem
              cases k with
              | int => exact hmem
              | str width viaLocal =>
                  cases viaLocal with
                  | false => exact hmem
                  | true => exact List.mem_cons_of_mem _ hmem

variable {text : List UInt8}

theorem sent_text {t : List UInt8} (h : atBranch (cmdType text) = .text t) (a : ℤ)
    (m : Residue) : atCmdReq a ⟨text, m⟩ = some t := by
  simp [atCmdReq, engParsecmd, engAtCommandRequest, h]

theorem sent_oneint {pre post : List UInt8} (h : atBranch (cmdType text) = .oneint pre post)
    (a : ℤ) (m : Residue) :
    atCmdReq a ⟨text, m⟩ =
      some (pre ++ decimalInt ((atTokNextint (paramsCur text)).stored.getD a) ++ post) := by
  simp [atCmdReq, engParsecmd, engAtCommandRequest, h]

theorem sent_params {p : Params} (h : atBranch (cmdType text) = .params p) (a : ℤ)
    (m : Residue) :
    atCmdReq a ⟨text, m⟩ =
      some (print m.outside p.pad
        (readFields (p.reads ((secondNumber text).stored.getD m.paramNum)) p.layout
          (paramsCur text))
        (p.format ((secondNumber text).stored.getD m.paramNum))) := by
  simp [atCmdReq, engParsecmd, engAtCommandRequest, h]

theorem sent_nohandle (h : atBranch (cmdType text) = .nohandle) (a : ℤ) (m : Residue) :
    atCmdReq a ⟨text, m⟩ =
      (paramsCur text).map fun rest => cstring (array 1024 rest ++ m.outside.beyond) := by
  cases hcur : paramsCur text <;> simp [atCmdReq, engParsecmd, engAtCommandRequest, h, hcur]

theorem run_setBand : Run.run afterRequest 0
    [⟨ofAscii "2,1,5".toList, ⟨0, Outside.zero⟩⟩] = 5 := by
  decide

theorem sent_oneint_independent_iff {pre post : List UInt8}
    (h : atBranch (cmdType text) = .oneint pre post) :
    HistoryIndependent text ↔ paramsCur text ≠ none := by
  simp only [HistoryIndependent, sent_oneint h]
  constructor
  · intro hsame hnone
    have hdiff := hsame [⟨ofAscii "2,1,5".toList, ⟨0, Outside.zero⟩⟩] [] ⟨0, Outside.zero⟩
      ⟨0, Outside.zero⟩
    rw [run_setBand, Run.run_nil, hnone] at hdiff
    have hdigits := List.append_cancel_left (List.append_cancel_right (Option.some.inj hdiff))
    exact absurd hdigits (by decide)
  · intro hcur h₁ h₂ m₁ m₂
    obtain ⟨n, hn⟩ := Option.ne_none_iff_exists'.mp
      (mt atTokNextint_stored_eq_none_iff.mp hcur)
    rw [hn]
    rfl

theorem sent_params_independent_iff {p : Params} (h : atBranch (cmdType text) = .params p) :
    HistoryIndependent text ↔
      (p.usesParamNum → (firstNumber text).cur ≠ none) ∧
        Closed (readFields (p.reads ((secondNumber text).stored.getD 0)) p.layout
          (paramsCur text)) ∧
        Terminated p.pad
          (readFields (p.reads ((secondNumber text).stored.getD 0)) p.layout (paramsCur text))
          (p.format ((secondNumber text).stored.getD 0)) := by
  simp only [HistoryIndependent, sent_params h, Option.some.injEq]
  have hprinted : ∀ i size,
      (readFields (p.reads ((secondNumber text).stored.getD 0)) p.layout (paramsCur text))[i]? =
        some (.garbage size) →
      0 < size ∧ size ≤ 256 ∧ .str i ∈ p.format ((secondNumber text).stored.getD 0) := by
    intro i size hi
    have hmem := mem_locals_of_garbage 0 hi
    rw [Nat.zero_add] at hmem
    exact p.printed _ _ hmem
  have hprint := @print_eq_iff 256 p.pad _ _ hprinted
  constructor
  · intro hsame
    refine ⟨fun huses hnone => ?_, hprint.mp fun o o' => ?_⟩
    · -- without a second number, `param_num` is what the stack held
      obtain ⟨a, b, hab⟩ := p.differs huses
      have hsecond : secondNumber text = ⟨-1, none, none⟩ := by rw [secondNumber, hnone]; rfl
      have heq := hsame [] [] ⟨a, Outside.zero⟩ ⟨b, Outside.zero⟩
      rw [paramsCur, hsecond] at heq
      exact hab heq
    · exact hsame [] [] ⟨0, o⟩ ⟨0, o'⟩
  · rintro ⟨huses, hinside⟩ _ _ m₁ m₂
    have hnum : ∀ m : ℤ, p.reads ((secondNumber text).stored.getD m) =
        p.reads ((secondNumber text).stored.getD 0) ∧
        p.format ((secondNumber text).stored.getD m) =
          p.format ((secondNumber text).stored.getD 0) := by
      intro m
      cases hstored : (secondNumber text).stored with
      | some n => exact ⟨rfl, rfl⟩
      | none =>
          have hcur := atTokNextint_stored_eq_none_iff.mp hstored
          exact p.constant (Bool.eq_false_iff.mpr fun huse => huses huse hcur) m 0
    rw [(hnum m₁.paramNum).1, (hnum m₁.paramNum).2, (hnum m₂.paramNum).1, (hnum m₂.paramNum).2]
    exact hprint.mpr hinside _ _

theorem not_mem_of_paramsCur {rest : List UInt8} (h : paramsCur text = some rest) : 0 ∉ rest := by
  cases hcur : (firstNumber text).cur with
  | none =>
      rw [paramsCur, secondNumber, hcur] at h
      cases h
  | some l =>
      rw [paramsCur, secondNumber, hcur] at h
      have hsuffix : rest <:+ cstring text :=
        (atTokNextint_cur_suffix h).trans (atTokNextint_cur_suffix hcur)
      exact fun hmem => zero_not_mem_cstring text (hsuffix.subset hmem)

theorem sent_nohandle_independent_iff (h : atBranch (cmdType text) = .nohandle) :
    HistoryIndependent text ↔
      ∀ rest, paramsCur text = some rest → rest.length < 1024 := by
  simp only [HistoryIndependent, sent_nohandle h]
  constructor
  · intro hsame rest hcur
    by_contra hlong
    have hnul : 0 ∉ array 1024 rest := by
      rw [array_of_le (Nat.le_of_not_lt hlong)]
      exact fun hmem => not_mem_of_paramsCur hcur (List.mem_of_mem_take hmem)
    have heq := hsame [] [] ⟨0, ⟨fun _ => [], []⟩⟩ ⟨0, ⟨fun _ => [], [1]⟩⟩
    rw [hcur, Option.map_some, Option.map_some, Option.some.injEq,
      cstring_append_of_not_mem hnul, cstring_append_of_not_mem hnul] at heq
    exact absurd (List.append_cancel_left heq) (by decide)
  · intro hshort _ _ m₁ m₂
    refine Option.map_congr fun rest hcur => ?_
    have hnul := zero_mem_array (hshort rest hcur)
    rw [cstring_append_of_mem hnul, cstring_append_of_mem hnul]

/-- The command that is sent for a request does not depend on the requests before it, and on
nothing that they may have left in memory, exactly when the request has all that its command
prints. -/
theorem sent_independent_iff (text : List UInt8) :
    HistoryIndependent text ↔ SelfContained text := by
  unfold SelfContained
  split <;> rename_i hcommand
  · refine iff_of_true (fun h₁ h₂ m₁ m₂ => ?_) trivial
    rw [sent_text hcommand, sent_text hcommand]
  · exact sent_oneint_independent_iff hcommand
  · exact sent_params_independent_iff hcommand
  · exact sent_nohandle_independent_iff hcommand

/-- A band that an earlier request has set is sent again for a request without one. -/
theorem not_sent_independent :
    ¬ ∀ text : List UInt8, HistoryIndependent text := by
  intro h
  have hband := h (ofAscii "2,1".toList) [⟨ofAscii "2,1,5".toList, ⟨0, Outside.zero⟩⟩] []
    ⟨0, Outside.zero⟩ ⟨0, Outside.zero⟩
  rw [run_setBand, Run.run_nil] at hband
  exact absurd hband (by decide)

end Engcs

end Tarako
