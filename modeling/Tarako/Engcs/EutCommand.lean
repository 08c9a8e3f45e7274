import Mathlib.Data.List.Infix
import Tarako.Lib.Splice
import Tarako.Lib.Text

/-!
# The EUT commands

`eng_atdiag_euthdlr` takes two arguments out of the text of a command and looks for the
command in a table. A keyword that is part of another one stands behind it in the table,
so `get_cmd_index` finds the right one; but its loop runs one entry too far when there is
none, and `get_sub_str` copies the arguments without a look at the size of the arrays.
-/

namespace Tarako

namespace Engcs

open Text

/-- `eut_cmd_enum`, in its order. -/
inductive EutCmd
  | EUT_REQ
  | EUT
  | WIFICH_REQ
  | WIFICH
  | WIFIMODE
  | WIFIRATIO_REQ
  | WIFIRATIO
  | WIFITX_FACTOR_REQ
  | WIFITX_FACTOR
  | WIFITX_REQ
  | WIFITX
  | WIFIRX_REQ
  | WIFIRX
  | WIFIRX_PACKCOUNT
  | WIFICLRRXPACKCOUNT
  | GPSSEARCH_REQ
  | GPSSEARCH
  | GPSPRNSTATE_REQ
  | GPSSNR_REQ
  | GPSPRN
deriving DecidableEq

def EutCmd.name : EutCmd → List UInt8
  | EUT_REQ => ofAscii ['E', 'U', 'T', '?']
  | EUT => ofAscii ['E', 'U', 'T']
  | WIFICH_REQ => ofAscii ['C', 'H', '?']
  | WIFICH => ofAscii ['C', 'H']
  | WIFIMODE => ofAscii ['M', 'O', 'D', 'E']
  | WIFIRATIO_REQ => ofAscii ['R', 'A', 'T', 'I', 'O', '?']
  | WIFIRATIO => ofAscii ['R', 'A', 'T', 'I', 'O']
  | WIFITX_FACTOR_REQ => ofAscii ['T', 'X', 'F', 'A', 'C', '?']
  | WIFITX_FACTOR => ofAscii ['T', 'X', 'F', 'A', 'C']
  | WIFITX_REQ => ofAscii ['T', 'X', '?']
  | WIFITX => ofAscii ['T', 'X']
  | WIFIRX_REQ => ofAscii ['R', 'X', '?']
  | WIFIRX => ofAscii ['R', 'X']
  | WIFIRX_PACKCOUNT => ofAscii ['R', 'X', 'P', 'A', 'C', 'K', 'C', 'O', 'U', 'N', 'T', '?']
  | WIFICLRRXPACKCOUNT =>
      ofAscii ['C', 'L', 'R', 'R', 'X', 'P', 'A', 'C', 'K', 'C', 'O', 'U', 'N', 'T']
  | GPSSEARCH_REQ => ofAscii ['S', 'E', 'A', 'R', 'C', 'H', '?']
  | GPSSEARCH => ofAscii ['S', 'E', 'A', 'R', 'C', 'H']
  | GPSPRNSTATE_REQ => ofAscii ['P', 'R', 'N', 'S', 'T', 'A', 'T', 'E', '?']
  | GPSSNR_REQ => ofAscii ['S', 'N', 'R', '?']
  | GPSPRN => ofAscii ['P', 'R', 'N']

def eutCmds : List EutCmd :=
  [.EUT_REQ, .EUT, .GPSSEARCH_REQ, .GPSSEARCH, .WIFICH_REQ, .WIFICH, .WIFIMODE,
    .WIFIRATIO_REQ, EutCmd.WIFIRATIO, .WIFITX_FACTOR_REQ, .WIFITX_FACTOR, .WIFITX_REQ, .WIFITX,
    .WIFIRX_PACKCOUNT, .WIFICLRRXPACKCOUNT, .WIFIRX_REQ, .WIFIRX, .GPSPRNSTATE_REQ,
    .GPSSNR_REQ, .GPSPRN]

def EutCmd.index (cmd : EutCmd) : ℤ := cmd.ctorIdx

/-- The loop of `get_cmd_index` with `n` turns left, at entry `i`. There is no result when
it reads an entry behind the last one. -/
def cmdIndexFrom (buf : List UInt8) : ℕ → ℕ → Option ℤ
  | 0, _ => some (-1)
  | n + 1, i => do
      let cmd ← eutCmds[i]?
      if cmd.name <:+: buf then some cmd.index else cmdIndexFrom buf n (i + 1)

/-- `get_cmd_index`; the last turn is that for `i = NUM_ELEMS(eut_cmds)`. -/
def getCmdIndex (buf : List UInt8) : Option ℤ := cmdIndexFrom buf (eutCmds.length + 1) 0

def eutPrefixes : List (List UInt8) :=
  [ofAscii ['A', 'T', '+', 'S', 'P', 'B', 'T', 'T', 'E', 'S', 'T', '='],
    ofAscii ['A', 'T', '+', 'S', 'P', 'W', 'I', 'F', 'I', 'T', 'E', 'S', 'T', '='],
    ofAscii ['A', 'T', '+', 'S', 'P', 'G', 'P', 'S', 'T', 'E', 'S', 'T', '=']]

/-- Nothing, or a comma and an argument in which no keyword occurs. -/
def EutArgument (rest : List UInt8) : Prop :=
  rest = [] ∨ ∃ arg, rest = 44 :: arg ∧ ∀ cmd ∈ eutCmds, ¬ cmd.name <:+: arg

/-- A command is found from its keyword, and the table is not left when there is none. -/
structure Dispatches (text : List UInt8) : Prop where
  found : ∀ start ∈ eutPrefixes, ∀ cmd ∈ eutCmds, ∀ rest, EutArgument rest →
    text = start ++ cmd.name ++ rest → getCmdIndex text = some cmd.index
  inTable : (∀ cmd ∈ eutCmds, ¬ cmd.name <:+: text) → getCmdIndex text ≠ none

/-! ## The command that is found -/

theorem cmdIndexFrom_eq (buf : List UInt8) {n i : ℕ} (h : i + n = eutCmds.length) :
    cmdIndexFrom buf (n + 1) i =
      ((eutCmds.drop i).find? fun cmd => cmd.name <:+: buf).map EutCmd.index := by
  induction n generalizing i with
  | zero =>
      have hi : eutCmds.length ≤ i := Nat.le_of_eq h.symm
      rw [cmdIndexFrom, List.getElem?_eq_none hi, List.drop_eq_nil_of_le hi]
      rfl
  | succ n ih =>
      have hi : i < eutCmds.length := by omega
      rw [cmdIndexFrom, List.getElem?_eq_getElem hi, List.drop_eq_getElem_cons hi, List.find?_cons]
      by_cases hoccurs : eutCmds[i].name <:+: buf
      · simp [hoccurs]
      · simp [hoccurs, ih (i := i + 1) (by omega)]

theorem getCmdIndex_eq (buf : List UInt8) :
    getCmdIndex buf = (eutCmds.find? fun cmd => cmd.name <:+: buf).map EutCmd.index :=
  cmdIndexFrom_eq buf (Nat.zero_add _)

theorem getCmdIndex_eq_none_iff (buf : List UInt8) :
    getCmdIndex buf = none ↔ ∀ cmd ∈ eutCmds, ¬ cmd.name <:+: buf := by
  rw [getCmdIndex_eq, Option.map_eq_none_iff, List.find?_eq_none]
  simp

theorem infix_append_cons_iff {α : Type*} {key l m : List α} {c : α} (hc : c ∉ key)
    (hne : key ≠ []) : key <:+: l ++ c :: m ↔ key <:+: l ∨ key <:+: m := by
  have hextends : ∀ k, k ≠ [] → k <+: c :: m → c ∈ k := by
    rintro (_ | ⟨b, k⟩) hk hpre
    · exact absurd rfl hk
    · rw [(List.cons_prefix_cons.mp hpre).1]
      exact List.mem_cons_self
  rw [List.infix_append_iff_ne_nil, List.infix_cons_iff]
  constructor
  · rintro (h | (h | h) | ⟨k₁, k₂, -, hne₂, rfl, -, hpre⟩)
    · exact Or.inl h
    · exact absurd (hextends key hne h) hc
    · exact Or.inr h
    · exact absurd (List.mem_append_right k₁ (hextends k₂ hne₂ hpre)) hc
  · exact Or.imp_right fun h => Or.inl (Or.inr h)

theorem comma_not_mem_name : ∀ cmd ∈ eutCmds, 44 ∉ cmd.name ∧ cmd.name ≠ [] := by
  decide +kernel

/-- The order of the table: no keyword in front of another one occurs in its command. -/
theorem find?_name : ∀ start ∈ eutPrefixes, ∀ cmd ∈ eutCmds,
    (eutCmds.find? fun c => c.name <:+: start ++ cmd.name) = some cmd := by
  decide +kernel

theorem infix_command_iff {rest : List UInt8} (h : EutArgument rest) (l : List UInt8) :
    ∀ cmd ∈ eutCmds, cmd.name <:+: l ++ rest ↔ cmd.name <:+: l := by
  intro cmd hcmd
  obtain ⟨hcomma, hne⟩ := comma_not_mem_name cmd hcmd
  rcases h with rfl | ⟨arg, rfl, harg⟩
  · rw [List.append_nil]
  · rw [infix_append_cons_iff hcomma hne]
    exact or_iff_left (harg cmd hcmd)

theorem find?_congr_of_mem {α : Type*} {p q : α → Bool} {l : List α}
    (h : ∀ a ∈ l, p a = q a) : l.find? p = l.find? q := by
  induction l with
  | nil => rfl
  | cons a l ih =>
      obtain ⟨ha, hl⟩ := List.forall_mem_cons.mp h
      rw [List.find?_cons, List.find?_cons, ha, ih hl]

theorem getCmdIndex_command {start rest : List UInt8} {cmd : EutCmd}
    (hstart : start ∈ eutPrefixes) (hcmd : cmd ∈ eutCmds) (hrest : EutArgument rest) :
    getCmdIndex (start ++ cmd.name ++ rest) = some cmd.index := by
  have hsame : ∀ c ∈ eutCmds, decide (c.name <:+: start ++ cmd.name ++ rest) =
      decide (c.name <:+: start ++ cmd.name) := by
    intro c hc
    rw [decide_eq_decide]
    exact infix_command_iff hrest _ c hc
  rw [getCmdIndex_eq, find?_congr_of_mem hsame, find?_name start hstart cmd hcmd]
  rfl

/-- Every command is found from its keyword, and the table is left exactly when no keyword
occurs in the text. -/
theorem dispatches_iff (text : List UInt8) :
    Dispatches text ↔ ∃ cmd ∈ eutCmds, cmd.name <:+: text := by
  constructor
  · intro h
    by_contra hno
    have hnone : ∀ cmd ∈ eutCmds, ¬ cmd.name <:+: text := fun cmd hcmd hoccurs =>
      hno ⟨cmd, hcmd, hoccurs⟩
    exact h.inTable hnone ((getCmdIndex_eq_none_iff text).mpr hnone)
  · rintro ⟨cmd, hcmd, hoccurs⟩
    refine ⟨?_, fun hnone => absurd hoccurs (hnone cmd hcmd)⟩
    rintro start hstart c hc rest hrest rfl
    exact getCmdIndex_command hstart hc hrest

theorem not_dispatches_unknown : ¬ ∀ text, Dispatches text := by
  intro h
  have hnone : ∀ cmd ∈ eutCmds, ¬ cmd.name <:+:
      ofAscii ['A', 'T', '+', 'S', 'P', 'B', 'T', 'T', 'E', 'S', 'T', '=', '1'] := by
    decide +kernel
  exact (h _).inTable hnone ((getCmdIndex_eq_none_iff _).mpr hnone)

/-! ## Arguments -/

abbrev Arg := Buffer UInt8 15

/-- `memcpy` of `len` bytes to the start of an argument; a negative `len` is a very large
`size_t`. There is no result when the copy leaves the array. -/
def memcpyArg (data : Arg) (src : List UInt8) (len : ℤ) : Option Arg :=
  if 0 ≤ len then data.write? 0 (src.take len.toNat) else none

/-- The lengths of the two copies of `get_sub_str`, with the places of `=` and `,` and the
length of the text. -/
def subLens (start current : ℕ) (size : ℕ) : ℤ × ℤ :=
  (((current : ℤ) + 1) - ((start : ℤ) + 1) - 1, (size : ℤ) - ((current : ℤ) + 1))

/-- `get_sub_str`, with the places of the first `a` and the first `b`. -/
def getSubStr (buf : List UInt8) (revdata : Arg × Arg) (a b : UInt8) : Option (Arg × Arg) :=
  match buf.idxOf? b, buf.idxOf? a with
  | some current, some start => do
      let data0 ← memcpyArg revdata.1 (buf.drop (start + 1)) (subLens start current buf.length).1
      let data1 ← memcpyArg revdata.2 (buf.drop (current + 1)) (subLens start current buf.length).2
      return (data0, data1)
  | _, _ => some revdata

def eutArgs (buf : List UInt8) : Option (Arg × Arg) :=
  getSubStr buf (Buffer.fill 15 0, Buffer.fill 15 0) 61 44

/-- The lengths are not negative, and each array keeps a NUL. -/
structure ArgsOk (buf : List UInt8) : Prop where
  nonneg : ∀ start current, buf.idxOf? 61 = some start → buf.idxOf? 44 = some current →
    0 ≤ (subLens start current buf.length).1 ∧ 0 ≤ (subLens start current buf.length).2
  terminated : ∃ data, eutArgs buf = some data ∧ 0 ∈ data.1.bytes ∧ 0 ∈ data.2.bytes

/-- A text is copied into a cleared array with a NUL behind it when it has at most 14
bytes. -/
theorem memcpyArg_iff {src : List UInt8} (hsrc : 0 ∉ src) {len : ℤ} (hlen : len ≤ src.length) :
    (∃ data, memcpyArg (Buffer.fill 15 0) src len = some data ∧ 0 ∈ data.bytes) ↔
      0 ≤ len ∧ len ≤ 14 := by
  unfold memcpyArg
  by_cases hneg : 0 ≤ len
  · have htake : (src.take len.toNat).length = len.toNat := by
      rw [List.length_take]
      omega
    have hbytes : Splice.splice (Buffer.fill 15 0).bytes 0 (src.take len.toNat) =
        src.take len.toNat ++ List.replicate (15 - len.toNat) 0 := by
      rw [Splice.splice, htake, Buffer.fill, List.drop_replicate, List.take_zero, Nat.zero_add]
      rfl
    rw [if_pos hneg]
    constructor
    · rintro ⟨data, hdata, hzero⟩
      obtain ⟨hfits, heq⟩ := (Buffer.write?_eq_some_iff _ _ _ _).mp hdata
      rw [heq, hbytes, List.mem_append, List.mem_replicate] at hzero
      rcases hzero with hzero | ⟨hne, -⟩
      · exact absurd (List.mem_of_mem_take hzero) hsrc
      · omega
    · rintro ⟨-, hle⟩
      refine ⟨_, dif_pos (by omega), ?_⟩
      change 0 ∈ Splice.splice _ 0 _
      rw [hbytes]
      exact List.mem_append_right _ (List.mem_replicate.mpr ⟨by omega, rfl⟩)
  · rw [if_neg hneg]
    simp [hneg]

theorem getSubStr_iff {buf : List UInt8} (hbuf : 0 ∉ buf) {start current : ℕ}
    (hstart : buf.idxOf? 61 = some start) (hcurrent : buf.idxOf? 44 = some current) :
    (∃ data, eutArgs buf = some data ∧ 0 ∈ data.1.bytes ∧ 0 ∈ data.2.bytes) ↔
      (0 ≤ (subLens start current buf.length).1 ∧ (subLens start current buf.length).1 ≤ 14) ∧
        0 ≤ (subLens start current buf.length).2 ∧ (subLens start current buf.length).2 ≤ 14 := by
  obtain ⟨hlt, -⟩ := List.idxOf?_eq_some_iff.mp hcurrent
  have hzero : ∀ n, 0 ∉ buf.drop n := fun n hmem => hbuf (List.mem_of_mem_drop hmem)
  have hlen0 : (subLens start current buf.length).1 ≤ (buf.drop (start + 1)).length := by
    rw [subLens, List.length_drop]
    omega
  have hlen1 : (subLens start current buf.length).2 ≤ (buf.drop (current + 1)).length := by
    rw [subLens, List.length_drop]
    omega
  rw [← memcpyArg_iff (hzero _) hlen0, ← memcpyArg_iff (hzero _) hlen1, eutArgs, getSubStr,
    hcurrent, hstart]
  constructor
  · rintro ⟨data, hdata, hdata0, hdata1⟩
    obtain ⟨data0, hcopy0, hdata⟩ := Option.bind_eq_some_iff.mp hdata
    obtain ⟨data1, hcopy1, hdata⟩ := Option.bind_eq_some_iff.mp hdata
    cases hdata
    exact ⟨⟨data0, hcopy0, hdata0⟩, data1, hcopy1, hdata1⟩
  · rintro ⟨⟨data0, hcopy0, hdata0⟩, data1, hcopy1, hdata1⟩
    refine ⟨(data0, data1), ?_, hdata0, hdata1⟩
    simp only [hcopy0, hcopy1]
    rfl

/-- The copies stay in the arrays exactly when a character is missing, or the first `=`
stands in front of the first comma with at most 14 bytes between them and at most 14 bytes
stand behind the comma. -/
theorem argsOk_iff {buf : List UInt8} (hbuf : 0 ∉ buf) :
    ArgsOk buf ↔ ∀ start current, buf.idxOf? 61 = some start → buf.idxOf? 44 = some current →
      start < current ∧ current ≤ start + 15 ∧ buf.length ≤ current + 15 := by
  constructor
  · intro h start current hstart hcurrent
    have hlens := (getSubStr_iff hbuf hstart hcurrent).mp h.terminated
    rw [subLens] at hlens
    omega
  · intro h
    have hlens : ∀ start current, buf.idxOf? 61 = some start → buf.idxOf? 44 = some current →
        (0 ≤ (subLens start current buf.length).1 ∧
            (subLens start current buf.length).1 ≤ 14) ∧
          0 ≤ (subLens start current buf.length).2 ∧
            (subLens start current buf.length).2 ≤ 14 := by
      intro start current hstart hcurrent
      obtain ⟨hlt, -⟩ := List.idxOf?_eq_some_iff.mp hcurrent
      have hcond := h start current hstart hcurrent
      rw [subLens]
      omega
    refine ⟨fun start current hstart hcurrent => ?_, ?_⟩
    · obtain ⟨⟨hlen0, -⟩, hlen1, -⟩ := hlens start current hstart hcurrent
      exact ⟨hlen0, hlen1⟩
    · cases hcurrent : buf.idxOf? 44 with
      | none =>
          rw [eutArgs, getSubStr, hcurrent]
          exact ⟨_, rfl, by decide, by decide⟩
      | some current =>
          cases hstart : buf.idxOf? 61 with
          | none =>
              rw [eutArgs, getSubStr, hcurrent, hstart]
              exact ⟨_, rfl, by decide, by decide⟩
          | some start =>
              exact (getSubStr_iff hbuf hstart hcurrent).mpr (hlens start current hstart hcurrent)

theorem argsOk_wifich :
    ArgsOk (ofAscii ['A', 'T', '+', 'S', 'P', 'W', 'I', 'F', 'I', 'T', 'E', 'S', 'T', '=', 'C',
      'H', ',', '6']) := by
  refine (argsOk_iff (by decide)).mpr fun start current hstart hcurrent => ?_
  rw [← Option.some.inj hstart, ← Option.some.inj hcurrent]
  decide

/-- The comma in front of the `=`, an argument of 15 bytes behind the comma, and one of 15
bytes between them. -/
theorem not_argsOk :
    ¬ ArgsOk (ofAscii ['A', 'T', '+', 'S', 'P', 'B', 'T', 'T', 'E', 'S', 'T', ',', '=']) ∧
      ¬ ArgsOk (ofAscii ['A', 'T', '+', 'S', 'P', 'B', 'T', 'T', 'E', 'S', 'T', '=', 'E', 'U',
        'T', ','] ++ List.replicate 15 49) ∧
      ¬ ArgsOk (ofAscii ['A', 'T', '+', 'S', 'P', 'B', 'T', 'T', 'E', 'S', 'T', '=', 'E', 'U',
        'T'] ++ List.replicate 12 49 ++ [44]) := by
  refine ⟨fun h => ?_, fun h => ?_, fun h => ?_⟩
  all_goals
    have hlens := (getSubStr_iff (by decide) rfl rfl).mp h.terminated
    revert hlens
    decide

end Engcs

end Tarako
