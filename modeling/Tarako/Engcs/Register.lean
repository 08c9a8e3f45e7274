import Tarako.Engcs.SendData

/-!
# Registration of clients

A client registers with the text `name:type`. `clinet_info_getnametype` looks for the colon to
read the type, but takes the name to end two bytes before the end of the text, which is right for
a type of one digit.
-/

namespace Tarako

namespace Engcs

open Splice Text

def ENG_MAX_CLIENT_NAME_LEN : ℕ := 20

def ENG_APPCLIENT : List UInt8 := ofAscii ['a', 'p', 'p', 'c', 'l', 'i', 'e', 'n', 't']

/-- The text that `eng_at_handshake` sends, where `client` is `ENG_APPCLIENT`. -/
def engAtHandshake (client : List UInt8) (type : ℤ) : List UInt8 :=
  client ++ 0x3A :: decimalInt type

/-- `strncpy(buf, src, n)`: the string of `src`, cut or filled up with NULs to `n` bytes. -/
def strncpy {k : ℕ} (buf : Buffer UInt8 k) (src : List UInt8) (n : ℕ) : Option (Buffer UInt8 k) :=
  buf.write? 0 ((cstring src).take n ++ List.replicate (n - (cstring src).length) 0)

/-- `clinet_info_getnametype`: the type that is returned, and `name`; no result when a copy
leaves `name`. -/
def clinetInfoGetnametype (input : List UInt8) (name : Buffer UInt8 ENG_MAX_CLIENT_NAME_LEN) :
    Option (ℤ × Buffer UInt8 ENG_MAX_CLIENT_NAME_LEN) :=
  match cutAt 0x3A input with
  | none => (name.write? 0 (cstring input ++ [0])).map fun name => (0, name)
  | some (_, ptr) =>
      -- the length is unsigned: a text of the colon alone wraps around
      (strncpy name input (((cstring input).length + 2 ^ 32 - 2) % 2 ^ 32)).map fun name =>
        (atoi32 ptr, name)

/-- A name that fits `name` with its NUL and has no colon. -/
structure RegName where
  text : List UInt8
  length_pos : 0 < text.length
  length_lt : text.length < ENG_MAX_CLIENT_NAME_LEN
  colon_not_mem : 0x3A ∉ text
  nul_not_mem : 0 ∉ text

/-- The server gets the type, and the name with a NUL behind it. -/
def Registers (name : RegName) (type : ℤ) (regname : Buffer UInt8 ENG_MAX_CLIENT_NAME_LEN) :
    Prop :=
  ∃ regname', clinetInfoGetnametype (engAtHandshake name.text type) regname =
      some (type, regname') ∧
    regname'.bytes.take (name.text.length + 1) = name.text ++ [0]

/-! ## What the server reads -/

theorem decimalInt_natCast (n : ℕ) : decimalInt n = decimal n := by
  rw [decimalInt, if_neg (Int.not_lt.mpr (Int.natCast_nonneg n)), Int.natAbs_natCast]

theorem atoi32_decimal {n : ℕ} (h : n < 2 ^ 31) : atoi32 (decimal n) = n := by
  rw [atoi32, atoi_decimal]
  omega

theorem strncpy_of_le {k n : ℕ} {buf : Buffer UInt8 k} {src : List UInt8}
    (hn : n ≤ (cstring src).length) :
    strncpy buf src n = buf.write? 0 ((cstring src).take n) := by
  rw [strncpy, Nat.sub_eq_zero_of_le hn, List.replicate_zero, List.append_nil]

namespace RegName

variable (name : RegName)

theorem cstring_engAtHandshake (n : ℕ) :
    cstring (engAtHandshake name.text n) = name.text ++ 0x3A :: decimal n := by
  have hnul : 0 ∉ name.text ++ 0x3A :: decimal n := by
    rw [List.mem_append, List.mem_cons]
    rintro (h | h | h)
    · exact name.nul_not_mem h
    · exact absurd h (by decide)
    · exact absurd (isDigit_of_mem_decimal h) (by decide)
  rw [engAtHandshake, decimalInt_natCast, cstring_of_not_mem hnul]

/-- The text without its last two bytes, which are not counted for the name. -/
theorem clinetInfoGetnametype_engAtHandshake {type : ℕ} (htype : type < 2 ^ 31)
    (regname : Buffer UInt8 ENG_MAX_CLIENT_NAME_LEN) :
    clinetInfoGetnametype (engAtHandshake name.text type) regname =
      (regname.write? 0
        (name.text ++ (0x3A :: decimal type).take ((decimal type).length - 1))).map
          fun regname' => ((type : ℤ), regname') := by
  have hcut : cutAt 0x3A (engAtHandshake name.text type) = some (name.text, decimal type) := by
    rw [engAtHandshake, decimalInt_natCast]
    exact cutAt_append name.colon_not_mem name.nul_not_mem _
  have hpos := length_decimal_pos type
  have hdigits : (decimal type).length ≤ 10 :=
    (length_decimal_le_iff (by decide)).mpr (by omega)
  have hname : name.text.length < 20 := name.length_lt
  have hlen : (cstring (engAtHandshake name.text type)).length =
      name.text.length + ((decimal type).length + 1) := by
    rw [name.cstring_engAtHandshake, List.length_append, List.length_cons]
  have hcount : ((cstring (engAtHandshake name.text type)).length + 2 ^ 32 - 2) % 2 ^ 32 =
      name.text.length + ((decimal type).length - 1) := by
    rw [hlen]
    omega
  rw [clinetInfoGetnametype, hcut]
  change (strncpy _ _ _).map _ = _
  rw [hcount, strncpy_of_le (by rw [hlen]; omega), name.cstring_engAtHandshake,
    List.take_length_add_append, atoi32_decimal htype]

end RegName

/-- The name with a NUL behind it, where the name is what `regname` begins with. -/
theorem take_append_eq_iff {s r : List UInt8} :
    (s ++ r).take (s.length + 1) = s ++ [0] ↔ r.head? = some 0 := by
  rw [List.take_length_add_append, List.append_cancel_left_eq]
  cases r with
  | nil => exact ⟨fun h => absurd h (List.cons_ne_nil _ _).symm, fun h => absurd h (by simp)⟩
  | cons b r => simp

theorem registers_iff_head (name : RegName) {type : ℕ} (htype : type < 2 ^ 31)
    (regname : Buffer UInt8 ENG_MAX_CLIENT_NAME_LEN) {colon : List UInt8}
    (hcolon : (0x3A :: decimal type).take ((decimal type).length - 1) = colon) :
    Registers name type regname ↔
      name.text.length + colon.length ≤ ENG_MAX_CLIENT_NAME_LEN ∧
        (colon ++ regname.bytes.drop (name.text.length + colon.length)).head? = some 0 := by
  have hbytes : splice regname.bytes 0 (name.text ++ colon) =
      name.text ++ (colon ++ regname.bytes.drop (name.text.length + colon.length)) := by
    rw [splice, List.take_zero, List.nil_append, Nat.zero_add, List.length_append,
      List.append_assoc]
  rw [Registers, name.clinetInfoGetnametype_engAtHandshake htype, hcolon]
  constructor
  · rintro ⟨regname', hcall, htake⟩
    obtain ⟨written, hwrite, heq⟩ := Option.map_eq_some_iff.mp hcall
    obtain rfl := (Prod.mk.inj heq).2
    obtain ⟨hroom, hwritten⟩ := (Buffer.write?_eq_some_iff _ _ _ _).mp hwrite
    rw [hwritten, hbytes, take_append_eq_iff] at htake
    rw [Nat.zero_add, List.length_append] at hroom
    exact ⟨hroom, htake⟩
  · rintro ⟨hroom, hhead⟩
    have hfits : 0 + (name.text ++ colon).length ≤ ENG_MAX_CLIENT_NAME_LEN := by
      rw [Nat.zero_add, List.length_append]
      exact hroom
    refine ⟨regname.write 0 (name.text ++ colon) hfits, ?_, ?_⟩
    · rw [Buffer.write?, dif_pos hfits]
      rfl
    · exact (congrArg (List.take _) hbytes).trans (take_append_eq_iff.mpr hhead)

/-- The registration is read back if and only if the type has one digit and `regname` has a NUL
where the name ends, as `memset` leaves it. -/
theorem registers_iff (name : RegName) {type : ℕ} (htype : type < 2 ^ 31)
    (regname : Buffer UInt8 ENG_MAX_CLIENT_NAME_LEN) :
    Registers name type regname ↔
      type < 10 ∧ regname.bytes[name.text.length]? = some 0 := by
  rw [registers_iff_head name htype regname rfl]
  have hpos := length_decimal_pos type
  by_cases hone : type < 10
  · have hlen : (decimal type).length = 1 :=
      Nat.le_antisymm ((length_decimal_le_iff Nat.one_pos).mpr hone) hpos
    have hname := Nat.le_of_lt name.length_lt
    rw [hlen, Nat.sub_self, List.take_zero, List.nil_append, List.length_nil, Nat.add_zero,
      List.head?_drop]
    exact and_congr_left fun _ => iff_of_true hname hone
  · have hlen : ¬(decimal type).length ≤ 1 :=
      fun h => hone ((length_decimal_le_iff Nat.one_pos).mp h)
    obtain ⟨n, hn⟩ : ∃ n, (decimal type).length - 1 = n + 1 :=
      ⟨(decimal type).length - 2, by omega⟩
    -- the colon is copied behind the name
    rw [hn, List.take_succ_cons, List.cons_append, List.head?_cons]
    refine iff_of_false ?_ (fun h => hone h.1)
    rintro ⟨-, hcolon⟩
    exact absurd (Option.some.inj hcolon) (by decide)

def RegName.appclient : RegName :=
  ⟨ENG_APPCLIENT, by decide, by decide, by decide, by decide⟩

theorem registers_iff_appclient :
    Registers .appclient (3 : ℕ) (Buffer.fill ENG_MAX_CLIENT_NAME_LEN 0) ↔
      3 < 10 ∧ (Buffer.fill ENG_MAX_CLIENT_NAME_LEN (0 : UInt8)).bytes[9]? = some 0 :=
  registers_iff .appclient (by decide) (Buffer.fill ENG_MAX_CLIENT_NAME_LEN 0)

/-- `appclient:10` is stored as `appclient:`. -/
theorem not_registers_ten :
    ¬∀ (name : RegName) (type : ℕ), type < 2 ^ 31 →
      Registers name type (Buffer.fill ENG_MAX_CLIENT_NAME_LEN 0) := by
  intro h
  have hcolon : (0x3A :: decimal 10).take ((decimal 10).length - 1) = [0x3A] := by
    decide +kernel
  have hten := (registers_iff_head .appclient (by decide) _ hcolon).mp
    (h .appclient 10 (by decide))
  exact absurd (Option.some.inj hten.2) (by decide)

end Engcs

end Tarako
