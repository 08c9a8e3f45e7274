import Tarako.Engcs.RfNv

/-!
# Which calibration texts are sent

The conversion of a text stops at the first character that is no hexadecimal digit, and
leaves ones in the words behind it. `is_read_nv_correct` looks at the version, at the
antenna switch and at thirty words that must not be zero, which ones are not.
`isReadNvCorrect_iff` says which texts pass.
-/

namespace Tarako

namespace Engcs

open Text

def nvDigits (text : List UInt8) : List UInt8 := text.takeWhile Hex.isHexDigit

/-- Those of them that belong to word `j`. -/
def digitsOf (text : List UInt8) (j : ℕ) : List UInt8 := ((nvDigits text).drop (8 * j)).take 8

def checkedWords : List ℕ :=
  (List.range 14).map (NvField.DAC_scale_chnnl.offset + ·) ++ [NvField.tx_gain.offset] ++
    (List.range 15).map (NvField.reserved2.offset + ·)

/-- A text that passes the check: it begins with the version, the antenna switch has a
digit in front of the first bad character that is not `0`, and is not all ones; and so has
every word to be checked that does not begin behind that character. -/
structure Plausible (text : List UInt8) : Prop where
  version : text.take 8 = ofAscii ['0', '4', '0', '0', '0', '0', '0', '0']
  antenna : ∃ c ∈ digitsOf text NvField.antenna_switch.offset, c ≠ 48
  antenna_ne : (digitsOf text NvField.antenna_switch.offset).length = 8 →
    ∃ c ∈ digitsOf text NvField.antenna_switch.offset, c ≠ 70 ∧ c ≠ 102
  checked : ∀ j ∈ checkedWords, 8 * j ≤ (nvDigits text).length → ∃ c ∈ digitsOf text j, c ≠ 48

/-! ## The words of a text -/

theorem isHexDigit_of_mem_nvDigits {text : List UInt8} : ∀ c ∈ nvDigits text, Hex.isHexDigit c :=
  fun _ hc => List.mem_takeWhile_imp hc

theorem isHexDigit_of_mem_digitsOf {text : List UInt8} {j : ℕ} :
    ∀ c ∈ digitsOf text j, Hex.isHexDigit c := fun c hc =>
  isHexDigit_of_mem_nvDigits c (List.mem_of_mem_drop (List.mem_of_mem_take hc))

theorem length_digitsOf_le (text : List UInt8) (j : ℕ) : (digitsOf text j).length ≤ 8 := by
  rw [digitsOf, List.length_take]
  exact Nat.min_le_left _ _

section FirstWord

variable {text : List UInt8} (hlen : (text.take 8).length = 8)

theorem nvDigits_of_all (hall : (text.take 8).all Hex.isHexDigit) :
    nvDigits text = text.take 8 ++ nvDigits (text.drop 8) := by
  have hself := List.takeWhile_eq_self_iff.mpr (List.all_eq_true.mp hall)
  conv_lhs => rw [nvDigits, ← List.take_append_drop 8 text, List.takeWhile_append]
  rw [hself, if_pos rfl, nvDigits]

theorem nvDigits_of_not_all (hall : ¬ (text.take 8).all Hex.isHexDigit) :
    nvDigits text = (text.take 8).takeWhile Hex.isHexDigit ∧
      (nvDigits text).length < (text.take 8).length := by
  have hshort : ((text.take 8).takeWhile Hex.isHexDigit).length ≠ (text.take 8).length := by
    intro heq
    have hself := (List.takeWhile_prefix Hex.isHexDigit).eq_of_length heq
    exact hall (List.all_eq_true.mpr (List.takeWhile_eq_self_iff.mp hself))
  have hdigits : nvDigits text = (text.take 8).takeWhile Hex.isHexDigit := by
    conv_lhs => rw [nvDigits, ← List.take_append_drop 8 text, List.takeWhile_append]
    rw [if_neg hshort]
  have hle := (List.takeWhile_prefix (l := text.take 8) Hex.isHexDigit).length_le
  refine ⟨hdigits, ?_⟩
  rw [hdigits]
  exact Nat.lt_of_le_of_ne hle hshort

include hlen

theorem convertWord_take : convertWord 0 1 (text.take 8) =
    (wordOf ((text.take 8).takeWhile Hex.isHexDigit), (text.take 8).all Hex.isHexDigit) :=
  convertWord_eq [] (List.forall_mem_nil _) (Nat.le_of_eq ((Nat.zero_add _).trans hlen))

theorem digitsOf_succ (hall : (text.take 8).all Hex.isHexDigit) (j : ℕ) :
    digitsOf text (j + 1) = digitsOf (text.drop 8) j ∧
      (8 * (j + 1) ≤ (nvDigits text).length ↔ 8 * j ≤ (nvDigits (text.drop 8)).length) := by
  have hdigits := nvDigits_of_all hall
  constructor
  · rw [digitsOf, hdigits, Nat.mul_succ, Nat.add_comm, ← List.drop_drop, List.drop_left' hlen,
      digitsOf]
  · rw [hdigits, List.length_append, hlen]
    omega

end FirstWord

/-- The words up to the one with the first bad character come from the text, the others
are what they were. -/
theorem getElem?_convertStrToU32Hex {text : List UInt8} {bin : List UInt32}
    (h : text.length = 8 * bin.length) {j : ℕ} (hj : j < bin.length) :
    (convertStrToU32Hex text bin).1[j]? =
      if 8 * j ≤ (nvDigits text).length then some (wordOf (digitsOf text j)) else bin[j]? := by
  induction bin generalizing text j with
  | nil => exact absurd hj (Nat.not_lt_zero j)
  | cons y bin ih =>
      rw [List.length_cons] at h hj
      have hlen : (text.take 8).length = 8 := by
        rw [List.length_take]
        omega
      rw [convertStrToU32Hex, convertWord_take hlen]
      by_cases hall : (text.take 8).all Hex.isHexDigit
      · have hself : (text.take 8).takeWhile Hex.isHexDigit = text.take 8 :=
          List.takeWhile_eq_self_iff.mpr (List.all_eq_true.mp hall)
        simp only [hall, if_true, hself]
        cases j with
        | zero =>
            rw [digitsOf, nvDigits_of_all hall, Nat.mul_zero, List.drop_zero,
              List.take_left' hlen, if_pos (Nat.zero_le _)]
            rfl
        | succ j =>
            have hdrop : (text.drop 8).length = 8 * bin.length := by
              rw [List.length_drop]
              omega
            obtain ⟨hsame, hle⟩ := digitsOf_succ hlen hall j
            rw [List.getElem?_cons_succ, ih hdrop (Nat.lt_of_succ_lt_succ hj), hsame,
              List.getElem?_cons_succ]
            simp only [hle]
      · obtain ⟨hdigits, hshort⟩ := nvDigits_of_not_all hall
        simp only [hall, Bool.false_eq_true, if_false]
        cases j with
        | zero =>
            have hwhole := List.take_of_length_le (hshort.le.trans (Nat.le_of_eq hlen))
            rw [digitsOf, Nat.mul_zero, List.drop_zero, if_pos (Nat.zero_le _), hwhole, hdigits]
            rfl
        | succ j =>
            rw [if_neg (by omega)]
            rfl

theorem nvOfText_apply (text : NvAdjustRegPad) (f : NvField) (i : Fin f.size) :
    nvOfText text.bytes f i = if 8 * (f.offset + i) ≤ (nvDigits text.bytes).length then
      u32ConvertToLe (wordOf (digitsOf text.bytes (f.offset + i))) else 0xFFFFFFFF := by
  have hend : f.offset + f.size ≤ NV_WORDS := by
    cases f <;> decide
  have hj : f.offset + i < (List.replicate NV_WORDS (0xFFFFFFFF : UInt32)).length := by
    rw [List.length_replicate]
    have hi := i.isLt
    omega
  have hlen : text.bytes.length = 8 * (List.replicate NV_WORDS (0xFFFFFFFF : UInt32)).length := by
    rw [text.size_eq, List.length_replicate]
  rw [nvOfText, NvAdjustReg.ofWords, List.getD_eq_getElem?_getD, List.getElem?_map,
    getElem?_convertStrToU32Hex hlen hj]
  split_ifs
  · rfl
  · rw [List.getElem?_eq_getElem hj, List.getElem_replicate]
    decide

/-! ## What a word is compared with -/

theorem u32ConvertToLe_eq_iff {x y : UInt32} :
    u32ConvertToLe x = y ↔ x = u32ConvertToLe y := by
  constructor
  · rintro rfl
    exact (u32ConvertToLe_u32ConvertToLe x).symm
  · rintro rfl
    exact u32ConvertToLe_u32ConvertToLe y

theorem toNat_wordOf {digits : List UInt8} (hdigits : ∀ c ∈ digits, Hex.isHexDigit c)
    (hlen : digits.length ≤ 8) :
    (wordOf digits).toNat = Hex.value 0 digits * 16 ^ (8 - digits.length) := by
  have hlt : Hex.value 0 digits * 16 ^ (8 - digits.length) < 2 ^ 32 := by
    have hvalue := Hex.value_lt hdigits 0
    rw [Nat.zero_add, Nat.one_mul] at hvalue
    calc Hex.value 0 digits * 16 ^ (8 - digits.length)
        < 16 ^ digits.length * 16 ^ (8 - digits.length) :=
          Nat.mul_lt_mul_of_pos_right hvalue (Nat.pow_pos (by decide))
      _ = 16 ^ 8 := by rw [← Nat.pow_add, Nat.add_sub_cancel' hlen]
      _ = 2 ^ 32 := by decide
  rw [wordOf, UInt32.toNat_ofNat', Nat.mod_eq_of_lt hlt]

theorem digitValue_eq_iff {c : UInt8} (hc : Hex.isHexDigit c) :
    (Hex.digitValue c = 0 ↔ c = 48) ∧ (Hex.digitValue c = 4 ↔ c = 52) ∧
      (Hex.digitValue c = 15 ↔ c = 70 ∨ c = 102) := by
  have htable : ∀ m < 256, Hex.isHexDigit (UInt8.ofNat m) →
      (Hex.digitValue (UInt8.ofNat m) = 0 ↔ UInt8.ofNat m = 48) ∧
        (Hex.digitValue (UInt8.ofNat m) = 4 ↔ UInt8.ofNat m = 52) ∧
        (Hex.digitValue (UInt8.ofNat m) = 15 ↔ UInt8.ofNat m = 70 ∨ UInt8.ofNat m = 102) := by
    decide +kernel
  have h := htable c.toNat c.toNat_lt
  rw [UInt8.ofNat_toNat] at h
  exact h hc

def padded (digits : List UInt8) : List UInt8 := digits ++ List.replicate (8 - digits.length) 48

theorem value_replicate_zero (n k : ℕ) : Hex.value n (List.replicate k 48) = n * 16 ^ k := by
  induction k generalizing n with
  | zero => exact (Nat.mul_one n).symm
  | succ k ih =>
      change Hex.value (16 * n + 0) (List.replicate k 48) = _
      rw [ih, Nat.pow_succ', Nat.add_zero, Nat.mul_comm 16 n, Nat.mul_assoc]

section Digits

variable {digits : List UInt8} (hdigits : ∀ c ∈ digits, Hex.isHexDigit c)
  (hlen : digits.length ≤ 8)

include hlen

theorem length_padded_digits : (padded digits).length = 8 := by
  rw [padded, List.length_append, List.length_replicate]
  omega

include hdigits

theorem wordOf_eq_iff {l : List UInt8} (hl : ∀ c ∈ l, Hex.isHexDigit c) (hlen' : l.length = 8) :
    wordOf digits = wordOf l ↔ (padded digits).map Hex.digitValue = l.map Hex.digitValue := by
  have hpadded : ∀ c ∈ padded digits, Hex.isHexDigit c := by
    intro c hc
    rcases List.mem_append.mp hc with hc | hc
    · exact hdigits c hc
    · rw [List.eq_of_mem_replicate hc]
      decide
  have hvalue : Hex.value 0 (padded digits) = Hex.value 0 digits * 16 ^ (8 - digits.length) := by
    rw [← value_replicate_zero]
    exact List.foldl_append
  rw [← UInt32.toNat_inj, toNat_wordOf hdigits hlen, toNat_wordOf hl (Nat.le_of_eq hlen'),
    ← hvalue, hlen', Nat.sub_self, Nat.pow_zero, Nat.mul_one,
    Hex.value_inj hpadded hl ((length_padded_digits hlen).trans hlen'.symm)]
  exact and_iff_right rfl

theorem wordOf_eq_replicate_iff {c : UInt8} (hc : Hex.isHexDigit c) :
    wordOf digits = wordOf (List.replicate 8 c) ↔
      (∀ b ∈ digits, Hex.digitValue b = Hex.digitValue c) ∧
        (digits.length = 8 ∨ Hex.digitValue c = 0) := by
  have hl : ∀ b ∈ List.replicate 8 c, Hex.isHexDigit b := fun b hb =>
    List.eq_of_mem_replicate hb ▸ hc
  rw [wordOf_eq_iff hdigits hlen hl List.length_replicate, List.map_replicate,
    List.eq_replicate_iff, List.length_map, and_iff_right (length_padded_digits hlen)]
  simp only [List.forall_mem_map, padded, List.forall_mem_append]
  refine and_congr_right fun _ => ⟨fun h => ?_, fun h b hb => ?_⟩
  · by_cases hfull : digits.length = 8
    · exact Or.inl hfull
    · exact Or.inr (h 48 (List.mem_replicate.mpr ⟨by omega, rfl⟩)).symm
  · obtain ⟨hne, rfl⟩ := List.mem_replicate.mp hb
    rcases h with hfull | hzero
    · omega
    · exact hzero.symm

theorem wordOf_eq_zero_iff : wordOf digits = 0 ↔ ∀ c ∈ digits, c = 48 := by
  have hzero : wordOf (List.replicate 8 48) = 0 := by decide
  rw [← hzero, wordOf_eq_replicate_iff hdigits hlen (by decide),
    and_iff_left (Or.inr (by decide))]
  exact forall₂_congr fun c hc => (digitValue_eq_iff (hdigits c hc)).1

theorem wordOf_eq_ones_iff :
    wordOf digits = 0xFFFFFFFF ↔ digits.length = 8 ∧ ∀ c ∈ digits, c = 70 ∨ c = 102 := by
  have hones : wordOf (List.replicate 8 102) = 0xFFFFFFFF := by decide
  rw [← hones, wordOf_eq_replicate_iff hdigits hlen (by decide), or_iff_left (by decide),
    and_comm]
  refine and_congr_right fun _ => ?_
  exact forall₂_congr fun c hc => (digitValue_eq_iff (hdigits c hc)).2.2

end Digits

theorem wordOf_eq_version_iff {digits : List UInt8} (hdigits : ∀ c ∈ digits, Hex.isHexDigit c)
    (hlen : digits.length = 8) : wordOf digits = 0x04000000 ↔
      digits = ofAscii ['0', '4', '0', '0', '0', '0', '0', '0'] := by
  have hsame : ∀ (l m : List UInt8), (∀ c ∈ l, Hex.isHexDigit c) → (∀ c ∈ m, c = 48 ∨ c = 52) →
      l.map Hex.digitValue = m.map Hex.digitValue → l = m := by
    intro l m hl hm hmap
    induction l generalizing m with
    | nil => exact (List.map_eq_nil_iff.mp hmap.symm).symm
    | cons b l ih =>
        cases m with
        | nil => cases hmap
        | cons c m =>
            obtain ⟨hb, hl⟩ := List.forall_mem_cons.mp hl
            obtain ⟨hc, hm⟩ := List.forall_mem_cons.mp hm
            obtain ⟨hhead, htail⟩ := List.cons.inj hmap
            rw [ih m hl hm htail]
            rcases hc with rfl | rfl
            · rw [(digitValue_eq_iff hb).1.mp hhead]
            · rw [(digitValue_eq_iff hb).2.1.mp hhead]
  have hversion : wordOf (ofAscii ['0', '4', '0', '0', '0', '0', '0', '0']) = 0x04000000 := by
    decide
  have hzeros : ∀ c ∈ ofAscii ['0', '4', '0', '0', '0', '0', '0', '0'], Hex.isHexDigit c :=
    List.all_eq_true.mp (by decide)
  have hpadded : padded digits = digits := by
    rw [padded, hlen, Nat.sub_self, List.replicate_zero, List.append_nil]
  constructor
  · intro heq
    rw [← hversion, wordOf_eq_iff hdigits (Nat.le_of_eq hlen) hzeros (by decide),
      hpadded] at heq
    exact hsame _ _ hdigits (forall_mem_of_all (by decide)) heq
  · rintro rfl
    exact hversion

/-! ## Which texts are sent -/

/-- A word is not zero when it comes from a text with a digit that is not, or from behind
the first bad character. -/
theorem nvOfText_ne_zero_iff (text : NvAdjustRegPad) (f : NvField) (i : Fin f.size) :
    nvOfText text.bytes f i ≠ 0 ↔ (8 * (f.offset + i) ≤ (nvDigits text.bytes).length →
      ∃ c ∈ digitsOf text.bytes (f.offset + i), c ≠ 48) := by
  have hzero : u32ConvertToLe 0 = 0 := by decide
  rw [nvOfText_apply]
  split_ifs with hle
  · rw [ne_eq, u32ConvertToLe_eq_iff, hzero,
      wordOf_eq_zero_iff isHexDigit_of_mem_digitsOf (length_digitsOf_le _ _)]
    simp [hle]
  · simp [hle]

theorem nvOfText_ne_ones_iff (text : NvAdjustRegPad) (f : NvField) (i : Fin f.size) :
    nvOfText text.bytes f i ≠ 0xFFFFFFFF ↔ 8 * (f.offset + i) ≤ (nvDigits text.bytes).length ∧
      ((digitsOf text.bytes (f.offset + i)).length = 8 →
        ∃ c ∈ digitsOf text.bytes (f.offset + i), c ≠ 70 ∧ c ≠ 102) := by
  have hones : u32ConvertToLe 0xFFFFFFFF = 0xFFFFFFFF := by decide
  rw [nvOfText_apply]
  split_ifs with hle
  · rw [ne_eq, u32ConvertToLe_eq_iff, hones,
      wordOf_eq_ones_iff isHexDigit_of_mem_digitsOf (length_digitsOf_le _ _)]
    simp [hle]
  · simp [hle]

theorem forall_checkedWords_iff (p : ℕ → Prop) : (∀ j ∈ checkedWords, p j) ↔
    (∀ i : Fin NvField.DAC_scale_chnnl.size, (i : ℕ) < 14 →
        p (NvField.DAC_scale_chnnl.offset + i)) ∧
      p NvField.tx_gain.offset ∧
      ∀ i : Fin NvField.reserved2.size, (i : ℕ) < 15 → p (NvField.reserved2.offset + i) := by
  have hrange : ∀ f : NvField, ∀ n ≤ f.size,
      (∀ j ∈ (List.range n).map (f.offset + ·), p j) ↔
        ∀ i : Fin f.size, (i : ℕ) < n → p (f.offset + i) := by
    intro f n hn
    simp only [List.forall_mem_map, List.mem_range]
    exact ⟨fun h i hi => h i hi, fun h i hi => h ⟨i, by omega⟩ hi⟩
  rw [checkedWords, List.forall_mem_append, List.forall_mem_append,
    hrange .DAC_scale_chnnl 14 (by decide), hrange .reserved2 15 (by decide),
    List.forall_mem_singleton, and_assoc]

theorem nv_ver_eq_iff {text : NvAdjustRegPad} (h : 8 ≤ (nvDigits text.bytes).length) :
    nvOfText text.bytes .nv_ver ⟨0, by decide⟩ = NV_VERSION_NO ↔
      text.bytes.take 8 = ofAscii ['0', '4', '0', '0', '0', '0', '0', '0'] := by
  have hle : 8 * (NvField.nv_ver.offset + 0) ≤ (nvDigits text.bytes).length := Nat.zero_le _
  have hdigits : digitsOf text.bytes (NvField.nv_ver.offset + 0) = text.bytes.take 8 := by
    change (nvDigits text.bytes).take 8 = _
    have htake := List.prefix_iff_eq_take.mp (List.takeWhile_prefix (l := text.bytes)
      Hex.isHexDigit)
    rw [nvDigits] at h ⊢
    rw [htake, List.take_take, Nat.min_eq_left h]
  have hlen : (digitsOf text.bytes (NvField.nv_ver.offset + 0)).length = 8 := by
    change ((nvDigits text.bytes).take 8).length = 8
    rw [List.length_take, Nat.min_eq_left h]
  have hversion : u32ConvertToLe NV_VERSION_NO = 0x04000000 := by decide
  rw [nvOfText_apply, if_pos hle, u32ConvertToLe_eq_iff, hversion,
    wordOf_eq_version_iff isHexDigit_of_mem_digitsOf hlen, hdigits]

theorem isReadNvCorrect_iff (text : NvAdjustRegPad) :
    IsReadNvCorrect (nvOfText text.bytes) ↔ Plausible text.bytes := by
  have hfirst : 8 * NvField.antenna_switch.offset ≤ (nvDigits text.bytes).length →
      8 ≤ (nvDigits text.bytes).length := by
    have hoffset : NvField.antenna_switch.offset = 3 := by decide
    omega
  constructor
  · rintro ⟨hversion, ⟨hzero, hones⟩, hdac, htx, hreserved⟩
    obtain ⟨hle, hones⟩ := (nvOfText_ne_ones_iff text _ _).mp hones
    refine ⟨(nv_ver_eq_iff (hfirst hle)).mp hversion,
      (nvOfText_ne_zero_iff text _ _).mp hzero hle, hones, ?_⟩
    rw [forall_checkedWords_iff]
    exact ⟨fun i hi => (nvOfText_ne_zero_iff text _ i).mp (hdac i hi),
      (nvOfText_ne_zero_iff text _ _).mp htx,
      fun i hi => (nvOfText_ne_zero_iff text _ i).mp (hreserved i hi)⟩
  · rintro ⟨hversion, hzero, hones, hchecked⟩
    have hle : 8 * NvField.antenna_switch.offset ≤ (nvDigits text.bytes).length := by
      obtain ⟨c, hc, -⟩ := hzero
      have hpos := List.length_pos_of_mem hc
      rw [digitsOf, List.length_take, List.length_drop] at hpos
      omega
    rw [forall_checkedWords_iff] at hchecked
    obtain ⟨hdac, htx, hreserved⟩ := hchecked
    exact ⟨(nv_ver_eq_iff (hfirst hle)).mpr hversion,
      ⟨(nvOfText_ne_zero_iff text _ _).mpr fun _ => hzero,
        (nvOfText_ne_ones_iff text _ _).mpr ⟨hle, hones⟩⟩,
      fun i hi => (nvOfText_ne_zero_iff text _ i).mpr (hdac i hi),
      (nvOfText_ne_zero_iff text _ _).mpr htx,
      fun i hi => (nvOfText_ne_zero_iff text _ i).mpr (hreserved i hi)⟩

theorem isSome_getRfNvconf_iff (text : NvAdjustRegPad) :
    (getRfNvconf text).isSome ↔ Plausible text.bytes := by
  rw [← isReadNvCorrect_iff, getRfNvconf]
  split_ifs with h <;> simp [h]

/-- Only texts of digits are sent, except for those that are plausible up to the first bad
character. -/
theorem sends_only_digits_iff (text : NvAdjustRegPad) :
    ((getRfNvconf text).isSome → ∀ c ∈ text.bytes, Hex.isHexDigit c) ↔
      (∀ c ∈ text.bytes, Hex.isHexDigit c) ∨ ¬ Plausible text.bytes := by
  rw [isSome_getRfNvconf_iff, or_comm]
  exact imp_iff_not_or

/-- The version, zeros, and the first digit of the antenna switch. -/
def cutDigits : List UInt8 :=
  ofAscii ['0', '4', '0', '0', '0', '0', '0', '0'] ++ (List.replicate 16 48 ++ [49])

def cutText : NvAdjustRegPad where
  bytes := cutDigits ++ 0 :: List.replicate (8 * NV_WORDS - 26) 0
  size_eq := by
    rw [List.length_append, List.length_cons, List.length_replicate]
    rfl

theorem not_sends_only_digits_cutText :
    ¬ ((getRfNvconf cutText).isSome → ∀ c ∈ cutText.bytes, Hex.isHexDigit c) := by
  have hdigits : nvDigits cutText.bytes = cutDigits :=
    Hex.takeWhile_isHexDigit_append (List.all_eq_true.mp (by decide)) Hex.zero_not_isHexDigit _
  have hplausible : Plausible cutText.bytes := by
    refine ⟨?_, ?_, ?_, ?_⟩
    · change (cutDigits ++ _).take 8 = _
      rw [List.take_append_of_le_length (by decide)]
      decide
    · rw [digitsOf, hdigits]
      decide
    · rw [digitsOf, hdigits]
      decide
    · rw [hdigits]
      decide
  intro h
  have hzero : (0 : UInt8) ∈ cutText.bytes :=
    List.mem_append_right _ List.mem_cons_self
  exact absurd (h ((isSome_getRfNvconf_iff cutText).mpr hplausible) 0 hzero) (by decide)

end Engcs

end Tarako
