import Mathlib.Algebra.Order.BigOperators.Group.List
import Tarako.Lib.Hex
import Tarako.Lib.Splice
import Tarako.Lib.Words

/-!
# The RF calibration data

The structure that the driver takes is kept as a text of eight hexadecimal digits for each
of its words. `set_rf_nvconf` prints the bytes as they lie in memory; `get_rf_nvconf` puts
the words together from the first digit on and turns their bytes around.
-/

namespace Tarako

namespace Engcs

/-- The fields of `NV_ADJUST_REG_T`, in its order. -/
inductive NvField
  | nv_ver
  | cal_flag
  | updated_nv_flag
  | antenna_switch
  | pa_id
  | lna_id
  | wifi_imb
  | wifi_LOFT
  | DAC_scale_chnnl
  | PA_table
  | tx_gain
  | PAD_table
  | BT_LOFT
  | Pout_self_check
  | reserved
  | btImb
  | btPaTbl
  | btPadTbl
  | wifiDcoc
  | btDcoc
  | reserved2
deriving DecidableEq

namespace NvField

def size : NvField → ℕ
  | nv_ver | cal_flag | updated_nv_flag | antenna_switch | pa_id | lna_id => 1
  | wifi_imb => 2
  | wifi_LOFT => 4
  | DAC_scale_chnnl => 14
  | PA_table => 32
  | tx_gain => 2
  | PAD_table => 32
  | BT_LOFT => 4
  | Pout_self_check => 18
  | reserved => 8
  | btImb => 2
  | btPaTbl => 6
  | btPadTbl => 6
  | wifiDcoc => 64
  | btDcoc => 32
  | reserved2 => 50

def all : List NvField :=
  [nv_ver, cal_flag, updated_nv_flag, antenna_switch, pa_id, lna_id, wifi_imb, wifi_LOFT,
    DAC_scale_chnnl, PA_table, tx_gain, PAD_table, BT_LOFT, Pout_self_check, reserved, btImb,
    btPaTbl, btPadTbl, wifiDcoc, btDcoc, reserved2]

def offset (f : NvField) : ℕ := ((all.takeWhile (· ≠ f)).map size).sum

end NvField

def NV_WORDS : ℕ := (NvField.all.map NvField.size).sum

abbrev NvAdjustReg := (f : NvField) → Fin f.size → UInt32

/-- `NV_ADJUST_REG_pad_ST`, eight characters for each word. -/
abbrev NvAdjustRegPad := Buffer UInt8 (8 * NV_WORDS)

namespace NvAdjustReg

def words (nv : NvAdjustReg) : List UInt32 := NvField.all.flatMap fun f => List.ofFn (nv f)

def ofWords (words : List UInt32) : NvAdjustReg := fun f i => words.getD (f.offset + i) 0

end NvAdjustReg

/-! ## `ConvertU32HexToStr` -/

/-- The digit that `conv_hex2str` prints for four bits. -/
def hexChar (c : UInt8) : UInt8 :=
  if c ≤ 9 then c + 48 else if 10 ≤ c ∧ c ≤ 15 then c - 10 + 97 else c

def convHex2str (hex : UInt8) : List UInt8 :=
  [hexChar ((hex >>> 4) &&& 15), hexChar (hex &&& 15)]

def convertU32HexToStr (bin : List UInt8) : List UInt8 := bin.flatMap convHex2str

/-! ## `ConvertStrToU32Hex` -/

def convStr2hex (ch : UInt8) : Option UInt8 :=
  if 48 ≤ ch ∧ ch ≤ 57 then some (ch - 48)
  else if 97 ≤ ch ∧ ch ≤ 102 then some (ch - 97 + 10)
  else if 65 ≤ ch ∧ ch ≤ 70 then some (ch - 65 + 10)
  else none

/-- The inner loop, with the word so far, and whether every character was a digit. -/
def convertWord (dest : UInt32) (a : ℕ) : List UInt8 → UInt32 × Bool
  | [] => (dest, true)
  | ch :: text =>
      match convStr2hex ch with
      | none => (dest, false)
      | some chBin =>
          convertWord (dest ||| (chBin.toUInt32 <<< UInt32.ofNat (32 - a * 4))) (a + 1) text

/-- `ConvertStrToU32Hex` over the words at `bin_ptr`: the words afterwards and what is
returned. The words behind the first bad character stay what they were. -/
def convertStrToU32Hex : List UInt8 → List UInt32 → List UInt32 × Bool
  | _, [] => ([], true)
  | text, _ :: bin =>
      let (word, ok) := convertWord 0 1 (text.take 8)
      if ok then
        let (words, ret) := convertStrToU32Hex (text.drop 8) bin
        (word :: words, ret)
      else (word :: bin, false)

/-- `SWAP_BYTE_ORDER_WORD`. -/
def u32ConvertToLe (val : UInt32) : UInt32 :=
  ((val &&& 0x000000FF) <<< 24) + ((val &&& 0x0000FF00) <<< 8) +
    ((val &&& 0x00FF0000) >>> 8) + ((val &&& 0xFF000000) >>> 24)

/-! ## The two programs -/

/-- The text that `set_rf_nvconf` writes. -/
def nvText (nv : NvAdjustReg) : List UInt8 :=
  convertU32HexToStr (nv.words.flatMap Words.bytes32)

/-- What `get_rf_nvconf` makes of a text: the structure is filled with ones, converted,
and the words are turned around. What the conversion returns is not looked at. -/
def nvOfText (text : List UInt8) : NvAdjustReg :=
  NvAdjustReg.ofWords
    ((convertStrToU32Hex text (List.replicate NV_WORDS 0xFFFFFFFF)).1.map u32ConvertToLe)

def NV_VERSION_NO : UInt32 := 4

def IsReadNvCorrect (nv : NvAdjustReg) : Prop :=
  nv .nv_ver ⟨0, by decide⟩ = NV_VERSION_NO ∧
    (nv .antenna_switch ⟨0, by decide⟩ ≠ 0 ∧ nv .antenna_switch ⟨0, by decide⟩ ≠ 0xFFFFFFFF) ∧
    (∀ i : Fin NvField.DAC_scale_chnnl.size, (i : ℕ) < 14 → nv .DAC_scale_chnnl i ≠ 0) ∧
    nv .tx_gain ⟨0, by decide⟩ ≠ 0 ∧
    ∀ i : Fin NvField.reserved2.size, (i : ℕ) < 15 → nv .reserved2 i ≠ 0

instance (nv : NvAdjustReg) : Decidable (IsReadNvCorrect nv) :=
  inferInstanceAs (Decidable (_ ∧ _ ∧ _ ∧ _ ∧ _))

/-- What `get_rf_nvconf` sends to the driver, once the text has been read. -/
def getRfNvconf (text : NvAdjustRegPad) : Option NvAdjustReg :=
  if IsReadNvCorrect (nvOfText text.bytes) then some (nvOfText text.bytes) else none

/-! ## Bytes and bits -/

theorem and_shiftLeft (n m k : ℕ) : n &&& (m <<< k) = ((n >>> k) &&& m) <<< k := by
  apply Nat.eq_of_testBit_eq
  intro i
  by_cases hk : k ≤ i
  · simp [hk]
  · simp [hk]

theorem toNat_u32ConvertToLe (x : UInt32) :
    (u32ConvertToLe x).toNat = x.toNat % 256 * 16777216 + x.toNat / 256 % 256 * 65536 +
      x.toNat / 65536 % 256 * 256 + x.toNat / 16777216 := by
  have hx := x.toNat_lt
  have hmask : ∀ k, x.toNat &&& (255 <<< k) = x.toNat / 2 ^ k % 256 * 2 ^ k := by
    intro k
    rw [and_shiftLeft, Nat.shiftRight_eq_div_pow, Nat.shiftLeft_eq,
      Nat.and_two_pow_sub_one_eq_mod _ 8]
  have h0 : x.toNat &&& 0x000000FF = x.toNat % 256 := Nat.and_two_pow_sub_one_eq_mod _ 8
  have h1 : x.toNat &&& 0x0000FF00 = x.toNat / 256 % 256 * 256 := hmask 8
  have h2 : x.toNat &&& 0x00FF0000 = x.toNat / 65536 % 256 * 65536 := hmask 16
  have h3 : x.toNat &&& 0xFF000000 = x.toNat / 16777216 % 256 * 16777216 := hmask 24
  have htop : x.toNat / 16777216 % 256 = x.toNat / 16777216 := by omega
  have hmod : ∀ n, n % 256 < 256 := fun n => Nat.mod_lt n (by decide)
  have ha := hmod x.toNat
  have hb := hmod (x.toNat / 256)
  have hc := hmod (x.toNat / 65536)
  have hd := hmod (x.toNat / 16777216)
  rw [← htop]
  simp only [u32ConvertToLe, UInt32.toNat_add, UInt32.toNat_shiftLeft, UInt32.toNat_shiftRight,
    UInt32.toNat_and, UInt32.reduceToNat, h0, h1, h2, h3, Nat.shiftLeft_eq,
    Nat.shiftRight_eq_div_pow, Nat.reduceMod, Nat.reducePow]
  generalize x.toNat % 256 = a at *
  generalize x.toNat / 256 % 256 = b at *
  generalize x.toNat / 65536 % 256 = c at *
  generalize x.toNat / 16777216 % 256 = d at *
  clear htop h0 h1 h2 h3 hmask
  omega

theorem toNat_u32ConvertToLe_of_bytes {x : UInt32} {a b c d : ℕ} (ha : a < 256) (hb : b < 256)
    (hc : c < 256) (hx : x.toNat = a + 256 * b + 65536 * c + 16777216 * d) :
    (u32ConvertToLe x).toNat = d + 256 * c + 65536 * b + 16777216 * a := by
  rw [toNat_u32ConvertToLe, hx]
  omega

theorem u32ConvertToLe_u32ConvertToLe (x : UInt32) : u32ConvertToLe (u32ConvertToLe x) = x := by
  have hlt := x.toNat_lt
  have hx : x.toNat = x.toNat % 256 + 256 * (x.toNat / 256 % 256) +
      65536 * (x.toNat / 65536 % 256) + 16777216 * (x.toNat / 16777216) := by
    omega
  have hmod : ∀ n, n % 256 < 256 := fun n => Nat.mod_lt n (by decide)
  have hswap := toNat_u32ConvertToLe_of_bytes (hmod _) (hmod _) (hmod _) hx
  apply UInt32.toNat_inj.mp
  rw [toNat_u32ConvertToLe_of_bytes (by omega) (hmod _) (hmod _) hswap]
  exact hx.symm

theorem convHex2str_spec (b : UInt8) (n : ℕ) :
    (∀ c ∈ convHex2str b, Hex.isHexDigit c) ∧
      Hex.value n (convHex2str b) = 256 * n + b.toNat := by
  have htable : ∀ m < 256, (convHex2str (UInt8.ofNat m)).all Hex.isHexDigit ∧
      (convHex2str (UInt8.ofNat m)).map Hex.digitValue = [m / 16, m % 16] := by
    decide +kernel
  obtain ⟨hdigits, hmap⟩ := htable b.toNat b.toNat_lt
  rw [UInt8.ofNat_toNat] at hdigits hmap
  refine ⟨List.all_eq_true.mp hdigits, ?_⟩
  have hvalue : Hex.value n (convHex2str b) =
      ((convHex2str b).map Hex.digitValue).foldl (fun n d => 16 * n + d) n := by
    rw [List.foldl_map]
    rfl
  rw [hvalue, hmap]
  change 16 * (16 * n + b.toNat / 16) + b.toNat % 16 = _
  omega

theorem convStr2hex_eq (ch : UInt8) :
    convStr2hex ch =
      if Hex.isHexDigit ch then some (UInt8.ofNat (Hex.digitValue ch)) else none := by
  have htable : ∀ m < 256, convStr2hex (UInt8.ofNat m) =
      if Hex.isHexDigit (UInt8.ofNat m) then
        some (UInt8.ofNat (Hex.digitValue (UInt8.ofNat m))) else none := by
    decide +kernel
  have hch := htable ch.toNat ch.toNat_lt
  rwa [UInt8.ofNat_toNat] at hch

/-! ## Words -/

def wordOf (digits : List UInt8) : UInt32 :=
  UInt32.ofNat (Hex.value 0 digits * 16 ^ (8 - digits.length))

theorem wordOf_concat {digits : List UInt8} (hdigits : ∀ c ∈ digits, Hex.isHexDigit c)
    (hlen : digits.length < 8) {ch : UInt8} (hch : Hex.isHexDigit ch) :
    wordOf digits ||| ((UInt8.ofNat (Hex.digitValue ch)).toUInt32 <<<
        UInt32.ofNat (32 - (digits.length + 1) * 4)) = wordOf (digits ++ [ch]) := by
  have hvalue := Hex.value_lt hdigits 0
  have hdigit := Hex.digitValue_lt hch
  generalize hn : Hex.value 0 digits = n at hvalue
  generalize hd : Hex.digitValue ch = d at hdigit
  -- the digit goes into the lowest of the four bits that are moved up by `4 * k`
  obtain ⟨k, hk⟩ : ∃ k, digits.length + k = 7 := ⟨7 - digits.length, by omega⟩
  have hshift : 32 - (digits.length + 1) * 4 = 4 * k := by omega
  have hnlt : n * 16 + d < 16 ^ (digits.length + 1) := by
    rw [Nat.pow_succ]
    omega
  have hbound : (n * 16 + d) * 16 ^ k < 2 ^ 32 := by
    calc (n * 16 + d) * 16 ^ k < 16 ^ (digits.length + 1) * 16 ^ k :=
          Nat.mul_lt_mul_of_pos_right hnlt (Nat.pow_pos (by decide))
      _ = 16 ^ 8 := by rw [← Nat.pow_add, Nat.add_right_comm, hk]
      _ = 2 ^ 32 := by decide
  have hpow : (2 : ℕ) ^ (4 * k) = 16 ^ k := by rw [Nat.pow_mul]
  have hconcat : Hex.value 0 (digits ++ [ch]) = n * 16 + d := by
    rw [← hn, ← hd, Nat.mul_comm]
    exact List.foldl_append
  have hor : n * 16 * 16 ^ k ||| d * 16 ^ k = (n * 16 + d) * 16 ^ k := by
    have hlow : n * 16 ||| d = n * 16 + d := by
      have h := Nat.shiftLeft_add_eq_or_of_lt (i := 4) hdigit n
      rw [Nat.shiftLeft_eq] at h
      exact h.symm
    rw [← hpow, ← Nat.shiftLeft_eq, ← Nat.shiftLeft_eq, ← Nat.shiftLeft_or_distrib,
      Nat.shiftLeft_eq, hlow]
  have hleft : 16 ^ (8 - digits.length) = 16 * 16 ^ k := by
    rw [← Nat.pow_succ', Nat.succ_eq_add_one]
    congr 1
    omega
  have hright : 8 - (digits ++ [ch]).length = k := by
    rw [List.length_append, List.length_singleton]
    omega
  have hle : n * 16 * 16 ^ k ≤ (n * 16 + d) * 16 ^ k :=
    Nat.mul_le_mul_right _ (Nat.le_add_right _ _)
  have hle' : d * 16 ^ k ≤ (n * 16 + d) * 16 ^ k :=
    Nat.mul_le_mul_right _ (Nat.le_add_left _ _)
  have hdmod : d % 2 ^ 8 = d := Nat.mod_eq_of_lt (by omega)
  have hkmod : 4 * k % 2 ^ 32 % 32 = 4 * k := by omega
  apply UInt32.toNat_inj.mp
  rw [hshift, wordOf, wordOf, hconcat, hn, hleft, hright, ← Nat.mul_assoc, UInt32.toNat_or,
    UInt32.toNat_shiftLeft, UInt8.toNat_toUInt32, UInt8.toNat_ofNat', UInt32.toNat_ofNat',
    UInt32.toNat_ofNat', UInt32.toNat_ofNat', hdmod, hkmod, Nat.shiftLeft_eq, hpow,
    Nat.mod_eq_of_lt hbound, Nat.mod_eq_of_lt (hle.trans_lt hbound),
    Nat.mod_eq_of_lt (hle'.trans_lt hbound), hor]

/-- A word is put together from the digits in front of the first bad character. -/
theorem convertWord_eq (digits : List UInt8) {text : List UInt8}
    (hdigits : ∀ c ∈ digits, Hex.isHexDigit c)
    (hlen : digits.length + text.length ≤ 8) :
    convertWord (wordOf digits) (digits.length + 1) text =
      (wordOf (digits ++ text.takeWhile Hex.isHexDigit), text.all Hex.isHexDigit) := by
  induction text generalizing digits with
  | nil => rw [List.takeWhile_nil, List.append_nil, convertWord, List.all_nil]
  | cons ch text ih =>
      rw [convertWord, convStr2hex_eq]
      by_cases hch : Hex.isHexDigit ch
      · have hsnoc : ∀ c ∈ digits ++ [ch], Hex.isHexDigit c := by
          simpa [or_imp, forall_and] using ⟨hdigits, hch⟩
        have hrest := ih (digits ++ [ch]) hsnoc (by simp at hlen ⊢; omega)
        rw [List.length_cons] at hlen
        rw [if_pos hch]
        simp only [wordOf_concat hdigits (by omega) hch]
        rw [List.length_append, List.length_singleton] at hrest
        rw [hrest, List.takeWhile_cons_of_pos hch, List.append_assoc, List.singleton_append,
          List.all_cons, hch, Bool.true_and]
      · rw [if_neg hch, List.takeWhile_cons_of_neg hch, List.append_nil, List.all_cons,
          Bool.eq_false_iff.mpr hch, Bool.false_and]

/-! ## Back and forth -/

theorem length_convertU32HexToStr (bin : List UInt8) :
    (convertU32HexToStr bin).length = 2 * bin.length := by
  induction bin with
  | nil => rfl
  | cons b bin ih =>
      rw [convertU32HexToStr, List.flatMap_cons, List.length_append, ← convertU32HexToStr, ih,
        List.length_cons, convHex2str, List.length_cons, List.length_singleton]
      omega

theorem isHexDigit_of_mem_convertU32HexToStr {bin : List UInt8} {c : UInt8}
    (h : c ∈ convertU32HexToStr bin) : Hex.isHexDigit c := by
  obtain ⟨b, -, hc⟩ := List.mem_flatMap.mp h
  exact (convHex2str_spec b 0).1 c hc

theorem wordOf_convertU32HexToStr (x : UInt32) :
    wordOf (convertU32HexToStr (Words.bytes32 x)) = u32ConvertToLe x := by
  have hlt := x.toNat_lt
  have hvalue : ∀ n b rest, Hex.value n (convHex2str b ++ rest) =
      Hex.value (256 * n + b.toNat) rest := by
    intro n b rest
    rw [← (convHex2str_spec b n).2]
    exact List.foldl_append
  apply UInt32.toNat_inj.mp
  rw [toNat_u32ConvertToLe, wordOf, length_convertU32HexToStr, Words.length_bytes32]
  rw [convertU32HexToStr, Words.bytes32]
  simp only [List.flatMap_cons, List.flatMap_nil, hvalue]
  change (UInt32.ofNat ((256 * (256 * (256 * (256 * 0 + _) + _) + _) + _) * 1)).toNat = _
  have hmod : ∀ n, n % 256 < 256 := fun n => Nat.mod_lt n (by decide)
  have ha := hmod x.toNat
  have hb := hmod (x.toNat / 256)
  have hc := hmod (x.toNat / 65536)
  have hd : x.toNat / 16777216 < 256 := by omega
  simp only [UInt32.toNat_ofNat', UInt8.toNat_ofNat', Nat.reducePow, Nat.mod_eq_of_lt hd]
  generalize x.toNat % 256 = a at *
  generalize x.toNat / 256 % 256 = b at *
  generalize x.toNat / 65536 % 256 = c at *
  generalize x.toNat / 16777216 = d at *
  omega

theorem convertStrToU32Hex_convertU32HexToStr {ws bin : List UInt32}
    (h : ws.length = bin.length) :
    convertStrToU32Hex (convertU32HexToStr (ws.flatMap Words.bytes32)) bin =
      (ws.map u32ConvertToLe, true) := by
  induction ws generalizing bin with
  | nil =>
      obtain rfl := List.eq_nil_of_length_eq_zero h.symm
      rfl
  | cons x ws ih =>
      cases bin with
      | nil => cases h
      | cons y bin =>
          have hlen : (convertU32HexToStr (Words.bytes32 x)).length = 8 := by
            rw [length_convertU32HexToStr, Words.length_bytes32]
          have hdigits : ∀ c ∈ convertU32HexToStr (Words.bytes32 x), Hex.isHexDigit c :=
            fun c hc => isHexDigit_of_mem_convertU32HexToStr hc
          have hword := convertWord_eq [] (List.forall_mem_nil _)
            (Nat.le_of_eq ((Nat.zero_add _).trans hlen))
          rw [List.takeWhile_eq_self_iff.mpr hdigits, List.all_eq_true.mpr hdigits,
            List.nil_append, wordOf_convertU32HexToStr] at hword
          have hsplit : convertU32HexToStr ((x :: ws).flatMap Words.bytes32) =
              convertU32HexToStr (Words.bytes32 x) ++
                convertU32HexToStr (ws.flatMap Words.bytes32) := by
            rw [List.flatMap_cons, convertU32HexToStr, List.flatMap_append]
            rfl
          change convertWord 0 1 _ = _ at hword
          rw [hsplit, convertStrToU32Hex, List.take_left' hlen, List.drop_left' hlen, hword,
            ih (Nat.succ.inj h)]
          rfl

namespace NvAdjustReg

theorem length_words (nv : NvAdjustReg) : nv.words.length = NV_WORDS := by
  rw [words, NV_WORDS, List.length_flatMap]
  simp only [List.length_ofFn]

theorem ofWords_words (nv : NvAdjustReg) : ofWords nv.words = nv := by
  funext f i
  obtain ⟨post, hpost⟩ : ∃ post, NvField.all = NvField.all.takeWhile (· ≠ f) ++ f :: post := by
    cases f <;> exact ⟨_, rfl⟩
  have hoffset : ((NvField.all.takeWhile (· ≠ f)).flatMap fun g => List.ofFn (nv g)).length =
      f.offset := by
    rw [NvField.offset, List.length_flatMap]
    simp only [List.length_ofFn]
  have hi : (i : ℕ) < (List.ofFn (nv f)).length := by
    rw [List.length_ofFn]
    exact i.isLt
  rw [ofWords, words, hpost, List.flatMap_append, List.flatMap_cons, ← hoffset,
    List.getD_eq_getElem?_getD, List.getElem?_append_right (Nat.le_add_right _ _),
    Nat.add_sub_cancel_left, List.getElem?_append_left hi, List.getElem?_ofFn]
  simp

end NvAdjustReg

/-- Every field of the structure comes back from the text. -/
theorem nvOfText_nvText (nv : NvAdjustReg) (f : NvField) : nvOfText (nvText nv) f = nv f := by
  have hlen : nv.words.length = (List.replicate NV_WORDS (0xFFFFFFFF : UInt32)).length :=
    nv.length_words.trans List.length_replicate.symm
  have hconvert := convertStrToU32Hex_convertU32HexToStr hlen
  have hswap : u32ConvertToLe ∘ u32ConvertToLe = id := funext u32ConvertToLe_u32ConvertToLe
  rw [nvOfText, nvText, hconvert, List.map_map, hswap, List.map_id, nv.ofWords_words]

end Engcs

end Tarako
