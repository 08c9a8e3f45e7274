import Tarako.Camera.JpegParse
import Tarako.Lib.Canonical

/-!
# The Huffman codes of the JPEG decoder

`JPEGFW_FixHuffTbl` makes the codes of a table and from them the registers of the decoder, by
which a code is found again. `GetHuffTbl` limits only the number of the symbols. `decodes_iff`
says for which tables every code is found again: those that are not over-subscribed.
-/

namespace Tarako

namespace JpegHuff

open JpegParse Canonical

/-- `bits[l]`, the number of the codes with `l` bits; `bits[0]` is cleared. -/
def bitsCount (bits : Vector UInt8 (MAX_BITS_SIZE + 1)) (l : ℕ) : ℕ :=
  if l = 0 then 0 else (bits[l]?.getD 0).toNat

/-- A table that `GetHuffTbl` accepts. -/
structure HuffTable where
  bits : Vector UInt8 (MAX_BITS_SIZE + 1)
  huffval : Vector UInt8 (AC_SYMBOL_NUM + 1)
  count_le : index (bitsCount bits) (MAX_BITS_SIZE + 1) ≤ AC_SYMBOL_NUM

namespace HuffTable

variable (t : HuffTable)

def count : ℕ → ℕ := bitsCount t.bits

/-- `huffsize` up to its zero, for the `n` lengths from `l` on. -/
def sizesFrom (l n : ℕ) : List ℕ :=
  (List.range' l n).flatMap fun l => List.replicate (t.count l) l

/-- "make table of Huffman code length for each symbol" -/
def huffsize : List ℕ := t.sizesFrom 1 MAX_BITS_SIZE

end HuffTable

/-- "generate the codes themselves": both loops over what is left of `huffsize`, with `si` and
`code`; no result after more than `fuel` turns. -/
def generate : ℕ → List ℕ → ℕ → UInt16 → Option (List UInt16)
  | _, [], _, _ => some []
  | 0, _ :: _, _, _ => none
  | fuel + 1, size :: sizes, si, code =>
      if size = si then (generate fuel sizes si (code + 1)).map (code :: ·)
      else generate fuel (size :: sizes) (si + 1) (code <<< 1)

/-- `(active << 31) | (base_addr << 16) | max_code` of a length with codes. -/
def activeWord (base : UInt8) (max : UInt16) : UInt32 :=
  ((1 : UInt32) <<< 31) ||| (base.toUInt32 <<< 16) ||| max.toUInt32

namespace HuffTable

variable (t : HuffTable)

def huffcode : Option (List UInt16) :=
  generate (t.huffsize.length + MAX_BITS_SIZE) t.huffsize (t.huffsize.headD 0) 0

/-- `valptr[l]`, where `p` is the number of the shorter codes. -/
def valptr (l : ℕ) : UInt8 := UInt8.ofNat (index t.count l)

/-- `maxcode[l]`, or `none` for -1. -/
def maxcode (codes : List UInt16) (l : ℕ) : Option UInt16 :=
  if t.count l ≠ 0 then codes[index t.count (l + 1) - 1]? else none

def activeBaseMax (codes : List UInt16) : ℕ → UInt32
  | 0 => 0
  | l + 1 =>
      match t.maxcode codes (l + 1) with
      | some maxCode => activeWord (t.valptr (l + 1)) maxCode
      | none =>
          if 1 < l + 1 then
            match t.maxcode codes l with
            | some maxCode => (maxCode.toUInt32 + 1) * 2
            | none => (activeBaseMax codes l &&& 0xFFFF) * 2
          else 0

/-- "31: active or not, 23~16: base address, 15~0 max value of the length" -/
def registers (codes : List UInt16) : Registers where
  active l := t.activeBaseMax codes l >>> 31 ≠ 0
  base l := ((t.activeBaseMax codes l >>> 16) &&& 0xFF).toNat
  max l := (t.activeBaseMax codes l &&& 0xFFFF).toNat

/-- Each code is found again: the decoder takes as many bits as it has, and gives the place of
its symbol in `huffval`. -/
def Decodes : Prop :=
  ∃ codes, t.huffcode = some codes ∧
    ∀ k size code, t.huffsize[k]? = some size → codes[k]? = some code → ∀ tail,
      (t.registers codes).decode MAX_BITS_SIZE (codeBits size code.toNat ++ tail) =
        some (k, tail)

end HuffTable

/-! ## The fields of a register -/

theorem toNat_activeWord (base : UInt8) (max : UInt16) :
    (activeWord base max).toNat = 2 ^ 31 + base.toNat * 2 ^ 16 + max.toNat := by
  have hbase := base.toNat_lt
  have hmax := max.toNat_lt
  have hshift : (base.toUInt32 <<< 16).toNat = 2 ^ 16 * base.toNat := by
    rw [UInt32.toNat_shiftLeft, UInt8.toNat_toUInt32, Nat.shiftLeft_eq]
    simp only [UInt32.reduceToNat, Nat.reduceMod]
    omega
  have hone : ((1 : UInt32) <<< 31).toNat = 2 ^ 31 * 1 := rfl
  rw [activeWord, UInt32.toNat_or, UInt32.toNat_or, hshift, hone, UInt16.toNat_toUInt32,
    ← Nat.two_pow_add_eq_or_of_lt (by omega)]
  have hhigh : 2 ^ 31 * 1 + 2 ^ 16 * base.toNat = 2 ^ 16 * (2 ^ 15 + base.toNat) := by omega
  rw [hhigh, ← Nat.two_pow_add_eq_or_of_lt (by omega)]
  omega

theorem shiftRight_31_ne_zero_iff (w : UInt32) : w >>> 31 ≠ 0 ↔ 2 ^ 31 ≤ w.toNat := by
  have hw := w.toNat_lt
  rw [ne_eq, ← UInt32.toNat_inj, UInt32.toNat_shiftRight, Nat.shiftRight_eq_div_pow]
  simp only [UInt32.reduceToNat, Nat.reduceMod, UInt32.toNat_zero]
  omega

theorem toNat_and_low (w : UInt32) : (w &&& 0xFFFF).toNat = w.toNat % 2 ^ 16 := by
  rw [UInt32.toNat_and]
  exact Nat.and_two_pow_sub_one_eq_mod w.toNat 16

theorem toNat_and_base (w : UInt32) :
    ((w >>> 16) &&& 0xFF).toNat = w.toNat / 2 ^ 16 % 2 ^ 8 := by
  rw [UInt32.toNat_and, UInt32.toNat_shiftRight, Nat.shiftRight_eq_div_pow]
  exact Nat.and_two_pow_sub_one_eq_mod (w.toNat / 2 ^ 16) 8

/-! ## The codes -/

theorem ofNat_shiftLeft (n : ℕ) : UInt16.ofNat n <<< 1 = UInt16.ofNat (2 * n) := by
  apply UInt16.toNat_inj.mp
  rw [UInt16.toNat_shiftLeft, UInt16.toNat_ofNat', UInt16.toNat_ofNat', Nat.shiftLeft_eq]
  simp only [UInt16.reduceToNat, Nat.reduceMod]
  omega

theorem generate_replicate (fuel c l v : ℕ) (sizes : List ℕ) :
    generate (fuel + c) (List.replicate c l ++ sizes) l (UInt16.ofNat v) =
      (generate fuel sizes l (UInt16.ofNat (v + c))).map
        ((List.range c).map (fun j => UInt16.ofNat (v + j)) ++ ·) := by
  induction c generalizing v with
  | zero => simp
  | succ c ih =>
      have hnext : UInt16.ofNat v + 1 = UInt16.ofNat (v + 1) := (UInt16.ofNat_add v 1).symm
      have hlist : (List.range (c + 1)).map (fun j => UInt16.ofNat (v + j)) =
          UInt16.ofNat v :: (List.range c).map fun j => UInt16.ofNat (v + 1 + j) := by
        rw [List.range_succ_eq_map, List.map_cons, List.map_map, Nat.add_zero]
        congr 1
        exact List.map_congr_left fun j _ => congrArg UInt16.ofNat (by
          simp only [Nat.succ_eq_add_one]
          omega)
      rw [List.replicate_succ, List.cons_append, ← Nat.add_assoc, generate, if_pos rfl, hnext, ih,
        Option.map_map, hlist, Nat.add_right_comm]
      rfl

/-- Where no code of a length is left, the next length is tried with twice the number. -/
theorem generate_next {fuel l : ℕ} {sizes : List ℕ} (h : ∀ size ∈ sizes.head?, size ≠ l)
    (code : UInt16) :
    generate (fuel + 1) sizes l code = generate fuel sizes (l + 1) (code <<< 1) := by
  cases sizes with
  | nil => cases fuel <;> rfl
  | cons size sizes => rw [generate, if_neg (h size rfl)]

namespace HuffTable

variable (t : HuffTable)

/-- The codes of the `n` lengths from `l` on. -/
def codesFrom (l n : ℕ) : List UInt16 :=
  (List.range' l n).flatMap fun l =>
    (List.range (t.count l)).map fun j => UInt16.ofNat (first t.count l + j)

theorem sizesFrom_succ (l n : ℕ) :
    t.sizesFrom l (n + 1) = List.replicate (t.count l) l ++ t.sizesFrom (l + 1) n := by
  rw [sizesFrom, List.range'_succ, List.flatMap_cons]
  rfl

theorem codesFrom_succ (l n : ℕ) :
    t.codesFrom l (n + 1) =
      (List.range (t.count l)).map (fun j => UInt16.ofNat (first t.count l + j)) ++
        t.codesFrom (l + 1) n := by
  rw [codesFrom, List.range'_succ, List.flatMap_cons]
  rfl

theorem mem_sizesFrom {l n size : ℕ} (h : size ∈ t.sizesFrom l n) : l ≤ size := by
  obtain ⟨m, hm, hsize⟩ := List.mem_flatMap.mp h
  rw [List.eq_of_mem_replicate hsize]
  exact (List.mem_range'_1.mp hm).1

theorem generate_sizesFrom (fuel l n : ℕ) :
    generate (fuel + n + (t.sizesFrom l n).length) (t.sizesFrom l n) l
        (UInt16.ofNat (first t.count l)) =
      some (t.codesFrom l n) := by
  induction n generalizing l with
  | zero =>
      cases fuel <;> rfl
  | succ n ih =>
      have hfuel : fuel + (n + 1) + (t.sizesFrom l (n + 1)).length =
          fuel + n + (t.sizesFrom (l + 1) n).length + 1 + t.count l := by
        rw [sizesFrom_succ, List.length_append, List.length_replicate]
        omega
      have hhead : ∀ size ∈ (t.sizesFrom (l + 1) n).head?, size ≠ l := by
        intro size hsize
        have hle := t.mem_sizesFrom (List.mem_of_mem_head? hsize)
        omega
      rw [hfuel, sizesFrom_succ, generate_replicate, generate_next hhead, ofNat_shiftLeft,
        ← first, ih (l + 1), Option.map_some, codesFrom_succ]

theorem generate_headD (fuel l n : ℕ) (h : first t.count l = 0) :
    generate (fuel + n + (t.sizesFrom l n).length) (t.sizesFrom l n)
        ((t.sizesFrom l n).headD 0) 0 =
      some (t.codesFrom l n) := by
  induction n generalizing l fuel with
  | zero => cases fuel <;> rfl
  | succ n ih =>
      by_cases hcount : t.count l = 0
      · have hsizes : t.sizesFrom l (n + 1) = t.sizesFrom (l + 1) n := by
          rw [sizesFrom_succ, hcount]
          rfl
        have hcodes : t.codesFrom l (n + 1) = t.codesFrom (l + 1) n := by
          rw [codesFrom_succ, hcount]
          rfl
        rw [hsizes, hcodes, ← Nat.add_assoc, Nat.add_right_comm fuel n 1]
        exact ih (fuel + 1) (l + 1) (by rw [first, h, hcount])
      · obtain ⟨c, hc⟩ := Nat.exists_eq_succ_of_ne_zero hcount
        have hhead : (t.sizesFrom l (n + 1)).headD 0 = l := by
          rw [sizesFrom_succ, hc, List.replicate_succ]
          rfl
        have hgen := t.generate_sizesFrom fuel l (n + 1)
        rw [h] at hgen
        rw [hhead]
        exact hgen

theorem count_zero : t.count 0 = 0 := rfl

theorem huffcode_eq : t.huffcode = some (t.codesFrom 1 MAX_BITS_SIZE) := by
  have h := t.generate_headD 0 1 MAX_BITS_SIZE rfl
  rw [Nat.zero_add, Nat.add_comm] at h
  exact h

theorem getElem?_sizesFrom {m n l j : ℕ} (hm : m ≤ l) (hn : l < m + n) (hj : j < t.count l) :
    (t.sizesFrom m n)[index t.count l - index t.count m + j]? = some l ∧
      (t.codesFrom m n)[index t.count l - index t.count m + j]? =
        some (UInt16.ofNat (first t.count l + j)) := by
  induction n generalizing m with
  | zero => omega
  | succ n ih =>
      rw [sizesFrom_succ, codesFrom_succ]
      rcases Nat.lt_or_eq_of_le hm with hlt | rfl
      · obtain ⟨hsize, hcode⟩ := ih hlt (by omega)
        have hindex := @index_mono t.count (m + 1) l hlt
        rw [index_succ] at hsize hcode hindex
        rw [List.getElem?_append_right (by rw [List.length_replicate]; omega),
          List.getElem?_append_right (by rw [List.length_map, List.length_range]; omega),
          List.length_replicate, List.length_map, List.length_range]
        have hplace : index t.count l - index t.count m + j - t.count m =
            index t.count l - (index t.count m + t.count m) + j := by omega
        rw [hplace]
        exact ⟨hsize, hcode⟩
      · rw [Nat.sub_self, Nat.zero_add, List.getElem?_append_left (by simpa using hj),
          List.getElem?_append_left (by simpa using hj), List.getElem?_replicate, if_pos hj,
          List.getElem?_map, List.getElem?_range hj]
        exact ⟨rfl, rfl⟩

theorem length_sizesFrom (l n : ℕ) :
    index t.count l + (t.sizesFrom l n).length = index t.count (l + n) := by
  induction n generalizing l with
  | zero => rfl
  | succ n ih =>
      rw [sizesFrom_succ, List.length_append, List.length_replicate, ← Nat.add_assoc,
        ← index_succ, ih (l + 1)]
      congr 1
      omega

theorem exists_place {k : ℕ} {m n : ℕ} (hm : index t.count m ≤ k)
    (hk : k < index t.count (m + n)) :
    ∃ l j, m ≤ l ∧ l < m + n ∧ j < t.count l ∧ k = index t.count l + j := by
  induction n with
  | zero => exact absurd hk (Nat.not_lt.mpr hm)
  | succ n ih =>
      rw [← Nat.add_assoc, index_succ] at hk
      rcases Nat.lt_or_ge k (index t.count (m + n)) with hlt | hge
      · obtain ⟨l, j, hl, hn, hj, heq⟩ := ih hlt
        exact ⟨l, j, hl, by omega, hj, heq⟩
      · exact ⟨m + n, k - index t.count (m + n), by omega, by omega, by omega, by omega⟩

/-! ## The registers -/

/-- `huffcode` as it is after both loops. -/
def codes : List UInt16 := t.codesFrom 1 MAX_BITS_SIZE

theorem index_one : index t.count 1 = 0 := by
  rw [index_succ]
  rfl

theorem index_add_count_le {l : ℕ} (hl : l ≤ MAX_BITS_SIZE) :
    index t.count l + t.count l ≤ AC_SYMBOL_NUM := by
  rw [← index_succ]
  exact (index_mono (Nat.succ_le_succ hl)).trans t.count_le

theorem maxcode_of_used {l : ℕ} (hl : 0 < l) (hL : l ≤ MAX_BITS_SIZE) (h : t.count l ≠ 0) :
    t.maxcode t.codes l = some (UInt16.ofNat (kraft t.count l - 1)) := by
  have hplace := (@getElem?_sizesFrom t 1 MAX_BITS_SIZE l (t.count l - 1) hl (by omega)
    (by omega)).2
  have hindex : index t.count (l + 1) - 1 =
      index t.count l - index t.count 1 + (t.count l - 1) := by
    rw [index_succ, index_one]
    omega
  have hcode : first t.count l + (t.count l - 1) = kraft t.count l - 1 := by
    rw [← first_add_count]
    omega
  rw [maxcode, if_pos h, hindex]
  rw [hcode] at hplace
  exact hplace

theorem maxcode_of_unused {l : ℕ} (h : t.count l = 0) : t.maxcode t.codes l = none :=
  if_neg fun hne => hne h

theorem activeBaseMax_of_used {l : ℕ} (hl : 0 < l) (hL : l ≤ MAX_BITS_SIZE)
    (h : t.count l ≠ 0) :
    (t.activeBaseMax t.codes l).toNat =
      2 ^ 31 + index t.count l * 2 ^ 16 + (kraft t.count l - 1) % 2 ^ 16 := by
  have hmax := t.maxcode_of_used hl hL h
  have hindex := t.index_add_count_le hL
  have hsymbols : AC_SYMBOL_NUM = 256 := rfl
  have hvalptr : (t.valptr l).toNat = index t.count l :=
    UInt8.toNat_ofNat_of_lt' (show index t.count l < 256 by omega)
  obtain ⟨l, rfl⟩ := Nat.exists_eq_succ_of_ne_zero (Nat.ne_of_gt hl)
  rw [Nat.succ_eq_add_one] at hmax hvalptr ⊢
  rw [activeBaseMax, hmax]
  simp only
  rw [toNat_activeWord, hvalptr, UInt16.toNat_ofNat']

theorem activeBaseMax_of_unused {l : ℕ} (h : t.count (l + 1) = 0) :
    t.activeBaseMax t.codes (l + 1) =
      if l = 0 then 0
      else
        match t.maxcode t.codes l with
        | some maxCode => (maxCode.toUInt32 + 1) * 2
        | none => (t.activeBaseMax t.codes l &&& 0xFFFF) * 2 := by
  rw [activeBaseMax, t.maxcode_of_unused h]
  simp only
  by_cases hl : l = 0
  · rw [if_pos hl, if_neg (by omega)]
  · rw [if_neg hl, if_pos (by omega)]

theorem toNat_maxcode_add_one_mul (m : UInt16) :
    ((m.toUInt32 + 1) * 2).toNat = 2 * (m.toNat + 1) := by
  have hm := m.toNat_lt
  rw [UInt32.toNat_mul, UInt32.toNat_add, UInt16.toNat_toUInt32]
  simp only [UInt32.reduceToNat]
  omega

theorem toNat_low_mul (w : UInt32) : ((w &&& 0xFFFF) * 2).toNat = 2 * (w.toNat % 2 ^ 16) := by
  rw [UInt32.toNat_mul, toNat_and_low]
  simp only [UInt32.reduceToNat]
  omega

theorem activeBaseMax_lt_of_unused {l : ℕ} (h : t.count l = 0) :
    (t.activeBaseMax t.codes l).toNat < 2 ^ 31 := by
  cases l with
  | zero => exact Nat.two_pow_pos 31
  | succ l =>
      rw [t.activeBaseMax_of_unused h]
      split_ifs
      · exact Nat.two_pow_pos 31
      · split
        · rename_i m _
          have hm := m.toNat_lt
          rw [toNat_maxcode_add_one_mul]
          omega
        · rw [toNat_low_mul]
          omega

theorem active_iff {l : ℕ} (hl : 0 < l) (hL : l ≤ MAX_BITS_SIZE) :
    (t.registers t.codes).active l = true ↔ t.count l ≠ 0 := by
  have hon : (t.registers t.codes).active l = true ↔
      2 ^ 31 ≤ (t.activeBaseMax t.codes l).toNat := by
    rw [← shiftRight_31_ne_zero_iff]
    exact decide_eq_true_iff
  rw [hon]
  constructor
  · intro hge h
    have hlt := t.activeBaseMax_lt_of_unused h
    omega
  · intro h
    rw [t.activeBaseMax_of_used hl hL h]
    omega

theorem base_eq {l : ℕ} (hl : 0 < l) (hL : l ≤ MAX_BITS_SIZE) (h : t.count l ≠ 0) :
    (t.registers t.codes).base l = index t.count l := by
  have hindex := t.index_add_count_le hL
  have hsymbols : AC_SYMBOL_NUM = 256 := rfl
  change ((t.activeBaseMax t.codes l >>> 16) &&& 0xFF).toNat = _
  rw [toNat_and_base, t.activeBaseMax_of_used hl hL h]
  omega

/-- For an unused length the register holds the number that a code would have, as long as the
shorter lengths are not over-subscribed. -/
theorem activeBaseMax_eq_kraft {l : ℕ} (hkraft : kraft t.count MAX_BITS_SIZE ≤ 2 ^ MAX_BITS_SIZE)
    (hL : l ≤ MAX_BITS_SIZE) (h : t.count l = 0) :
    (t.activeBaseMax t.codes l).toNat = kraft t.count l := by
  have hsize : MAX_BITS_SIZE = 16 := rfl
  induction l with
  | zero => simp [activeBaseMax, kraft, count_zero]
  | succ l ih =>
      have hle := kraft_le_pow hkraft (Nat.le_of_succ_le hL)
      have hpow : 2 ^ l ≤ 2 ^ 15 := Nat.pow_le_pow_right (by decide) (by omega)
      rw [t.activeBaseMax_of_unused h, kraft_succ, h, Nat.add_zero]
      split_ifs with hl
      · subst hl
        simp [kraft, count_zero]
      · by_cases hcount : t.count l = 0
        · rw [t.maxcode_of_unused hcount]
          simp only
          rw [toNat_low_mul, ih (by omega) hcount]
          omega
        · rw [t.maxcode_of_used (by omega) (by omega) hcount]
          simp only
          have hpos := @first_add_count t.count l
          rw [toNat_maxcode_add_one_mul, UInt16.toNat_ofNat']
          omega

theorem describes_registers (hkraft : kraft t.count MAX_BITS_SIZE ≤ 2 ^ MAX_BITS_SIZE) :
    (t.registers t.codes).Describes t.count MAX_BITS_SIZE where
  active _ hl hL := t.active_iff hl hL
  base _ hl hL h := t.base_eq hl hL h
  max l hl hL h := by
    have hle := kraft_le_pow hkraft hL
    have hpow : 2 ^ l ≤ 2 ^ 16 := Nat.pow_le_pow_right (by decide) hL
    have hpos := @first_add_count t.count l
    have hindex := t.index_add_count_le hL
    change (t.activeBaseMax t.codes l &&& 0xFFFF).toNat + 1 = _
    rw [toNat_and_low, t.activeBaseMax_of_used hl hL h]
    omega
  unused l hl hL h := by
    have hle := kraft_le_pow hkraft (Nat.le_of_lt hL)
    have hpow : 2 ^ l ≤ 2 ^ 15 := Nat.pow_le_pow_right (by decide) (Nat.le_of_lt_succ hL)
    change (t.activeBaseMax t.codes l &&& 0xFFFF).toNat = _
    rw [toNat_and_low, t.activeBaseMax_eq_kraft hkraft (Nat.le_of_lt hL) h]
    omega

/-! ## Decoding -/

theorem getElem?_codes {l j : ℕ} (hl : 0 < l) (hL : l ≤ MAX_BITS_SIZE) (hj : j < t.count l) :
    t.huffsize[index t.count l + j]? = some l ∧
      t.codes[index t.count l + j]? = some (UInt16.ofNat (first t.count l + j)) := by
  have h := @getElem?_sizesFrom t 1 MAX_BITS_SIZE l j hl (by omega) hj
  rw [index_one, Nat.sub_zero] at h
  exact h

theorem decodes_of_kraft (hkraft : kraft t.count MAX_BITS_SIZE ≤ 2 ^ MAX_BITS_SIZE) :
    t.Decodes := by
  refine ⟨t.codes, t.huffcode_eq, fun k size code hsize hcode tail => ?_⟩
  have hk : k < index t.count (1 + MAX_BITS_SIZE) := by
    rw [← length_sizesFrom, index_one, Nat.zero_add]
    exact (List.getElem?_eq_some_iff.mp hsize).1
  obtain ⟨l, j, hl, hL, hj, rfl⟩ := t.exists_place (by rw [index_one]; exact Nat.zero_le k) hk
  obtain ⟨hsize', hcode'⟩ := t.getElem?_codes hl (by omega) hj
  rw [hsize', Option.some.injEq] at hsize
  rw [hcode', Option.some.injEq] at hcode
  subst hsize hcode
  have hle := kraft_le_pow hkraft (show l ≤ MAX_BITS_SIZE by omega)
  have hpow : 2 ^ l ≤ 2 ^ 16 :=
    Nat.pow_le_pow_right (by decide) (show l ≤ MAX_BITS_SIZE by omega)
  have hsum := @first_add_count t.count l
  rw [UInt16.toNat_ofNat_of_lt' (show first t.count l + j < 2 ^ 16 by omega)]
  exact (t.describes_registers hkraft).decode_codeBits t.count_zero hkraft hl (by omega) hj tail

theorem exists_shortest {l : ℕ} (hl : 0 < l) (hused : t.count l ≠ 0) :
    ∃ m, 0 < m ∧ m ≤ l ∧ t.count m ≠ 0 ∧ ∀ i < m, t.count i = 0 := by
  have hex : ∃ m, 0 < m ∧ t.count m ≠ 0 := ⟨l, hl, hused⟩
  obtain ⟨hpos, hcount⟩ := Nat.find_spec hex
  refine ⟨Nat.find hex, hpos, Nat.find_min' hex ⟨hl, hused⟩, hcount, fun i hi => ?_⟩
  rcases Nat.eq_zero_or_pos i with rfl | hi0
  · exact t.count_zero
  · by_contra hne
    exact Nat.find_min hex hi ⟨hi0, hne⟩

theorem decode_zeros_registers {l : ℕ} (hl : 0 < l) (hL : l ≤ MAX_BITS_SIZE)
    (hused : t.count l ≠ 0) :
    ∃ m ≤ l, (t.registers t.codes).decode MAX_BITS_SIZE (List.replicate l false) =
      some (0, List.replicate (l - m) false) := by
  obtain ⟨m, hpos, hmin, hcount, hbefore⟩ := t.exists_shortest hl hused
  have hoff : ∀ i, 0 < i → i < m → (t.registers t.codes).active i = false := by
    intro i hi him
    have hactive := t.active_iff hi (by omega)
    simpa [hbefore i him] using hactive
  have hindex : index t.count m = 0 :=
    Finset.sum_eq_zero fun i hi => hbefore i (Finset.mem_range.mp hi)
  have hzeros : List.replicate l false =
      List.replicate m false ++ List.replicate (l - m) false := by
    rw [List.replicate_append_replicate]
    congr 1
    omega
  refine ⟨m, hmin, ?_⟩
  rw [hzeros, Registers.decode_zeros hpos (by omega)
    ((t.active_iff hpos (by omega)).mpr hcount) hoff, t.base_eq hpos (by omega) hcount, hindex]

/-- In the shortest length that is over-subscribed one code is a multiple of the number of its
words; its bits are zeros, which are the first code of all. -/
theorem not_decodes_of_over (hover : 2 ^ MAX_BITS_SIZE < kraft t.count MAX_BITS_SIZE) :
    ¬ t.Decodes := by
  rintro ⟨codes, hcodes, hall⟩
  obtain rfl : t.codes = codes := Option.some.inj (t.huffcode_eq.symm.trans hcodes)
  obtain ⟨l, hL, hlover, hfits⟩ := exists_first_over hover
  have hl : 0 < l := by
    rcases Nat.eq_zero_or_pos l with rfl | hpos
    · simp [kraft, count_zero] at hlover
    · exact hpos
  have hsum := @first_add_count t.count l
  have hfirst := first_le_pow hl hfits
  obtain ⟨hsize, hcode⟩ := t.getElem?_codes hl hL
    (show 2 ^ l - first t.count l < t.count l by omega)
  have hpow : 2 ^ l ∣ (UInt16.ofNat (first t.count l + (2 ^ l - first t.count l))).toNat := by
    rw [Nat.add_sub_of_le hfirst, UInt16.toNat_ofNat']
    exact (Nat.dvd_mod_iff (Nat.pow_dvd_pow 2 hL)).mpr (Nat.dvd_refl _)
  have hdecode := hall _ _ _ hsize hcode []
  obtain ⟨m, hm, hzeros⟩ := t.decode_zeros_registers hl hL (by omega)
  rw [codeBits_of_dvd hpow, List.append_nil, hzeros, Option.some.injEq, Prod.mk.injEq] at hdecode
  -- the code is the first one of all, so that there are no shorter ones
  have hnone : index t.count l = 0 := by omega
  have hfirst0 : first t.count l = 2 ^ l := by omega
  rw [first_eq_zero hl hnone] at hfirst0
  exact absurd hfirst0 (Nat.ne_of_lt (Nat.two_pow_pos l))

end HuffTable

/-- Every code of a table that the parser accepts is found again exactly when its lengths are
not over-subscribed. -/
theorem decodes_iff (t : HuffTable) :
    t.Decodes ↔ kraft t.count MAX_BITS_SIZE ≤ 2 ^ MAX_BITS_SIZE := by
  constructor
  · intro h
    by_contra hover
    exact t.not_decodes_of_over (Nat.not_le.mp hover) h
  · exact t.decodes_of_kraft

def threeOfOne : HuffTable where
  bits := (Vector.replicate (MAX_BITS_SIZE + 1) 0).set 1 3
  huffval := Vector.replicate (AC_SYMBOL_NUM + 1) 0
  count_le := by decide

/-- `GetHuffTbl` accepts it, and the third code is the first one again. -/
theorem not_decodes_threeOfOne : ¬ ∀ t : HuffTable, t.Decodes := by
  intro h
  exact threeOfOne.not_decodes_of_over (by decide) (h threeOfOne)

end JpegHuff

end Tarako
