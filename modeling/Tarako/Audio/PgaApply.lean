import Mathlib.Data.Nat.Size
import Tarako.Audio.PgaTable

/-!
# Gains on the PGA controls

`audio_pga_apply` cuts a bit field out of the gain for every control of a profile. The field
is as wide as the greatest value of the control, which it can therefore exceed:
`apply_inRange_iff` says for which gains and for which greatest values no control is set out
of its range.
-/

namespace Tarako

namespace Pga

open Text

/-! ### The functions -/

/-- One of the tests of `fls`, with `x` and `r`. -/
def flsTest (mask shift : UInt32) (s : UInt32 × ℕ) : UInt32 × ℕ :=
  if s.1 &&& mask = 0 then (s.1 <<< shift, s.2 - shift.toNat) else s

def fls (x : UInt32) : ℕ :=
  if x = 0 then 0
  else
    let s := flsTest 0xFFFF0000 16 (x, 32)
    let s := flsTest 0xFF000000 8 s
    let s := flsTest 0xF0000000 4 s
    let s := flsTest 0xC0000000 2 s
    let s := flsTest 0x80000000 1 s
    s.2

variable {Ctl : Type} [DecidableEq Ctl]

omit [DecidableEq Ctl] in
def profileGetByName (pga : AudioPga Ctl) (name : List UInt8) : Option (PgaProfile Ctl) :=
  pga.profile.entries.find? (·.name = name)

def attributeGetByCtl (attributes : Growable (PgaAttributeItem Ctl)) (ctl : Option Ctl) :
    Option (PgaAttributeItem Ctl) :=
  attributes.entries.find? (·.ctl = ctl)

omit [DecidableEq Ctl] in
/-- A call of `mixer_ctl_set_value`. -/
structure Write (Ctl : Type) where
  ctl : Option Ctl
  id : ℕ
  value : Int32

-- the answers of `mixer_ctl_get_num_values`
variable (numValues : Option Ctl → ℕ)

omit [DecidableEq Ctl] in
def audioPgaMixerSet (ctl : Option Ctl) (newValue : Int32) : List (Write Ctl) :=
  (List.range (numValues ctl)).map fun i => ⟨ctl, i, newValue⟩

omit [DecidableEq Ctl] in
/-- The value that `audio_pga_set` sets. -/
def pgaValue (value : Int32) (a : PgaAttributeItem Ctl) : Int32 :=
  let mask : UInt32 := (1 <<< UInt32.ofNat (fls a.max.toUInt32)) - 1
  let value := (value.toUInt32 &&& mask).toInt32
  if a.inverse ≠ 0 then a.max - value else value

omit [DecidableEq Ctl] in
def audioPgaSet (ctl : Option Ctl) (value : Int32) (a : PgaAttributeItem Ctl) :
    List (Write Ctl) :=
  audioPgaMixerSet numValues ctl (pgaValue value a)

/-- One turn of the loop; a control without an attribute takes the process down. -/
def applyItem (pga : AudioPga Ctl) (val : Int32) (item : PgaItem Ctl) :
    Option (List (Write Ctl)) :=
  (attributeGetByCtl pga.attributes item.ctl).map
    (audioPgaSet numValues item.ctl (val >>> item.bit))

def audioPgaApply (pga : Option (AudioPga Ctl)) (val : Int32) (name : List UInt8) :
    Option (ℤ × List (Write Ctl)) :=
  match pga with
  | none => some (-1, [])
  | some pga =>
      match profileGetByName pga name with
      | none => some (-1, [])
      | some profile =>
          (profile.item.entries.mapM (applyItem numValues pga val)).map fun writes =>
            (0, writes.flatten)

/-! ### The last set bit -/

theorem and_mul_two_pow_eq_zero_iff {x n w : ℕ} (hx : x < 2 ^ (w + n)) :
    x &&& (2 ^ w - 1) * 2 ^ n = 0 ↔ x < 2 ^ n := by
  have hpos := Nat.two_pow_pos n
  have hdiv : (x &&& (2 ^ w - 1) * 2 ^ n) / 2 ^ n = x / 2 ^ n := by
    rw [← Nat.shiftRight_eq_div_pow, Nat.shiftRight_and_distrib, Nat.shiftRight_eq_div_pow,
      Nat.shiftRight_eq_div_pow, Nat.mul_div_cancel _ hpos, Nat.and_two_pow_sub_one_eq_mod,
      Nat.mod_eq_of_lt]
    rw [Nat.div_lt_iff_lt_mul hpos, ← Nat.pow_add]
    exact hx
  have hmod : (x &&& (2 ^ w - 1) * 2 ^ n) % 2 ^ n = 0 := by
    rw [Nat.and_mod_two_pow, Nat.mul_mod_left, Nat.and_zero]
  rw [← Nat.div_eq_zero_iff_lt hpos, ← hdiv]
  have hsum := Nat.div_add_mod (x &&& (2 ^ w - 1) * 2 ^ n) (2 ^ n)
  rw [hmod, Nat.add_zero] at hsum
  constructor
  · intro h
    rw [h, Nat.zero_div]
  · intro h
    rw [h, Nat.mul_zero] at hsum
    exact hsum.symm

/-- After the tests down to a shift by `w`: the number has been moved up by what `r` has been
reduced by, with a bit set in the upper `32 - k`. -/
structure Normalized (x k : ℕ) (s : UInt32 × ℕ) : Prop where
  le : s.2 ≤ 32
  moved : s.1.toNat = x * 2 ^ (32 - s.2)
  high : 2 ^ k ≤ s.1.toNat
  pos : 32 ≤ s.2 + k

theorem Normalized.test {x k w : ℕ} {s : UInt32 × ℕ} (h : Normalized x k s)
    (mask shift : UInt32) (hmask : mask.toNat = (2 ^ w - 1) * 2 ^ (k + w))
    (hshift : shift.toNat = w) (hk : w + (k + w) = 32) (hw : w < 32) :
    Normalized x (k + w) (flsTest mask shift s) := by
  have hlt := s.1.toNat_lt
  have hle := h.le
  have hpos := h.pos
  have hzero : s.1 &&& mask = 0 ↔ s.1.toNat < 2 ^ (k + w) := by
    rw [← UInt32.toNat_inj, UInt32.toNat_and, hmask]
    exact and_mul_two_pow_eq_zero_iff (by rw [hk]; exact hlt)
  rw [flsTest]
  by_cases htest : s.1 &&& mask = 0
  · have hsmall := Nat.mul_lt_mul_of_pos_right (hzero.mp htest) (Nat.two_pow_pos w)
    rw [← Nat.pow_add, Nat.add_comm, hk] at hsmall
    have hshifted : (s.1 <<< shift).toNat = s.1.toNat * 2 ^ w := by
      rw [UInt32.toNat_shiftLeft, hshift, Nat.mod_eq_of_lt hw, Nat.shiftLeft_eq,
        Nat.mod_eq_of_lt hsmall]
    rw [if_pos htest, hshift]
    refine ⟨by dsimp only; omega, ?_, ?_, by dsimp only; omega⟩
    · have hexp : 32 - (s.2 - w) = 32 - s.2 + w := by omega
      rw [hshifted, h.moved, hexp, Nat.pow_add, Nat.mul_assoc]
    · rw [hshifted, Nat.pow_add]
      exact Nat.mul_le_mul_right _ h.high
  · rw [if_neg htest]
    exact ⟨hle, h.moved, Nat.not_lt.mp (mt hzero.mpr htest), by omega⟩

theorem Normalized.eq_size {x : ℕ} {s : UInt32 × ℕ} (h : Normalized x 31 s) : s.2 = x.size := by
  have hlt := s.1.toNat_lt
  have hhigh := h.high
  have hle := h.le
  have hpos := h.pos
  rw [h.moved] at hlt hhigh
  have hupper : 2 ^ 32 = 2 ^ s.2 * 2 ^ (32 - s.2) := by
    rw [← Nat.pow_add]
    exact congrArg (2 ^ ·) (by omega)
  have hlower : 2 ^ 31 = 2 ^ (s.2 - 1) * 2 ^ (32 - s.2) := by
    rw [← Nat.pow_add]
    exact congrArg (2 ^ ·) (by omega)
  have hsize : x.size ≤ s.2 :=
    Nat.size_le.mpr (Nat.lt_of_mul_lt_mul_right (hupper ▸ hlt))
  have hsize' : s.2 - 1 < x.size :=
    Nat.lt_size.mpr (Nat.le_of_mul_le_mul_right (hlower ▸ hhigh) (Nat.two_pow_pos _))
  omega

theorem fls_eq_size (x : UInt32) : fls x = x.toNat.size := by
  rw [fls]
  by_cases hx : x = 0
  · rw [if_pos hx, hx]
    rfl
  · have hone : 2 ^ 0 ≤ x.toNat := Nat.pos_of_ne_zero fun h => hx (UInt32.toNat_inj.mp h)
    have h0 : Normalized x.toNat 0 (x, 32) :=
      ⟨Nat.le_refl 32, (Nat.mul_one _).symm, hone, Nat.le_refl 32⟩
    have h16 := h0.test 0xFFFF0000 16 (w := 16) rfl rfl rfl (by decide)
    have h24 := h16.test 0xFF000000 8 (w := 8) rfl rfl rfl (by decide)
    have h28 := h24.test 0xF0000000 4 (w := 4) rfl rfl rfl (by decide)
    have h30 := h28.test 0xC0000000 2 (w := 2) rfl rfl rfl (by decide)
    have h31 := h30.test 0x80000000 1 (w := 1) rfl rfl rfl (by decide)
    rw [if_neg hx]
    exact h31.eq_size

/-! ### The value of a control -/

/-- The bits of the gain from `bit` on, as many as the greatest value of the control has. -/
def bitField (val bit max : Int32) : ℤ :=
  val.toInt / 2 ^ bit.toInt.toNat % 2 ^ max.toInt.toNat.size

section Value

variable {Ctl : Type} {a : PgaAttributeItem Ctl}

theorem toNat_smod_of_lt : ∀ n < 32, ((BitVec.ofNat 32 n).smod 32#32).toNat = n := by
  decide

theorem toInt_shiftRight (val : Int32) {bit : Int32} (h : 0 ≤ bit.toInt ∧ bit.toInt < 32) :
    (val >>> bit).toInt = val.toInt / 2 ^ bit.toInt.toNat := by
  obtain ⟨n, hn⟩ : ∃ n : ℕ, bit.toInt = n := ⟨bit.toInt.toNat, (Int.toNat_of_nonneg h.1).symm⟩
  have hlt : n < 32 := by omega
  have hbit : bit.toBitVec = BitVec.ofNat 32 n := by
    rw [← BitVec.ofInt_toInt (x := bit.toBitVec)]
    change BitVec.ofInt 32 bit.toInt = _
    rw [hn, BitVec.ofInt_natCast]
  change (val.toBitVec.sshiftRight' (bit.toBitVec.smod 32#32)).toInt = _
  rw [BitVec.toInt_sshiftRight', hbit, toNat_smod_of_lt n hlt, Int.shiftRight_eq_div_pow, hn,
    Int.toNat_natCast]
  norm_cast

theorem toNat_and_mask (v : Int32) {mask : UInt32} {k : ℕ} (hmask : mask.toNat = 2 ^ k - 1)
    (hk : k ≤ 32) : ((v.toUInt32 &&& mask).toNat : ℤ) = v.toInt % 2 ^ k := by
  have hcond : v.toInt = if 2 * v.toUInt32.toNat < 2 ^ 32 then (v.toUInt32.toNat : ℤ)
      else v.toUInt32.toNat - 2 ^ 32 := BitVec.toInt_eq_toNat_cond v.toBitVec
  have hmod : v.toInt % 2 ^ 32 = v.toUInt32.toNat := by
    have hlt := v.toUInt32.toNat_lt
    split_ifs at hcond <;> omega
  have hdvd : (2 : ℤ) ^ k ∣ 2 ^ 32 := pow_dvd_pow 2 hk
  rw [UInt32.toNat_and, hmask, Nat.and_two_pow_sub_one_eq_mod, ← Int.emod_emod_of_dvd _ hdvd, hmod]
  norm_cast

theorem toInt_toInt32_of_lt {x : UInt32} (h : x.toNat < 2 ^ 31) : x.toInt32.toInt = x.toNat := by
  change x.toBitVec.toInt = _
  rw [BitVec.toInt_eq_toNat_of_lt]
  · rfl
  · change 2 * x.toNat < 2 ^ 32
    omega

theorem toInt_pgaValue (val : Int32) {bit : Int32} (hbit : 0 ≤ bit.toInt ∧ bit.toInt < 32)
    (hmax : 0 ≤ a.max.toInt ∧ a.max.toInt < 2 ^ 30) :
    (pgaValue (val >>> bit) a).toInt =
      if a.inverse ≠ 0 then a.max.toInt - bitField val bit a.max else bitField val bit a.max := by
  have hsize : fls a.max.toUInt32 = a.max.toInt.toNat.size := by
    rw [fls_eq_size, Int32.toNat_toUInt32_of_le (Int32.le_iff_toInt_le.mpr hmax.1)]
    rfl
  have hk : a.max.toInt.toNat.size ≤ 30 := Nat.size_le.mpr (by omega)
  have hpow : 2 ^ a.max.toInt.toNat.size ≤ 2 ^ 30 := Nat.pow_le_pow_right (by decide) hk
  have hpos := Nat.two_pow_pos a.max.toInt.toNat.size
  have hmask : ((1 : UInt32) <<< UInt32.ofNat (fls a.max.toUInt32) - 1).toNat =
      2 ^ a.max.toInt.toNat.size - 1 := by
    have hshift : ((1 : UInt32) <<< UInt32.ofNat (fls a.max.toUInt32)).toNat =
        2 ^ a.max.toInt.toNat.size := by
      rw [hsize, UInt32.toNat_shiftLeft, UInt32.toNat_ofNat', UInt32.toNat_one,
        Nat.mod_eq_of_lt (show a.max.toInt.toNat.size < 2 ^ 32 by omega),
        Nat.mod_eq_of_lt (show a.max.toInt.toNat.size < 32 by omega), Nat.one_shiftLeft,
        Nat.mod_eq_of_lt (by omega)]
    rw [UInt32.toNat_sub_of_le, hshift, UInt32.toNat_one]
    rw [UInt32.le_iff_toNat_le, hshift, UInt32.toNat_one]
    exact hpos
  have hnat : (((val >>> bit).toUInt32 &&&
      (1 : UInt32) <<< UInt32.ofNat (fls a.max.toUInt32) - 1).toNat : ℤ) =
        bitField val bit a.max := by
    rw [toNat_and_mask _ hmask (by omega), toInt_shiftRight val hbit, bitField]
  have hlt : bitField val bit a.max < 2 ^ 30 := by
    have hmod := Int.emod_lt_of_pos (val.toInt / 2 ^ bit.toInt.toNat)
      (show (0 : ℤ) < 2 ^ a.max.toInt.toNat.size by exact_mod_cast hpos)
    have hpow' : (2 : ℤ) ^ a.max.toInt.toNat.size ≤ 2 ^ 30 := by exact_mod_cast hpow
    rw [bitField]
    omega
  have hfield : ((val >>> bit).toUInt32 &&&
      (1 : UInt32) <<< UInt32.ofNat (fls a.max.toUInt32) - 1).toInt32.toInt =
        bitField val bit a.max := by
    rw [toInt_toInt32_of_lt (by omega), hnat]
  rw [pgaValue]
  split
  · rw [Int32.toInt_sub, hfield, Int.bmod_eq_of_le (by omega) (by omega)]
  · exact hfield

theorem bitField_nonneg (val bit max : Int32) : 0 ≤ bitField val bit max :=
  Int.emod_nonneg _ (Int.ne_of_gt (Int.pow_pos (by decide)))

theorem bitField_lt (val bit max : Int32) :
    bitField val bit max < 2 ^ max.toInt.toNat.size :=
  Int.emod_lt_of_pos _ (Int.pow_pos (by decide))

/-- `v` is in the range of the control, and the bit field of the gain if that is. -/
def Fits (val bit : Int32) (a : PgaAttributeItem Ctl) (v : Int32) : Prop :=
  0 ≤ v.toInt ∧ v.toInt ≤ a.max.toInt ∧
    (bitField val bit a.max ≤ a.max.toInt →
      v.toInt = if a.inverse ≠ 0 then a.max.toInt - bitField val bit a.max
        else bitField val bit a.max)

theorem fits_pgaValue_iff (val : Int32) {bit : Int32} (hbit : 0 ≤ bit.toInt ∧ bit.toInt < 32)
    (hmax : 0 ≤ a.max.toInt ∧ a.max.toInt < 2 ^ 30) :
    Fits val bit a (pgaValue (val >>> bit) a) ↔ bitField val bit a.max ≤ a.max.toInt := by
  have hvalue := toInt_pgaValue val hbit hmax
  have hnonneg := bitField_nonneg val bit a.max
  constructor
  · rintro ⟨hlo, hhi, -⟩
    split_ifs at hvalue <;> omega
  · intro hle
    refine ⟨?_, ?_, fun _ => hvalue⟩ <;> split_ifs at hvalue <;> omega

theorem forall_bitField_le_iff (bit : Int32) {max : Int32} (hmax : 0 ≤ max.toInt) :
    (∀ val, bitField val bit max ≤ max.toInt) ↔ ∃ k : ℕ, max.toInt + 1 = 2 ^ k := by
  obtain ⟨n, hn⟩ : ∃ n : ℕ, max.toInt = n := ⟨max.toInt.toNat, (Int.toNat_of_nonneg hmax).symm⟩
  have hlt := Nat.lt_size_self n
  have hsize : max.toInt.toNat.size = n.size := by rw [hn, Int.toNat_natCast]
  constructor
  · intro h
    have hall : bitField (-1) bit max = 2 ^ n.size - 1 := by
      have hpos : (0 : ℤ) < 2 ^ bit.toInt.toNat := Int.pow_pos (by decide)
      have hdiv : (-1 : ℤ) / 2 ^ bit.toInt.toNat = -1 := by
        rw [Int.neg_one_ediv, Int.sign_eq_one_of_pos hpos]
      have hpos' : (0 : ℤ) < 2 ^ n.size := Int.pow_pos (by decide)
      change -1 / 2 ^ bit.toInt.toNat % 2 ^ max.toInt.toNat.size = _
      rw [hdiv, hsize, ← Int.add_emod_right, Int.emod_eq_of_lt (by omega) (by omega)]
      omega
    have hle := h (-1)
    rw [hall, hn] at hle
    refine ⟨n.size, ?_⟩
    rw [hn]
    have hlt' : (n : ℤ) < 2 ^ n.size := by exact_mod_cast hlt
    omega
  · rintro ⟨k, hk⟩ val
    have hfield := bitField_lt val bit max
    have hle : (2 : ℤ) ^ n.size ≤ 2 ^ k := by
      have hnk : n < 2 ^ k := by
        have hlt' : (n : ℤ) < 2 ^ k := by omega
        exact_mod_cast hlt'
      exact_mod_cast Nat.pow_le_pow_right (by decide) (Nat.size_le.mpr hnk)
    rw [hsize] at hfield
    omega

end Value

/-! ### A profile -/

section Profile

variable {Ctl : Type} [DecidableEq Ctl] (numValues : Option Ctl → ℕ)

omit [DecidableEq Ctl] in
/-- The controls of a profile are distinct, as in every sound configuration; each has an
attribute and a position in the gain. -/
structure Configured [DecidableEq Ctl] (pga : AudioPga Ctl) (profile : PgaProfile Ctl) :
    Prop where
  nodup : (profile.item.entries.map PgaItem.ctl).Nodup
  bit : ∀ item ∈ profile.item.entries, 0 ≤ item.bit.toInt ∧ item.bit.toInt < 32
  attributes : ∀ item ∈ profile.item.entries, ∃ a,
    attributeGetByCtl pga.attributes item.ctl = some a ∧ 0 ≤ a.max.toInt ∧ a.max.toInt < 2 ^ 30

/-- `audio_pga_apply` succeeds, sets every value of every control of the profile, and nothing
to a value that does not fit. -/
def InRange (pga : AudioPga Ctl) (profile : PgaProfile Ctl) (name : List UInt8) (val : Int32) :
    Prop :=
  ∃ writes, audioPgaApply numValues (some pga) val name = some (0, writes) ∧
    (∀ item ∈ profile.item.entries, ∀ i < numValues item.ctl, ∃ v, ⟨item.ctl, i, v⟩ ∈ writes) ∧
    ∀ w ∈ writes, ∃ item ∈ profile.item.entries, w.ctl = item.ctl ∧
      ∀ a, attributeGetByCtl pga.attributes item.ctl = some a → Fits val item.bit a w.value

variable {numValues} {pga : AudioPga Ctl} {profile : PgaProfile Ctl} {name : List UInt8}

theorem mapM_applyItem (numValues : Option Ctl → ℕ) (val : Int32) {items : List (PgaItem Ctl)}
    (h : ∀ item ∈ items, ∃ a, attributeGetByCtl pga.attributes item.ctl = some a) :
    ∃ writes, items.mapM (applyItem numValues pga val) = some writes ∧
      ∀ w, w ∈ writes.flatten ↔ ∃ item ∈ items, ∃ a,
        attributeGetByCtl pga.attributes item.ctl = some a ∧
          w ∈ audioPgaSet numValues item.ctl (val >>> item.bit) a := by
  induction items with
  | nil => exact ⟨[], rfl, by simp⟩
  | cons item items ih =>
      obtain ⟨⟨a, ha⟩, hrest⟩ := List.forall_mem_cons.mp h
      obtain ⟨writes, hwrites, hmem⟩ := ih hrest
      refine ⟨audioPgaSet numValues item.ctl (val >>> item.bit) a :: writes, ?_, fun w => ?_⟩
      · rw [List.mapM_cons, hwrites, applyItem, ha]
        rfl
      · rw [List.flatten_cons, List.mem_append, hmem, List.exists_mem_cons_iff, ha]
        simp

omit [DecidableEq Ctl] in
theorem mem_audioPgaSet {ctl : Option Ctl} {value : Int32} {a : PgaAttributeItem Ctl}
    {w : Write Ctl} :
    w ∈ audioPgaSet numValues ctl value a ↔ ∃ i < numValues ctl, ⟨ctl, i, pgaValue value a⟩ = w := by
  simp [audioPgaSet, audioPgaMixerSet]

/-- A gain sets no control of a profile out of its range exactly if every bit field is in the
range of its control. -/
theorem inRange_iff (hprofile : profileGetByName pga name = some profile)
    (h : Configured pga profile) (val : Int32) :
    InRange numValues pga profile name val ↔
      ∀ item ∈ profile.item.entries, 0 < numValues item.ctl →
        ∀ a, attributeGetByCtl pga.attributes item.ctl = some a →
          bitField val item.bit a.max ≤ a.max.toInt := by
  have hattr : ∀ item ∈ profile.item.entries, ∃ a,
      attributeGetByCtl pga.attributes item.ctl = some a := by
    intro item hitem
    obtain ⟨a, ha, -⟩ := h.attributes item hitem
    exact ⟨a, ha⟩
  obtain ⟨writes, hwrites, hmem⟩ := mapM_applyItem numValues val hattr
  have happly : audioPgaApply numValues (some pga) val name = some (0, writes.flatten) := by
    simp only [audioPgaApply, hprofile, hwrites, Option.map_some]
  have hmax {item : PgaItem Ctl} (hitem : item ∈ profile.item.entries)
      {a : PgaAttributeItem Ctl} (ha : attributeGetByCtl pga.attributes item.ctl = some a) :
      0 ≤ a.max.toInt ∧ a.max.toInt < 2 ^ 30 := by
    obtain ⟨b, hb, hrange⟩ := h.attributes item hitem
    obtain rfl := Option.some.inj (ha.symm.trans hb)
    exact hrange
  constructor
  · rintro ⟨writes', hwrites', -, hfits⟩ item hitem hpos a ha
    obtain rfl : writes.flatten = writes' := by
      rw [happly, Option.some.injEq, Prod.mk.injEq] at hwrites'
      exact hwrites'.2
    have hw : ⟨item.ctl, 0, pgaValue (val >>> item.bit) a⟩ ∈ writes.flatten :=
      (hmem _).mpr ⟨item, hitem, a, ha, mem_audioPgaSet.mpr ⟨0, hpos, rfl⟩⟩
    obtain ⟨item', hitem', hctl, hfit⟩ := hfits _ hw
    -- controls of a profile are distinct
    obtain rfl := List.inj_on_of_nodup_map h.nodup hitem hitem' hctl
    exact (fits_pgaValue_iff val (h.bit item hitem) (hmax hitem ha)).mp (hfit a ha)
  · intro hfield
    refine ⟨writes.flatten, happly, ?_, ?_⟩
    · intro item hitem i hi
      obtain ⟨a, ha⟩ := hattr item hitem
      exact ⟨_, (hmem _).mpr ⟨item, hitem, a, ha, mem_audioPgaSet.mpr ⟨i, hi, rfl⟩⟩⟩
    · intro w hw
      obtain ⟨item, hitem, a, ha, hset⟩ := (hmem w).mp hw
      obtain ⟨i, hi, rfl⟩ := mem_audioPgaSet.mp hset
      refine ⟨item, hitem, rfl, fun b hb => ?_⟩
      obtain rfl := Option.some.inj (ha.symm.trans hb)
      exact (fits_pgaValue_iff val (h.bit item hitem) (hmax hitem ha)).mpr
        (hfield item hitem (by omega) a ha)

/-- A gain sets no control of a profile out of its range exactly if every bit field is in the
range of its control; this is so for every gain exactly if the greatest value of every
control is one less than a power of two. -/
theorem apply_inRange_iff (numValues : Option Ctl → ℕ)
    (hprofile : profileGetByName pga name = some profile) (h : Configured pga profile) :
    (∀ val, InRange numValues pga profile name val ↔
      ∀ item ∈ profile.item.entries, 0 < numValues item.ctl →
        ∀ a, attributeGetByCtl pga.attributes item.ctl = some a →
          bitField val item.bit a.max ≤ a.max.toInt) ∧
    ((∀ val, InRange numValues pga profile name val) ↔
      ∀ item ∈ profile.item.entries, 0 < numValues item.ctl →
        ∀ a, attributeGetByCtl pga.attributes item.ctl = some a →
          ∃ k : ℕ, a.max.toInt + 1 = 2 ^ k) := by
  refine ⟨inRange_iff hprofile h, ?_⟩
  have hmax : ∀ item ∈ profile.item.entries, ∀ a,
      attributeGetByCtl pga.attributes item.ctl = some a → 0 ≤ a.max.toInt := by
    intro item hitem a ha
    obtain ⟨b, hb, hrange⟩ := h.attributes item hitem
    obtain rfl := Option.some.inj (ha.symm.trans hb)
    exact hrange.1
  constructor
  · intro hall item hitem hpos a ha
    exact (forall_bitField_le_iff item.bit (hmax item hitem a ha)).mp fun val =>
      (inRange_iff hprofile h val).mp (hall val) item hitem hpos a ha
  · intro hpow val
    exact (inRange_iff hprofile h val).mpr fun item hitem hpos a ha =>
      (forall_bitField_le_iff item.bit (hmax item hitem a ha)).mpr (hpow item hitem hpos a ha) val

end Profile

def line : PgaProfile Unit := ⟨ofAscii "linein".toList, ⟨[⟨some (), 0⟩], 2, 2, false⟩⟩

/-- The greatest value of the control is `max`. -/
def oneControl (max : Int32) : AudioPga Unit where
  profile := ⟨[line], 8, 8, false⟩
  attributes := ⟨[⟨some (), max, 0⟩], 2, 2, false⟩

theorem configured_oneControl {max : Int32} (hmax : 0 ≤ max.toInt ∧ max.toInt < 2 ^ 30) :
    Configured (oneControl max) line where
  nodup := List.nodup_singleton _
  bit := by
    intro item hitem
    rw [List.mem_singleton.mp hitem]
    decide
  attributes := by
    intro item hitem
    rw [List.mem_singleton.mp hitem]
    exact ⟨⟨some (), max, 0⟩, rfl, hmax⟩

theorem profileGetByName_line (max : Int32) :
    profileGetByName (oneControl max) line.name = some line := by
  rw [profileGetByName, oneControl, List.find?_cons_of_pos (by simp)]

theorem apply_inRange_iff_four :
    (∀ val, InRange (fun _ => 1) (oneControl 4) line line.name val ↔
      ∀ item ∈ line.item.entries, 0 < 1 →
        ∀ a, attributeGetByCtl (oneControl 4).attributes item.ctl = some a →
          bitField val item.bit a.max ≤ a.max.toInt) ∧
    ((∀ val, InRange (fun _ => 1) (oneControl 4) line line.name val) ↔
      ∀ item ∈ line.item.entries, 0 < 1 →
        ∀ a, attributeGetByCtl (oneControl 4).attributes item.ctl = some a →
          ∃ k : ℕ, a.max.toInt + 1 = 2 ^ k) :=
  apply_inRange_iff (fun _ => 1) (profileGetByName_line 4) (configured_oneControl (by decide))

theorem not_inRange_four :
    audioPgaApply (fun _ => 1) (some (oneControl 4)) 7 line.name = some (0, [⟨some (), 0, 7⟩]) ∧
      ¬ InRange (fun _ => 1) (oneControl 4) line line.name 7 := by
  have happly : audioPgaApply (fun _ => 1) (some (oneControl 4)) 7 line.name =
      some (0, [⟨some (), 0, 7⟩]) := by
    simp only [audioPgaApply, profileGetByName_line]
    rfl
  refine ⟨happly, ?_⟩
  rintro ⟨writes, hwrites, -, hfits⟩
  obtain rfl : [⟨some (), 0, 7⟩] = writes := by
    rw [happly, Option.some.injEq, Prod.mk.injEq] at hwrites
    exact hwrites.2
  obtain ⟨item, hitem, -, hfit⟩ := hfits _ (List.mem_singleton_self _)
  rw [List.mem_singleton.mp hitem] at hfit
  have hmax := (hfit ⟨some (), 4, 0⟩ rfl).2.1
  exact absurd hmax (by decide)

end Pga

end Tarako
