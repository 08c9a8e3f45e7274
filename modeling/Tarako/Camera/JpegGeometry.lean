import Mathlib.Data.Set.Card
import Mathlib.Order.Interval.Finset.Nat
import Mathlib.Tactic.IntervalCases
import Tarako.Camera.JpegParse

/-!
# The geometry of the JPEG decoder

`JPEGFW_UpdateMiscFields` rounds the image up to whole MCUs and rejects what is too large;
`JpegDec_VspSubModuleCfg` packs the result into registers of the VSP. Fields of the codec
are 16 bits wide, so a product that is stored into one is cut off there.
-/

namespace Tarako

namespace JpegGeometry

open JpegParse (McuInfo)

/-! ## The codec -/

structure SampleRatio where
  hRatio : UInt8
  vRatio : UInt8

/-- What the two functions read and write of `JPEG_CODEC_T`. -/
structure Codec where
  width : UInt16
  height : UInt16
  ratioY : SampleRatio
  ratioU : SampleRatio
  ratioV : SampleRatio
  inputMcuInfo : McuInfo
  scaleFactor : UInt8
  pingpangBufLen : Int32
  mcuWidth : UInt16
  mcuHeight : UInt16
  mcuNumX : UInt16
  mcuNumY : UInt16
  cWidth : UInt16
  cHeight : UInt16
  outWidth : UInt16
  outHeight : UInt16
  dcPredY : UInt32
  dcPredUv : UInt32
  restartMcuCnt : UInt32
  bitstreamOffset : UInt32

def Codec.cleared : Codec :=
  { width := 0, height := 0, ratioY := ⟨0, 0⟩, ratioU := ⟨0, 0⟩, ratioV := ⟨0, 0⟩
    inputMcuInfo := .yuv420, scaleFactor := 0, pingpangBufLen := 0, mcuWidth := 0
    mcuHeight := 0, mcuNumX := 0, mcuNumY := 0, cWidth := 0, cHeight := 0, outWidth := 0
    outHeight := 0, dcPredY := 0, dcPredUv := 0, restartMcuCnt := 0, bitstreamOffset := 0 }

def mcuFormat : McuInfo → UInt32
  | .yuv420 => 0
  | .yuv411 => 1
  | .yuv444 => 2
  | .yuv422 => 3
  | .yuv400 => 4
  | .yuv422R => 5
  | .yuv411R => 6

/-- What of `JPEG_DEC_INPUT_PARA_T` ends up in the fields above. -/
structure DecInput where
  inputWidth : UInt32
  inputHeight : UInt32
  inputMcuInfo : McuInfo
  scalingDownFactor : UInt32
  pingpongBufLen : Int32

/-- The ratio of the luma that `JPEG_FWInitDecInput` sets. -/
def ratioOfY : McuInfo → SampleRatio
  | .yuv420 => ⟨2, 2⟩
  | .yuv411 => ⟨4, 1⟩
  | .yuv444 => ⟨1, 1⟩
  | .yuv422 => ⟨2, 1⟩
  | .yuv400 => ⟨1, 1⟩
  | .yuv422R => ⟨1, 2⟩
  | .yuv411R => ⟨1, 4⟩

def ratioOfUV : McuInfo → SampleRatio
  | .yuv400 => ⟨0, 0⟩
  | _ => ⟨1, 1⟩

/-- `JPEG_FWInitDecInput` up to its call of `JPEGFW_UpdateMiscFields`. -/
def Codec.load (c : Codec) (input : DecInput) : Codec :=
  { c with
    pingpangBufLen := input.pingpongBufLen
    scaleFactor := input.scalingDownFactor.toUInt8
    width := input.inputWidth.toUInt16
    height := input.inputHeight.toUInt16
    inputMcuInfo := input.inputMcuInfo
    ratioY := ratioOfY input.inputMcuInfo
    ratioU := ratioOfUV input.inputMcuInfo
    ratioV := ratioOfUV input.inputMcuInfo }

/-! ## `JPEGFW_UpdateMiscFields` -/

def MAX_WIDTH : ℕ := 4096

def MAX_MCU_NUM : ℕ := 0x3ffff

def maxHeight : McuInfo → ℕ
  | .yuv444 | .yuv422 | .yuv411 | .yuv400 => 8192
  | .yuv422R | .yuv420 => 8192 * 2
  | .yuv411R => 8192 * 4

def max3 (a b c : UInt8) : ℕ := max a.toNat (max b.toNat c.toNat)

def Codec.setMcuSize (c : Codec) : Codec :=
  { c with
    mcuWidth := .ofNat (8 * max3 c.ratioY.hRatio c.ratioU.hRatio c.ratioV.hRatio)
    mcuHeight := .ofNat (8 * max3 c.ratioY.vRatio c.ratioU.vRatio c.ratioV.vRatio) }

def Codec.setMcuNum (c : Codec) : Codec :=
  { c with
    mcuNumX := .ofNat ((c.width.toNat + c.mcuWidth.toNat - 1) / c.mcuWidth.toNat)
    mcuNumY := .ofNat ((c.height.toNat + c.mcuHeight.toNat - 1) / c.mcuHeight.toNat) }

def Codec.setCoeffSize (c : Codec) : Codec :=
  { c with
    cWidth := .ofNat (c.mcuNumX.toNat * c.mcuWidth.toNat)
    cHeight := .ofNat (c.mcuNumY.toNat * c.mcuHeight.toNat) }

def Codec.setOutSize (c : Codec) : Codec :=
  { c with
    outWidth := .ofNat (c.cWidth.toNat >>> c.scaleFactor.toNat)
    outHeight := .ofNat (c.cHeight.toNat >>> c.scaleFactor.toNat)
    dcPredY := 0
    dcPredUv := 0
    restartMcuCnt := 0
    bitstreamOffset := 0 }

/-- The codec that `JPEGFW_UpdateMiscFields` leaves, and whether it succeeds. -/
def updateMiscFields (c : Codec) : Codec × Bool :=
  let c := c.setMcuSize
  if c.mcuHeight = 0 ∨ c.mcuWidth = 0 then (c, false)
  else
    let c := c.setMcuNum.setCoeffSize.setOutSize
    if c.outWidth = 0 ∨ c.outHeight = 0 then (c, false)
    else if MAX_WIDTH < c.cWidth.toNat ∨ maxHeight c.inputMcuInfo < c.cHeight.toNat ∨
        MAX_MCU_NUM ≤ c.mcuNumX.toNat * c.mcuNumY.toNat then (c, false)
    else (c, true)

/-! ## `JpegDec_VspSubModuleCfg` -/

/-- The registers of the VSP that are written. -/
inductive Reg
  | dcamSrcSize
  | bsmCfg1
  | bsmCfg0
  | vldJpegCfg0
  | dctConfig
  | mbcCfg
  | dbkCfg
  deriving DecidableEq

def srcSize (c : Codec) : UInt32 :=
  ((c.cHeight.toUInt32 >>> c.scaleFactor.toUInt32) &&& 0x0fff) <<< 16 |||
    ((c.cWidth.toUInt32 >>> c.scaleFactor.toUInt32) &&& 0x0fff)

def vldJpegCfg0 (c : Codec) : UInt32 := (c.mcuNumY.toUInt32 * c.mcuNumX.toUInt32) &&& 0x3ffff

def DCT_QUANT_EN : UInt32 := 1

def DCT_AUTO_MODE : UInt32 := 1

def IDCT_MODE : UInt32 := 0

def DBK_RUN_FREE_MODE : UInt32 := 2

def downSampleSetting (c : Codec) : UInt32 := if c.scaleFactor = 0 then 0 else 1

def vspSubModuleCfg (c : Codec) : List (Reg × UInt32) :=
  [(.dcamSrcSize, srcSize c),
    (.bsmCfg1, (1 : UInt32) <<< 31),
    (.bsmCfg0, ((c.pingpangBufLen + 3) >>> 2).toUInt32),
    (.vldJpegCfg0, vldJpegCfg0 c),
    (.dctConfig, (mcuFormat c.inputMcuInfo &&& 0x7) <<< 9 ||| DCT_QUANT_EN <<< 8 |||
      DCT_AUTO_MODE <<< 1 ||| IDCT_MODE),
    (.mbcCfg, c.scaleFactor.toUInt32 <<< 12 ||| downSampleSetting c <<< 8),
    (.dbkCfg, (0 : UInt32) <<< 2 ||| DBK_RUN_FREE_MODE)]

/-- What is in a register behind the writes. -/
def written (r : Reg) (writes : List (Reg × UInt32)) : Option UInt32 :=
  (writes.findRev? (·.1 = r)).map (·.2)

/-! ## What the geometry is for -/

def mcuSize : McuInfo → ℕ × ℕ
  | .yuv444 => (8, 8)
  | .yuv422 => (16, 8)
  | .yuv411 => (32, 8)
  | .yuv411R => (8, 32)
  | .yuv420 => (16, 16)
  | .yuv422R => (8, 16)
  | .yuv400 => (8, 8)

/-- The least multiple of `m` that is not below `n`. -/
def IsRoundUp (m n k : ℕ) : Prop := IsLeast {i | m ∣ i ∧ n ≤ i} k

def coveringMcus (width height : ℕ) (mcu : ℕ × ℕ) : Set (ℕ × ℕ) :=
  {p | p.1 * mcu.1 < width ∧ p.2 * mcu.2 < height}

/-- The coefficients are whole MCUs that cover the image. -/
structure Covers (c : Codec) : Prop where
  cWidth : IsRoundUp (mcuSize c.inputMcuInfo).1 c.width.toNat c.cWidth.toNat
  cHeight : IsRoundUp (mcuSize c.inputMcuInfo).2 c.height.toNat c.cHeight.toNat
  mcuNum : c.mcuNumX.toNat * c.mcuNumY.toNat =
    (coveringMcus c.width.toNat c.height.toNat (mcuSize c.inputMcuInfo)).ncard

/-- The registers hold the geometry. -/
structure Packed (c : Codec) : Prop where
  srcSize : ∃ r, written .dcamSrcSize (vspSubModuleCfg c) = some r ∧
    ((r >>> 16) &&& 0xfff).toNat = c.cHeight.toNat >>> c.scaleFactor.toNat ∧
    (r &&& 0xfff).toNat = c.cWidth.toNat >>> c.scaleFactor.toNat
  vldJpegCfg0 : ∃ r, written .vldJpegCfg0 (vspSubModuleCfg c) = some r ∧
    (r &&& 0x3ffff).toNat = c.mcuNumX.toNat * c.mcuNumY.toNat

/-! ### Rounding up -/

theorem isRoundUp_div {m : ℕ} (hm : 0 < m) (n : ℕ) :
    IsRoundUp m n ((n + m - 1) / m * m) := by
  refine ⟨⟨Nat.dvd_mul_left m _, ?_⟩, ?_⟩
  · have hlt : n + m - 1 < (n + m - 1) / m * m + m := by
      rw [mul_comm]
      exact Nat.lt_mul_div_succ _ hm
    omega
  · rintro _ ⟨⟨k, rfl⟩, hk⟩
    rw [mul_comm m k] at hk ⊢
    refine Nat.mul_le_mul_right m (Nat.le_of_lt_succ ((Nat.div_lt_iff_lt_mul hm).mpr ?_))
    rw [Nat.succ_mul]
    omega

theorem mul_lt_iff {m : ℕ} (hm : 0 < m) (i n : ℕ) : i * m < n ↔ i < (n + m - 1) / m := by
  have hdiv : i + 1 ≤ (n + m - 1) / m ↔ (i + 1) * m ≤ n + m - 1 := Nat.le_div_iff_mul_le hm
  rw [← Nat.succ_le_iff (n := (n + m - 1) / m), hdiv, Nat.succ_mul]
  omega

theorem ncard_coveringMcus {m k : ℕ} (hm : 0 < m) (hk : 0 < k) (width height : ℕ) :
    (coveringMcus width height (m, k)).ncard =
      (width + m - 1) / m * ((height + k - 1) / k) := by
  have hset : coveringMcus width height (m, k) =
      ↑(Finset.range ((width + m - 1) / m) ×ˢ Finset.range ((height + k - 1) / k)) := by
    ext p
    rw [Finset.mem_coe, Finset.mem_product, Finset.mem_range, Finset.mem_range,
      ← mul_lt_iff hm, ← mul_lt_iff hk]
    rfl
  rw [hset, Set.ncard_coe_finset, Finset.card_product, Finset.card_range, Finset.card_range]

/-! ### The steps of `JPEGFW_UpdateMiscFields` -/

def Codec.updated (c : Codec) : Codec := c.setMcuSize.setMcuNum.setCoeffSize.setOutSize

theorem updateMiscFields_success {c : Codec} (h : (updateMiscFields c).2 = true) :
    (updateMiscFields c).1 = c.updated ∧ c.updated.outWidth ≠ 0 ∧ c.updated.outHeight ≠ 0 ∧
      c.updated.mcuNumX.toNat * c.updated.mcuNumY.toNat < MAX_MCU_NUM := by
  unfold updateMiscFields at h ⊢
  by_cases hsize : c.setMcuSize.mcuHeight = 0 ∨ c.setMcuSize.mcuWidth = 0
  · rw [if_pos hsize] at h
    cases h
  rw [if_neg hsize] at h ⊢
  by_cases hout : c.updated.outWidth = 0 ∨ c.updated.outHeight = 0
  · rw [← Codec.updated, if_pos hout] at h
    cases h
  rw [← Codec.updated, if_neg hout] at h ⊢
  by_cases hmax : MAX_WIDTH < c.updated.cWidth.toNat ∨
      maxHeight c.updated.inputMcuInfo < c.updated.cHeight.toNat ∨
      MAX_MCU_NUM ≤ c.updated.mcuNumX.toNat * c.updated.mcuNumY.toNat
  · rw [if_pos hmax] at h
    cases h
  rw [if_neg hmax]
  push Not at hout hmax
  exact ⟨rfl, hout.1, hout.2, hmax.2.2⟩

/-- One side of an MCU is a small power of two. -/
def IsMcuSide (m : ℕ) : Prop := m = 8 ∨ m = 16 ∨ m = 32

theorem isMcuSide (info : McuInfo) : IsMcuSide (mcuSize info).1 ∧ IsMcuSide (mcuSize info).2 := by
  cases info <;> simp [IsMcuSide, mcuSize]

theorem IsMcuSide.pos {m : ℕ} (hm : IsMcuSide m) : 0 < m := by
  unfold IsMcuSide at hm
  omega

theorem setMcuSize_load (c : Codec) (input : DecInput) :
    (c.load input).setMcuSize.mcuWidth.toNat = (mcuSize input.inputMcuInfo).1 ∧
      (c.load input).setMcuSize.mcuHeight.toNat = (mcuSize input.inputMcuInfo).2 := by
  obtain ⟨width, height, info, scale, len⟩ := input
  cases info <;> exact ⟨rfl, rfl⟩

theorem toNat_mcuNum {m n : ℕ} (hm : IsMcuSide m) (hn : n < 2 ^ 16) :
    (UInt16.ofNat ((n + m - 1) / m)).toNat = (n + m - 1) / m := by
  rw [UInt16.toNat_ofNat']
  refine Nat.mod_eq_of_lt ?_
  rcases hm with rfl | rfl | rfl <;> omega

/-- A size that wraps becomes `0`, which is rejected as the output size. -/
theorem toNat_coeffSize {m n s : ℕ} (hm : IsMcuSide m) (hn : n < 2 ^ 16)
    (h : UInt16.ofNat ((UInt16.ofNat ((n + m - 1) / m * m)).toNat >>> s) ≠ 0) :
    (UInt16.ofNat ((n + m - 1) / m * m)).toNat = (n + m - 1) / m * m := by
  have hle : (n + m - 1) / m * m ≤ 2 ^ 16 := by
    rcases hm with rfl | rfl | rfl <;> omega
  rcases Nat.lt_or_eq_of_le hle with hlt | heq
  · rw [UInt16.toNat_ofNat', Nat.mod_eq_of_lt hlt]
  · rw [heq] at h
    exact absurd (by simp) h

theorem side_eq {m n s : ℕ} (hm : IsMcuSide m) (hn : n < 2 ^ 16)
    (h : UInt16.ofNat ((UInt16.ofNat
      ((UInt16.ofNat ((n + m - 1) / m)).toNat * m)).toNat >>> s) ≠ 0) :
    (UInt16.ofNat ((n + m - 1) / m)).toNat = (n + m - 1) / m ∧
      (UInt16.ofNat ((UInt16.ofNat ((n + m - 1) / m)).toNat * m)).toNat =
        (n + m - 1) / m * m := by
  rw [toNat_mcuNum hm hn] at h ⊢
  exact ⟨rfl, toNat_coeffSize hm hn h⟩

/-- What `updateMiscFields` leaves of a loaded codec when it succeeds. -/
theorem updated_eq {c : Codec} {input : DecInput}
    (h : (updateMiscFields (c.load input)).2 = true) :
    let c' := (updateMiscFields (c.load input)).1
    let width := input.inputWidth.toUInt16.toNat
    let height := input.inputHeight.toUInt16.toNat
    let mcu := mcuSize input.inputMcuInfo
    c'.width.toNat = width ∧ c'.height.toNat = height ∧ c'.inputMcuInfo = input.inputMcuInfo ∧
      c'.scaleFactor = input.scalingDownFactor.toUInt8 ∧
      (c'.mcuNumX.toNat = (width + mcu.1 - 1) / mcu.1 ∧
        c'.cWidth.toNat = (width + mcu.1 - 1) / mcu.1 * mcu.1) ∧
      c'.mcuNumY.toNat = (height + mcu.2 - 1) / mcu.2 ∧
        c'.cHeight.toNat = (height + mcu.2 - 1) / mcu.2 * mcu.2 := by
  obtain ⟨heq, hw, hh, -⟩ := updateMiscFields_success h
  obtain ⟨hmw, hmh⟩ := setMcuSize_load c input
  obtain ⟨hsw, hsh⟩ := isMcuSide input.inputMcuInfo
  rw [← hmw] at hsw
  rw [← hmh] at hsh
  have hx := side_eq hsw input.inputWidth.toUInt16.toNat_lt hw
  have hy := side_eq hsh input.inputHeight.toUInt16.toNat_lt hh
  rw [hmw] at hx
  rw [hmh] at hy
  rw [heq]
  exact ⟨rfl, rfl, rfl, rfl, hmw ▸ hx, hmh ▸ hy⟩

theorem covers_of_success {c : Codec} {input : DecInput}
    (h : (updateMiscFields (c.load input)).2 = true) :
    Covers (updateMiscFields (c.load input)).1 := by
  obtain ⟨hwidth, hheight, hinfo, -, ⟨hx, hcw⟩, hy, hch⟩ := updated_eq h
  obtain ⟨hsw, hsh⟩ := isMcuSide input.inputMcuInfo
  refine ⟨?_, ?_, ?_⟩
  · rw [hinfo, hwidth, hcw]
    exact isRoundUp_div hsw.pos _
  · rw [hinfo, hheight, hch]
    exact isRoundUp_div hsh.pos _
  · rw [hinfo, hwidth, hheight, hx, hy]
    exact (ncard_coveringMcus hsw.pos hsh.pos _ _).symm

/-! ### The registers -/

theorem toNat_and_low (a : UInt32) : (a &&& 0xfff).toNat = a.toNat % 2 ^ 12 := by
  rw [UInt32.toNat_and]
  exact Nat.and_two_pow_sub_one_eq_mod a.toNat 12

theorem toNat_shiftRight_scale (a : UInt16) {s : UInt8} (hs : s ≤ 2) :
    (a.toUInt32 >>> s.toUInt32).toNat = a.toNat >>> s.toNat := by
  have hle : s.toNat ≤ 2 := hs
  rw [UInt32.toNat_shiftRight, UInt16.toNat_toUInt32, UInt8.toNat_toUInt32,
    Nat.mod_eq_of_lt (by omega)]

theorem srcSize_toNat {c : Codec} (hs : c.scaleFactor ≤ 2) :
    (srcSize c).toNat = (c.cHeight.toNat >>> c.scaleFactor.toNat) % 2 ^ 12 * 2 ^ 16 +
      (c.cWidth.toNat >>> c.scaleFactor.toNat) % 2 ^ 12 := by
  have hrow := Nat.mod_lt (c.cHeight.toNat >>> c.scaleFactor.toNat) (Nat.two_pow_pos 12)
  have hcol := Nat.mod_lt (c.cWidth.toNat >>> c.scaleFactor.toNat) (Nat.two_pow_pos 12)
  unfold srcSize
  rw [UInt32.toNat_or, UInt32.toNat_shiftLeft, toNat_and_low, toNat_and_low,
    toNat_shiftRight_scale _ hs, toNat_shiftRight_scale _ hs]
  generalize (c.cHeight.toNat >>> c.scaleFactor.toNat) % 2 ^ 12 = row at hrow ⊢
  generalize (c.cWidth.toNat >>> c.scaleFactor.toNat) % 2 ^ 12 = col at hcol ⊢
  have hshift : row <<< 16 < 2 ^ 32 := by
    rw [Nat.shiftLeft_eq]
    omega
  rw [show (16 : UInt32).toNat % 32 = 16 from rfl, Nat.mod_eq_of_lt hshift,
    ← Nat.shiftLeft_add_eq_or_of_lt (by omega), Nat.shiftLeft_eq]

theorem srcSize_fields {c : Codec} (hs : c.scaleFactor ≤ 2) :
    ((srcSize c >>> 16) &&& 0xfff).toNat =
        (c.cHeight.toNat >>> c.scaleFactor.toNat) % 2 ^ 12 ∧
      (srcSize c &&& 0xfff).toNat = (c.cWidth.toNat >>> c.scaleFactor.toNat) % 2 ^ 12 := by
  have hrow := Nat.mod_lt (c.cHeight.toNat >>> c.scaleFactor.toNat) (Nat.two_pow_pos 12)
  have hcol := Nat.mod_lt (c.cWidth.toNat >>> c.scaleFactor.toNat) (Nat.two_pow_pos 12)
  rw [toNat_and_low, toNat_and_low, UInt32.toNat_shiftRight, srcSize_toNat hs,
    show (16 : UInt32).toNat % 32 = 16 from rfl, Nat.shiftRight_eq_div_pow]
  constructor <;> omega

theorem vldJpegCfg0_field {c : Codec} (h : c.mcuNumX.toNat * c.mcuNumY.toNat < MAX_MCU_NUM) :
    (vldJpegCfg0 c &&& 0x3ffff).toNat = c.mcuNumX.toNat * c.mcuNumY.toNat := by
  unfold MAX_MCU_NUM at h
  have hand (a : UInt32) : (a &&& 0x3ffff).toNat = a.toNat % 2 ^ 18 := by
    rw [UInt32.toNat_and]
    exact Nat.and_two_pow_sub_one_eq_mod a.toNat 18
  unfold vldJpegCfg0
  rw [hand, hand, UInt32.toNat_mul, UInt16.toNat_toUInt32, UInt16.toNat_toUInt32,
    Nat.mul_comm c.mcuNumY.toNat]
  omega

theorem shiftRight_lt_iff {m s : ℕ} (hm : IsMcuSide m) (hs : s ≤ 2) (n : ℕ) :
    ((n + m - 1) / m * m) >>> s < 2 ^ 12 ↔ n + m ≤ 4096 * 2 ^ s := by
  rw [Nat.shiftRight_eq_div_pow]
  interval_cases s <;> rcases hm with rfl | rfl | rfl <;> omega

theorem packed_iff_of_small {c : Codec} (hs : c.scaleFactor ≤ 2)
    (hmcu : c.mcuNumX.toNat * c.mcuNumY.toNat < MAX_MCU_NUM) :
    Packed c ↔ c.cWidth.toNat >>> c.scaleFactor.toNat < 2 ^ 12 ∧
      c.cHeight.toNat >>> c.scaleFactor.toNat < 2 ^ 12 := by
  obtain ⟨hrow, hcol⟩ := srcSize_fields hs
  constructor
  · rintro ⟨⟨r, hr, hh, hw⟩, -⟩
    obtain rfl : srcSize c = r := Option.some.inj hr
    rw [← hh, ← hw, hrow, hcol]
    exact ⟨Nat.mod_lt _ (Nat.two_pow_pos 12), Nat.mod_lt _ (Nat.two_pow_pos 12)⟩
  · rintro ⟨hw, hh⟩
    refine ⟨⟨_, rfl, ?_, ?_⟩, ⟨_, rfl, vldJpegCfg0_field hmcu⟩⟩
    · rw [hrow, Nat.mod_eq_of_lt hh]
    · rw [hcol, Nat.mod_eq_of_lt hw]

/-! ### The geometry as a whole -/

/-- A codec that passes always covers the image, and its registers hold the geometry exactly
if no side reaches 4096 behind the scaling. -/
theorem geometry_exact_iff (c : Codec) (input : DecInput) (hs : input.scalingDownFactor ≤ 2)
    (h : (updateMiscFields (c.load input)).2 = true) :
    (Covers (updateMiscFields (c.load input)).1 ∧ Packed (updateMiscFields (c.load input)).1) ↔
      input.inputWidth.toUInt16.toNat + (mcuSize input.inputMcuInfo).1 ≤
          4096 * 2 ^ input.scalingDownFactor.toNat ∧
        input.inputHeight.toUInt16.toNat + (mcuSize input.inputMcuInfo).2 ≤
          4096 * 2 ^ input.scalingDownFactor.toNat := by
  obtain ⟨-, -, -, hscale, ⟨-, hcw⟩, -, hch⟩ := updated_eq h
  obtain ⟨hsw, hsh⟩ := isMcuSide input.inputMcuInfo
  have hle : input.scalingDownFactor.toNat ≤ 2 := hs
  have hfactor : (updateMiscFields (c.load input)).1.scaleFactor.toNat =
      input.scalingDownFactor.toNat := by
    rw [hscale, UInt32.toNat_toUInt8]
    omega
  have hmcu : (updateMiscFields (c.load input)).1.mcuNumX.toNat *
      (updateMiscFields (c.load input)).1.mcuNumY.toNat < MAX_MCU_NUM := by
    obtain ⟨heq, -, -, hlt⟩ := updateMiscFields_success h
    rw [heq]
    exact hlt
  have hsmall : (updateMiscFields (c.load input)).1.scaleFactor ≤ 2 :=
    UInt8.le_iff_toNat_le.mpr (hfactor ▸ hle)
  rw [and_iff_right (covers_of_success h), packed_iff_of_small hsmall hmcu, hfactor, hcw, hch,
    shiftRight_lt_iff hsw hle, shiftRight_lt_iff hsh hle]

theorem geometry_exact_iff_vga :
    let input : DecInput := ⟨640, 480, .yuv420, 1, 0⟩
    Covers (updateMiscFields (Codec.cleared.load input)).1 ∧
      Packed (updateMiscFields (Codec.cleared.load input)).1 :=
  (geometry_exact_iff Codec.cleared ⟨640, 480, .yuv420, 1, 0⟩ (by decide) (by decide)).mpr
    (by decide)

/-- An image 4096 pixels wide passes, and the field of its width holds zero. -/
theorem width_4096_truncated :
    ∃ input : DecInput, input.scalingDownFactor ≤ 2 ∧
      (updateMiscFields (Codec.cleared.load input)).2 = true ∧
      ¬ Packed (updateMiscFields (Codec.cleared.load input)).1 := by
  refine ⟨⟨4096, 8, .yuv444, 0, 0⟩, by decide, by decide, ?_⟩
  rintro ⟨⟨r, hr, -, hw⟩, -⟩
  obtain rfl : 0x00080000 = r := Option.some.inj hr
  exact absurd hw (by decide)

end JpegGeometry

end Tarako
