import Mathlib.Algebra.Group.Int.Defs
import Mathlib.Algebra.Group.Nat.Defs
import Mathlib.Data.Int.Notation
import Tarako.Hwc.Prepare

/-!
# The geometry of the video overlay

`verify_video_layer` cuts the crop of a layer to its buffer and its frame to the screen, both
aligned to 4 pixels. The fields of the rectangles are unsigned, `MIN` and `MAX` are signed, and
the extents are checked unsigned: a crop that ends before its start comes out with an extent of
2^31 and more. The frame is checked from above as well.
-/

namespace Tarako

namespace Hwc

/-! ## Words as signed numbers -/

theorem toInt_toInt32 (x : UInt32) :
    x.toInt32.toInt = if x.toNat < 2 ^ 31 then (x.toNat : ℤ) else x.toNat - 2 ^ 32 := by
  change x.toBitVec.toInt = _
  rw [BitVec.toInt_eq_toNat_cond]
  change (if 2 * x.toNat < 2 ^ 32 then (x.toNat : ℤ) else _) = _
  have hlt := x.toNat_lt
  split_ifs <;> first | rfl | omega

theorem toInt_toUInt32 (i : Int32) :
    i.toInt = if i.toUInt32.toNat < 2 ^ 31 then (i.toUInt32.toNat : ℤ)
      else i.toUInt32.toNat - 2 ^ 32 :=
  toInt_toInt32 i.toUInt32

theorem toNat_max_zero (i : Int32) : ((MAX i 0).toUInt32.toNat : ℤ) = max i.toInt 0 := by
  have hcond := toInt_toUInt32 i
  have hlt := i.toUInt32.toNat_lt
  rw [MAX]
  by_cases h : i > 0
  · have hpos : 0 < i.toInt := Int32.lt_iff_toInt_lt.mp h
    rw [if_pos h]
    split_ifs at hcond <;> omega
  · have hle : ¬ 0 < i.toInt := fun hpos => h (Int32.lt_iff_toInt_lt.mpr hpos)
    rw [if_neg h]
    change (0 : ℤ) = _
    omega

theorem minU_cases (x y : UInt32) :
    (minU x y = x ∧ x.toInt32.toInt ≤ y.toInt32.toInt) ∨
      (minU x y = y ∧ y.toInt32.toInt ≤ x.toInt32.toInt) := by
  rw [minU, MIN]
  by_cases h : x.toInt32 < y.toInt32
  · rw [if_pos h]
    exact Or.inl ⟨rfl, Int.le_of_lt (Int32.lt_iff_toInt_lt.mp h)⟩
  · rw [if_neg h]
    exact Or.inr ⟨rfl, Int.not_lt.mp fun hlt => h (Int32.lt_iff_toInt_lt.mpr hlt)⟩

/-! ## Alignment -/

theorem and_not_three (x : BitVec 32) : x &&& ~~~3#32 = (x >>> 2) <<< 2 := by
  ext i hi
  have hlow : (3#32)[i] = decide (i < 2) := Nat.testBit_two_pow_sub_one 2 i
  rw [BitVec.getElem_and, BitVec.getElem_not, hlow, BitVec.getElem_shiftLeft]
  by_cases h : i < 2
  · simp [h]
  · have hidx : 2 + (i - 2) = i := by omega
    simp [h, hidx, BitVec.getElem_ushiftRight, BitVec.getLsbD_eq_getElem hi]

theorem toNat_align (x : UInt32) : (align x 3).toNat = (x.toNat + 3) % 2 ^ 32 / 4 * 4 := by
  have hsum : (x + 3).toNat = (x.toNat + 3) % 2 ^ 32 := UInt32.toNat_add x 3
  have hlt := (x + 3).toNat_lt
  change ((x + 3).toBitVec &&& ~~~3#32).toNat = _
  rw [and_not_three, BitVec.toNat_shiftLeft, BitVec.toNat_ushiftRight, Nat.shiftRight_eq_div_pow,
    Nat.shiftLeft_eq, UInt32.toNat_toBitVec, ← hsum]
  omega

/-! ## One axis -/

/-- The start of a crop or frame along one axis, aligned or not. -/
def axisStart (aligned : Bool) (lo : Int32) (size : UInt32) : UInt32 :=
  minU (if aligned then align (MAX lo 0).toUInt32 3 else (MAX lo 0).toUInt32) size

/-- An extent cut to the rest `r`, aligned and cut to `r'`. -/
def axisExtent (d r r' : UInt32) : UInt32 := minU (align (minU d r) 3) r'

/-- The extent of the crop from `x` on. -/
def srcExtent (hi : Int32) (size x : UInt32) : UInt32 :=
  axisExtent (hi.toUInt32 - x) (size - x) (size - x)

/-- The extent of the frame from `x` on. -/
def fbExtent (hi : Int32) (size x : UInt32) : UInt32 :=
  axisExtent (hi.toUInt32 - x) (size - x) (size - align x 3)

/-- Where a crop from `lo` on starts in an image of `size` pixels. -/
def cropStart (lo size : ℤ) : ℤ := min ((max lo 0 + 3) / 4 * 4) size

/-- The start of the crop can be aligned, and its end does not lie before it, unless so far
before it that their difference wraps around. -/
def CropAhead (lo hi size : Int32) : Prop :=
  lo.toInt ≤ 2 ^ 31 - 4 ∧
    (cropStart lo.toInt size.toInt ≤ hi.toInt ∨ hi.toInt < cropStart lo.toInt size.toInt - 2 ^ 31)

instance (lo hi size : Int32) : Decidable (CropAhead lo hi size) := by
  unfold CropAhead
  infer_instance

section Axis

variable {lo hi : Int32} {size : UInt32}

theorem axisStart_of_le {aligned : Bool} (hlo : aligned = true → lo.toInt ≤ 2 ^ 31 - 4)
    (hsize : size.toNat < 2 ^ 31) :
    ((axisStart aligned lo size).toNat : ℤ) =
      min (if aligned then (max lo.toInt 0 + 3) / 4 * 4 else max lo.toInt 0) size.toNat := by
  have hmax := toNat_max_zero lo
  have hlt := lo.toInt_lt
  have hsigned := toInt_toInt32 size
  rw [axisStart]
  cases aligned with
  | true =>
      have hle := hlo rfl
      have halign := toNat_align (MAX lo 0).toUInt32
      have hsigned' := toInt_toInt32 (align (MAX lo 0).toUInt32 3)
      rw [if_pos rfl, if_pos rfl]
      obtain ⟨heq, hmin⟩ | ⟨heq, hmin⟩ := minU_cases (align (MAX lo 0).toUInt32 3) size
      · rw [heq, halign]
        split_ifs at hsigned hsigned' <;> omega
      · rw [heq]
        split_ifs at hsigned hsigned' <;> omega
  | false =>
      have hsigned' := toInt_toInt32 (MAX lo 0).toUInt32
      rw [if_neg (by decide), if_neg (by decide)]
      obtain ⟨heq, hmin⟩ | ⟨heq, hmin⟩ := minU_cases (MAX lo 0).toUInt32 size
      · rw [heq]
        split_ifs at hsigned hsigned' <;> omega
      · rw [heq]
        split_ifs at hsigned hsigned' <;> omega

theorem axisStart_of_gt (hlo : 2 ^ 31 - 4 < lo.toInt) (hsize : size.toNat < 2 ^ 31) :
    (axisStart true lo size).toNat = 2 ^ 31 := by
  have hmax := toNat_max_zero lo
  have hlt := lo.toInt_lt
  have hsigned := toInt_toInt32 size
  have halign := toNat_align (MAX lo 0).toUInt32
  have hsigned' := toInt_toInt32 (align (MAX lo 0).toUInt32 3)
  rw [axisStart, if_pos rfl]
  obtain ⟨heq, hmin⟩ | ⟨heq, hmin⟩ := minU_cases (align (MAX lo 0).toUInt32 3) size
  · rw [heq, halign]
    omega
  · split_ifs at hsigned hsigned' <;> omega

variable {d r r' : UInt32}

theorem axisExtent_of_lt (hd : d.toNat < 2 ^ 31) (hr : r.toNat ≤ 2 ^ 31 - 4)
    (hr' : r'.toNat < 2 ^ 31) :
    (axisExtent d r r').toNat = min ((min d.toNat r.toNat + 3) / 4 * 4) r'.toNat := by
  have hcut : (minU d r).toNat = min d.toNat r.toNat := by
    have hsd := toInt_toInt32 d
    have hsr := toInt_toInt32 r
    obtain ⟨heq, hmin⟩ | ⟨heq, hmin⟩ := minU_cases d r <;> rw [heq] <;>
      split_ifs at hsd hsr <;> omega
  have halign := toNat_align (minU d r)
  have hsa := toInt_toInt32 (align (minU d r) 3)
  have hsr' := toInt_toInt32 r'
  rw [axisExtent]
  obtain ⟨heq, hmin⟩ | ⟨heq, hmin⟩ := minU_cases (align (minU d r) 3) r' <;> rw [heq] <;>
    split_ifs at hsa hsr' <;> omega

theorem axisExtent_of_neg (hd : 2 ^ 31 ≤ d.toNat) (hr : r.toNat < 2 ^ 31)
    (hr' : r'.toNat < 2 ^ 31) :
    (axisExtent d r r').toNat = 0 ∨ 2 ^ 31 ≤ (axisExtent d r r').toNat := by
  have hcut : minU d r = d := by
    have hsd := toInt_toInt32 d
    have hsr := toInt_toInt32 r
    have hlt := d.toNat_lt
    obtain ⟨heq, -⟩ | ⟨-, hmin⟩ := minU_cases d r
    · exact heq
    · split_ifs at hsd hsr <;> omega
  have halign := toNat_align d
  have hlt := d.toNat_lt
  have hsa := toInt_toInt32 (align d 3)
  have hsr' := toInt_toInt32 r'
  rw [axisExtent, hcut]
  obtain ⟨heq, hmin⟩ | ⟨heq, hmin⟩ := minU_cases (align d 3) r'
  · rw [heq]
    omega
  · rw [heq]
    split_ifs at hsa hsr' <;> omega

theorem le_axisExtent (hr' : 2 ^ 31 ≤ r'.toNat) : 2 ^ 31 ≤ (axisExtent d r r').toNat := by
  have hsa := toInt_toInt32 (align (minU d r) 3)
  have hsr' := toInt_toInt32 r'
  have hlt := r'.toNat_lt
  have hlt' := (align (minU d r) 3).toNat_lt
  rw [axisExtent]
  obtain ⟨heq, hmin⟩ | ⟨heq, hmin⟩ := minU_cases (align (minU d r) 3) r'
  · rw [heq]
    split_ifs at hsa hsr' <;> omega
  · rw [heq]
    exact hr'

theorem le_end_sub_iff (hi : Int32) {x : UInt32} (hx : x.toNat < 2 ^ 31) :
    2 ^ 31 ≤ (hi.toUInt32 - x).toNat ↔ hi.toInt < x.toNat ∧ (x.toNat : ℤ) - 2 ^ 31 ≤ hi.toInt := by
  have hhi := toInt_toUInt32 hi
  have hlt := hi.toUInt32.toNat_lt
  have hdiff := UInt32.toNat_sub hi.toUInt32 x
  split_ifs at hhi <;> omega

/-- An extent from a start in the image on that passes the test is inside the image exactly if
its end is not before its start. -/
theorem srcExtent_within_iff {x : UInt32} (hx : x.toNat ≤ size.toNat) (hsize : size.toNat < 2 ^ 16)
    (hext : 4 ≤ (srcExtent hi size x).toNat) :
    x.toNat + (srcExtent hi size x).toNat ≤ size.toNat ↔
      ¬ (hi.toInt < x.toNat ∧ (x.toNat : ℤ) - 2 ^ 31 ≤ hi.toInt) := by
  have hneg := le_end_sub_iff hi (show x.toNat < 2 ^ 31 by omega)
  have hrest := UInt32.toNat_sub_of_le size x (UInt32.le_iff_toNat_le.mpr hx)
  have hr : (size - x).toNat < 2 ^ 16 := by omega
  rw [← hneg]
  rw [srcExtent] at hext ⊢
  by_cases hd : 2 ^ 31 ≤ (hi.toUInt32 - x).toNat
  · have hcases := axisExtent_of_neg hd (show (size - x).toNat < 2 ^ 31 by omega)
      (show (size - x).toNat < 2 ^ 31 by omega)
    omega
  · have heq := axisExtent_of_lt (Nat.not_le.mp hd) (show (size - x).toNat ≤ 2 ^ 31 - 4 by omega)
      (show (size - x).toNat < 2 ^ 31 by omega)
    omega

/-- A crop of at least 4 pixels is inside the image and aligned exactly if it is ahead. -/
theorem srcAxis_iff (lo hi : Int32) (hsize : size.toNat < 2 ^ 16)
    (hext : 4 ≤ (srcExtent hi size (axisStart true lo size)).toNat) :
    ((axisStart true lo size).toNat % 4 = 0 ∧
      (axisStart true lo size).toNat + (srcExtent hi size (axisStart true lo size)).toNat ≤
        size.toNat) ↔ CropAhead lo hi size.toInt32 := by
  have hsigned := toInt_toInt32 size
  rw [if_pos (by omega)] at hsigned
  rw [CropAhead, cropStart, hsigned]
  by_cases hlo : lo.toInt ≤ 2 ^ 31 - 4
  · have hstart := axisStart_of_le (fun _ : true = true => hlo) (show size.toNat < 2 ^ 31 by omega)
    rw [if_pos rfl] at hstart
    have hwithin := srcExtent_within_iff (by omega) hsize hext
    rw [← hstart]
    omega
  · have hstart := axisStart_of_gt (Int.not_le.mp hlo) (show size.toNat < 2 ^ 31 by omega)
    omega

theorem fbAxis_within {aligned : Bool} (hsize : size.toNat < 2 ^ 31) (hmod : size.toNat % 4 = 0)
    (hmin : 4 ≤ (fbExtent hi size (axisStart aligned lo size)).toNat)
    (hmax : (fbExtent hi size (axisStart aligned lo size)).toNat ≤ 960) :
    (axisStart aligned lo size).toNat + (fbExtent hi size (axisStart aligned lo size)).toNat ≤
        size.toNat ∧
      (fbExtent hi size (axisStart aligned lo size)).toNat % 4 = 0 := by
  by_cases hlo : aligned = true → lo.toInt ≤ 2 ^ 31 - 4
  · have hstart := axisStart_of_le hlo hsize
    have hle : (axisStart aligned lo size).toNat ≤ size.toNat := by omega
    generalize axisStart aligned lo size = x at *
    have halign := toNat_align x
    have hrest := UInt32.toNat_sub_of_le size x (UInt32.le_iff_toNat_le.mpr hle)
    have hrest' := UInt32.toNat_sub_of_le size (align x 3)
      (UInt32.le_iff_toNat_le.mpr (by omega))
    rw [fbExtent] at hmin hmax ⊢
    by_cases hd : 2 ^ 31 ≤ (hi.toUInt32 - x).toNat
    · have hcases := axisExtent_of_neg hd (show (size - x).toNat < 2 ^ 31 by omega)
        (show (size - align x 3).toNat < 2 ^ 31 by omega)
      omega
    · have heq := axisExtent_of_lt (Nat.not_le.mp hd)
        (show (size - x).toNat ≤ 2 ^ 31 - 4 by omega)
        (show (size - align x 3).toNat < 2 ^ 31 by omega)
      omega
  · obtain ⟨rfl, hgt⟩ := Classical.not_imp.mp hlo
    have hstart := axisStart_of_gt (Int.not_le.mp hgt) hsize
    have halign := toNat_align (axisStart true lo size)
    have hrest' := UInt32.toNat_sub size (align (axisStart true lo size) 3)
    have hneg : 2 ^ 31 ≤ (fbExtent hi size (axisStart true lo size)).toNat :=
      le_axisExtent (by omega)
    omega

end Axis

/-! ## Accepted layers -/

/-- The width and height of the frame along the axes of the image. -/
def Geometry.dest (g : Geometry) (transform : UInt32) : UInt32 × UInt32 :=
  if rot90 transform then (g.fbRect.h, g.fbRect.w) else (g.fbRect.w, g.fbRect.h)

/-- `src` and `dest` differ by a factor of at most 4. -/
def WithinFour (src dest : ℕ) : Prop := dest ≤ 4 * src ∧ src ≤ 4 * dest

/-- What the scaler and the display can handle. -/
structure OverlaySound (fbWidth fbHeight : Int32) (transform : UInt32) (g : Geometry) : Prop where
  srcAligned : g.srcRect.x.toNat % 4 = 0 ∧ g.srcRect.y.toNat % 4 = 0
  srcWithin : g.srcRect.x.toNat + g.srcRect.w.toNat ≤ g.imgW.toNat ∧
    g.srcRect.y.toNat + g.srcRect.h.toNat ≤ g.imgH.toNat
  fbWithin : (g.fbRect.x.toNat + g.fbRect.w.toNat : ℤ) ≤ fbWidth.toInt ∧
    (g.fbRect.y.toNat + g.fbRect.h.toNat : ℤ) ≤ fbHeight.toInt
  srcExtents : 4 ≤ g.srcRect.w.toNat ∧ 4 ≤ g.srcRect.h.toNat
  fbExtents : 4 ≤ g.fbRect.w.toNat ∧ 4 ≤ g.fbRect.h.toNat
  fbAligned : g.fbRect.w.toNat % 4 = 0 ∧ g.fbRect.h.toNat % 4 = 0
  fbMax : g.fbRect.w.toNat ≤ 960 ∧ g.fbRect.h.toNat ≤ 960
  ratios : WithinFour g.srcRect.w.toNat (g.dest transform).1.toNat ∧
    WithinFour g.srcRect.h.toNat (g.dest transform).2.toNat

section Layer

variable (fbWidth fbHeight : Int32) (l : Layer) (h : PrivateHandle)

theorem videoSrcRect_eq :
    videoSrcRect l h =
      { x := axisStart true l.sourceCrop.left h.width.toUInt32
        y := axisStart true l.sourceCrop.top h.height.toUInt32
        w := srcExtent l.sourceCrop.right h.width.toUInt32
          (axisStart true l.sourceCrop.left h.width.toUInt32)
        h := srcExtent l.sourceCrop.bottom h.height.toUInt32
          (axisStart true l.sourceCrop.top h.height.toUInt32) } := rfl

theorem videoFbRect_eq :
    videoFbRect fbWidth fbHeight l =
      { x := axisStart (!rot90 l.transform) l.displayFrame.left fbWidth.toUInt32
        y := axisStart (rot90 l.transform) l.displayFrame.top fbHeight.toUInt32
        w := fbExtent l.displayFrame.right fbWidth.toUInt32
          (axisStart (!rot90 l.transform) l.displayFrame.left fbWidth.toUInt32)
        h := fbExtent l.displayFrame.bottom fbHeight.toUInt32
          (axisStart (rot90 l.transform) l.displayFrame.top fbHeight.toUInt32) } := by
  rw [videoFbRect]
  cases rot90 l.transform <;> rfl

end Layer

/-- The products of the test do not wrap around for sizes of an image. -/
theorem withinFour_of_not_lt {src dest : UInt32} (hsrc : src.toNat < 2 ^ 16)
    (hdest : dest.toNat ≤ 960) (hup : ¬ 4 * src.toInt32 < dest.toInt32)
    (hdown : ¬ src.toInt32 > 4 * dest.toInt32) : WithinFour src.toNat dest.toNat := by
  have hs := toInt_toInt32 src
  have hd := toInt_toInt32 dest
  rw [if_pos (by omega)] at hs hd
  have hmul : ∀ x : Int32, 0 ≤ x.toInt → x.toInt < 2 ^ 16 → (4 * x).toInt = 4 * x.toInt := by
    intro x hpos hlt
    rw [Int32.toInt_mul]
    have hfour : (4 : Int32).toInt = 4 := rfl
    rw [hfour, Int.bmod_eq_of_le (by omega) (by omega)]
  rw [Int32.lt_iff_toInt_lt, hmul _ (by omega) (by omega)] at hup
  rw [gt_iff_lt, Int32.lt_iff_toInt_lt, hmul _ (by omega) (by omega)] at hdown
  constructor <;> omega

section Scalable

variable {g : Geometry} {transform : UInt32} (h : g.scalable transform = true)
include h

theorem sizes_of_scalable :
    (4 ≤ g.srcRect.w.toNat ∧ 4 ≤ g.srcRect.h.toNat) ∧
      (4 ≤ g.fbRect.w.toNat ∧ 4 ≤ g.fbRect.h.toNat) ∧
        g.fbRect.w.toNat ≤ 960 ∧ g.fbRect.h.toNat ≤ 960 := by
  simp only [Geometry.scalable, Bool.and_eq_true, Bool.not_eq_true', Bool.or_eq_false_iff,
    decide_eq_false_iff_not, UInt32.not_lt, gt_iff_lt, UInt32.le_iff_toNat_le] at h
  obtain ⟨⟨⟨⟨⟨⟨hsw, hsh⟩, hfw⟩, hfh⟩, hmw⟩, hmh⟩, -⟩ := h
  exact ⟨⟨hsw, hsh⟩, ⟨hfw, hfh⟩, hmw, hmh⟩

theorem ratios_of_scalable (hw : g.srcRect.w.toNat < 2 ^ 16) (hh : g.srcRect.h.toNat < 2 ^ 16) :
    WithinFour g.srcRect.w.toNat (g.dest transform).1.toNat ∧
      WithinFour g.srcRect.h.toNat (g.dest transform).2.toNat := by
  obtain ⟨-, -, hmw, hmh⟩ := sizes_of_scalable h
  simp only [Geometry.scalable, Bool.and_eq_true, Bool.not_eq_true', Bool.or_eq_false_iff,
    decide_eq_false_iff_not] at h
  obtain ⟨-, ⟨⟨hupw, hdownw⟩, huph⟩, hdownh⟩ := h
  rw [Geometry.dest]
  cases hrot : rot90 transform with
  | true =>
      rw [hrot] at hupw hdownw huph hdownh
      exact ⟨withinFour_of_not_lt hw hmh hupw hdownw, withinFour_of_not_lt hh hmw huph hdownh⟩
  | false =>
      rw [hrot] at hupw hdownw huph hdownh
      exact ⟨withinFour_of_not_lt hw hmw hupw hdownw, withinFour_of_not_lt hh hmh huph hdownh⟩

end Scalable

theorem verifyVideoLayer_of_img {fbWidth fbHeight : Int32} {l : Layer} {h : PrivateHandle}
    {g : Geometry} (himg : (verifyVideoLayer fbWidth fbHeight l h g).2 = .img) :
    (verifyVideoLayer fbWidth fbHeight l h g).1 = videoGeometry fbWidth fbHeight l h ∧
      (videoGeometry fbWidth fbHeight l h).scalable l.transform = true := by
  rw [verifyVideoLayer] at himg ⊢
  by_cases hcand : videoCandidate l h = true
  · rw [if_pos hcand] at himg ⊢
    refine ⟨rfl, ?_⟩
    by_contra hnot
    change (if (videoGeometry fbWidth fbHeight l h).scalable l.transform = true then _ else _) =
      SprdLayers.img at himg
    rw [if_neg hnot] at himg
    cases himg
  · rw [if_neg hcand] at himg
    cases himg

theorem toNat_toUInt32_of_pos {i : Int32} (hpos : 0 < i.toInt) :
    (i.toUInt32.toNat : ℤ) = i.toInt := by
  have hcond := toInt_toUInt32 i
  have hlt := i.toUInt32.toNat_lt
  split_ifs at hcond <;> omega

section Accepted

variable {fbWidth fbHeight : Int32} {l : Layer} {h : PrivateHandle}

theorem fbRect_of_scalable (hfbW : 0 < fbWidth.toInt ∧ fbWidth.toInt % 4 = 0)
    (hfbH : 0 < fbHeight.toInt ∧ fbHeight.toInt % 4 = 0)
    (hscalable : (videoGeometry fbWidth fbHeight l h).scalable l.transform = true) :
    (((videoFbRect fbWidth fbHeight l).x.toNat + (videoFbRect fbWidth fbHeight l).w.toNat : ℤ) ≤
        fbWidth.toInt ∧
      ((videoFbRect fbWidth fbHeight l).y.toNat + (videoFbRect fbWidth fbHeight l).h.toNat : ℤ) ≤
        fbHeight.toInt) ∧
      (videoFbRect fbWidth fbHeight l).w.toNat % 4 = 0 ∧
        (videoFbRect fbWidth fbHeight l).h.toNat % 4 = 0 := by
  have hW := toNat_toUInt32_of_pos hfbW.1
  have hH := toNat_toUInt32_of_pos hfbH.1
  have hltW := fbWidth.toInt_lt
  have hltH := fbHeight.toInt_lt
  obtain ⟨-, hmin, hmax⟩ := sizes_of_scalable hscalable
  change (4 ≤ (videoFbRect fbWidth fbHeight l).w.toNat ∧
    4 ≤ (videoFbRect fbWidth fbHeight l).h.toNat) at hmin
  change ((videoFbRect fbWidth fbHeight l).w.toNat ≤ 960 ∧
    (videoFbRect fbWidth fbHeight l).h.toNat ≤ 960) at hmax
  rw [videoFbRect_eq] at hmin hmax ⊢
  obtain ⟨hxw, hw⟩ := fbAxis_within (by omega) (by omega) hmin.1 hmax.1
  obtain ⟨hyh, hh⟩ := fbAxis_within (by omega) (by omega) hmin.2 hmax.2
  exact ⟨⟨by dsimp only; omega, by dsimp only; omega⟩, hw, hh⟩

/-- The crop of an accepted layer is aligned and inside the image exactly if it is ahead. -/
theorem srcRect_iff_of_scalable (himgW : 1 ≤ h.width.toInt ∧ h.width.toInt ≤ 65535)
    (himgH : 1 ≤ h.height.toInt ∧ h.height.toInt ≤ 65535)
    (hscalable : (videoGeometry fbWidth fbHeight l h).scalable l.transform = true) :
    (((videoSrcRect l h).x.toNat % 4 = 0 ∧ (videoSrcRect l h).y.toNat % 4 = 0) ∧
      (videoSrcRect l h).x.toNat + (videoSrcRect l h).w.toNat ≤ h.width.toUInt32.toNat ∧
        (videoSrcRect l h).y.toNat + (videoSrcRect l h).h.toNat ≤ h.height.toUInt32.toNat) ↔
      CropAhead l.sourceCrop.left l.sourceCrop.right h.width ∧
        CropAhead l.sourceCrop.top l.sourceCrop.bottom h.height := by
  have hw := toNat_toUInt32_of_pos (i := h.width) (by omega)
  have hh := toNat_toUInt32_of_pos (i := h.height) (by omega)
  obtain ⟨hmin, -⟩ := sizes_of_scalable hscalable
  have hX := srcAxis_iff l.sourceCrop.left l.sourceCrop.right (by omega) hmin.1
  have hY := srcAxis_iff l.sourceCrop.top l.sourceCrop.bottom (by omega) hmin.2
  rw [videoSrcRect_eq]
  constructor
  · rintro ⟨⟨hx, hy⟩, hxw, hyh⟩
    exact ⟨hX.mp ⟨hx, hxw⟩, hY.mp ⟨hy, hyh⟩⟩
  · rintro ⟨haheadX, haheadY⟩
    obtain ⟨hx, hxw⟩ := hX.mpr haheadX
    obtain ⟨hy, hyh⟩ := hY.mpr haheadY
    exact ⟨⟨hx, hy⟩, hxw, hyh⟩

end Accepted

def qcifHandle : PrivateHandle where
  flags := PRIV_FLAGS_USES_PHY
  format := .yCbCr420Sp
  width := 176
  height := 144
  phyaddr := 0
  base := 0

def qcifLayer (crop frame : HwcRect) : Layer where
  compositionType := .framebuffer
  flags := 0
  handle := some qcifHandle
  transform := 0
  blending := HWC_BLENDING_NONE
  sourceCrop := crop
  displayFrame := frame

def noRect : SprdRect := ⟨0, 0, 0, 0⟩

/-- An accepted layer is sound exactly if its crop is ahead along both axes. -/
theorem overlaySound_iff (fbWidth fbHeight : Int32) (l : Layer) (h : PrivateHandle) (g : Geometry)
    (hfbW : 0 < fbWidth.toInt ∧ fbWidth.toInt % 4 = 0)
    (hfbH : 0 < fbHeight.toInt ∧ fbHeight.toInt % 4 = 0)
    (himgW : 1 ≤ h.width.toInt ∧ h.width.toInt ≤ 65535)
    (himgH : 1 ≤ h.height.toInt ∧ h.height.toInt ≤ 65535)
    (himg : (verifyVideoLayer fbWidth fbHeight l h g).2 = .img) :
    OverlaySound fbWidth fbHeight l.transform (verifyVideoLayer fbWidth fbHeight l h g).1 ↔
      CropAhead l.sourceCrop.left l.sourceCrop.right h.width ∧
        CropAhead l.sourceCrop.top l.sourceCrop.bottom h.height := by
  obtain ⟨heq, hscalable⟩ := verifyVideoLayer_of_img himg
  obtain ⟨hsrc, hfb, hmax⟩ := sizes_of_scalable hscalable
  obtain ⟨hfbWithin, hfbAligned⟩ := fbRect_of_scalable hfbW hfbH hscalable
  have hiff := srcRect_iff_of_scalable himgW himgH hscalable
  rw [heq, ← hiff]
  constructor
  · intro hsound
    exact ⟨hsound.srcAligned, hsound.srcWithin⟩
  · rintro ⟨haligned, hwithin⟩
    have hw := toNat_toUInt32_of_pos (i := h.width) (by omega)
    have hh := toNat_toUInt32_of_pos (i := h.height) (by omega)
    have hratios := ratios_of_scalable hscalable
      (Nat.lt_of_le_of_lt (Nat.le_trans (Nat.le_add_left _ _) hwithin.1) (by omega))
      (Nat.lt_of_le_of_lt (Nat.le_trans (Nat.le_add_left _ _) hwithin.2) (by omega))
    exact ⟨haligned, hwithin, hfbWithin, hsrc, hfb, hfbAligned, hmax, hratios⟩

theorem overlaySound_doubled :
    OverlaySound 480 800 0 (verifyVideoLayer 480 800
      (qcifLayer ⟨0, 0, 176, 144⟩ ⟨0, 0, 352, 288⟩) qcifHandle
        ⟨0, 0, .rgba8888, noRect, noRect⟩).1 :=
  (overlaySound_iff 480 800 (qcifLayer ⟨0, 0, 176, 144⟩ ⟨0, 0, 352, 288⟩) qcifHandle
    ⟨0, 0, .rgba8888, noRect, noRect⟩ (by decide) (by decide) (by decide) (by decide)
      (by decide)).mpr (by decide)

/-- A crop that ends 600000000 pixels before its start is accepted. -/
theorem accepted_outside :
    (verifyVideoLayer 480 800 (qcifLayer ⟨0, 0, -600000000, 144⟩ ⟨0, 0, 176, 144⟩) qcifHandle
        ⟨0, 0, .rgba8888, noRect, noRect⟩).2 = .img ∧
      ¬ OverlaySound 480 800 0 (verifyVideoLayer 480 800
        (qcifLayer ⟨0, 0, -600000000, 144⟩ ⟨0, 0, 176, 144⟩) qcifHandle
          ⟨0, 0, .rgba8888, noRect, noRect⟩).1 := by
  refine ⟨by decide, fun hsound => ?_⟩
  exact absurd hsound.srcWithin.1 (by decide)

end Hwc

end Tarako
