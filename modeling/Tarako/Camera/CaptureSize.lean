import Tarako.Camera.CapturePlan

/-!
# The size of the capture memory

`camera_capture_buf_size` of `cmr_mem.c` looks the sizes of the two frames of a capture up by
the number of pixels, in `uint32_t`. What a capture takes of them depends on the width of the
image and on the thumbnail as well.
-/

namespace Tarako

namespace CmrMem

/-! ## The tables -/

structure CapSizeToMem where
  pixelNum : UInt32
  majorSize : UInt32
  minorSize : UInt32

def PIXEL_1P3_MEGA : UInt32 := 0x180000

def PIXEL_2P0_MEGA : UInt32 := 0x200000

def PIXEL_3P0_MEGA : UInt32 := 0x300000

def PIXEL_5P0_MEGA : UInt32 := 0x500000

def PIXEL_8P0_MEGA : UInt32 := 0x800000

def BACK_CAMERA_ID : UInt32 := 0

def FRONT_CAMERA_ID : UInt32 := 1

def SENSOR_IMAGE_FORMAT_RAW : UInt32 := 2

/-- `n << 20`. -/
def megabytes (n : UInt32) : UInt32 := n <<< 20

/-- Whether the build has `CONFIG_BACK_CAMERA_ROTATION` and `CONFIG_FRONT_CAMERA_ROTATION`. -/
structure Build where
  backCameraRotation : Bool
  frontCameraRotation : Bool

/-- The tables of a camera whose images are rotated, the same for both cameras. -/
def rotationMemSizeTab : List CapSizeToMem :=
  [⟨PIXEL_1P3_MEGA, megabytes 6, megabytes 0⟩,
    ⟨PIXEL_2P0_MEGA, megabytes 8, megabytes 0⟩,
    ⟨PIXEL_3P0_MEGA, megabytes 11, megabytes 0⟩,
    ⟨PIXEL_5P0_MEGA, megabytes 16, megabytes 8⟩,
    ⟨PIXEL_8P0_MEGA, megabytes 16, megabytes 16⟩]

def rotationRawMemSizeTab : List CapSizeToMem :=
  [⟨PIXEL_1P3_MEGA, megabytes 8, megabytes 0⟩,
    ⟨PIXEL_2P0_MEGA, megabytes 8, megabytes 1⟩,
    ⟨PIXEL_3P0_MEGA, megabytes 7, megabytes 5⟩,
    ⟨PIXEL_5P0_MEGA, megabytes 16, megabytes 8⟩,
    ⟨PIXEL_8P0_MEGA, megabytes 24, megabytes 16⟩]

/-- The table for RAW sensors without rotation, the same for both cameras. -/
def uprightRawMemSizeTab : List CapSizeToMem :=
  [⟨PIXEL_1P3_MEGA, megabytes 6, megabytes 0⟩,
    ⟨PIXEL_2P0_MEGA, megabytes 7, megabytes 0⟩,
    ⟨PIXEL_3P0_MEGA, megabytes 8, megabytes 0⟩,
    ⟨PIXEL_5P0_MEGA, megabytes 16, megabytes 0⟩,
    ⟨PIXEL_8P0_MEGA, megabytes 24, megabytes 4⟩]

def backCamMemSizeTab (b : Build) : List CapSizeToMem :=
  if b.backCameraRotation then rotationMemSizeTab
  else
    [⟨PIXEL_1P3_MEGA, megabytes 4, megabytes 0⟩,
      ⟨PIXEL_2P0_MEGA, megabytes 5, megabytes 0⟩,
      ⟨PIXEL_3P0_MEGA, megabytes 9, megabytes 0⟩,
      ⟨PIXEL_5P0_MEGA, megabytes 16, megabytes 0⟩,
      ⟨PIXEL_8P0_MEGA, megabytes 16, megabytes 8⟩]

def backCamRawMemSizeTab (b : Build) : List CapSizeToMem :=
  if b.backCameraRotation then rotationRawMemSizeTab else uprightRawMemSizeTab

def frontCamMemSizeTab (b : Build) : List CapSizeToMem :=
  if b.frontCameraRotation then rotationMemSizeTab
  else
    [⟨PIXEL_1P3_MEGA, megabytes 4, megabytes 0⟩,
      ⟨PIXEL_2P0_MEGA, megabytes 5, megabytes 0⟩,
      ⟨PIXEL_3P0_MEGA, megabytes 7, megabytes 0⟩,
      ⟨PIXEL_5P0_MEGA, megabytes 16, megabytes 0⟩,
      ⟨PIXEL_8P0_MEGA, megabytes 16, megabytes 8⟩]

def frontCamRawMemSizeTab (b : Build) : List CapSizeToMem :=
  if b.frontCameraRotation then rotationRawMemSizeTab else uprightRawMemSizeTab

/-- The table of the ATV, used whatever the format. -/
def rawMemSizeTab : List CapSizeToMem :=
  [⟨PIXEL_1P3_MEGA, megabytes 4, megabytes 4⟩,
    ⟨PIXEL_2P0_MEGA, megabytes 8, megabytes 8⟩,
    ⟨PIXEL_3P0_MEGA, megabytes 16, megabytes 2⟩,
    ⟨PIXEL_5P0_MEGA, megabytes 16, megabytes 0⟩,
    ⟨PIXEL_8P0_MEGA, megabytes 16, megabytes 8⟩]

def memTab (b : Build) (cameraId snFmt : UInt32) : List CapSizeToMem :=
  if snFmt = SENSOR_IMAGE_FORMAT_RAW then
    if cameraId = BACK_CAMERA_ID then backCamRawMemSizeTab b
    else if cameraId = FRONT_CAMERA_ID then frontCamRawMemSizeTab b
    else rawMemSizeTab
  else
    if cameraId = BACK_CAMERA_ID then backCamMemSizeTab b
    else if cameraId = FRONT_CAMERA_ID then frontCamMemSizeTab b
    else rawMemSizeTab

def rowFor (tab : List CapSizeToMem) (pixels : ℕ) : Option CapSizeToMem :=
  tab.find? (pixels ≤ ·.pixelNum.toNat)

/-- `camera_capture_buf_size`: the sizes of the major and the minor frame, none where it
returns -1. -/
def captureBufSize (b : Build) (cameraId snFmt : UInt32) (imageSize : ImgSize) :
    Option (UInt32 × UInt32) :=
  (rowFor (memTab b cameraId snFmt) (u32 imageSize.pixels)).map
    fun row => (row.majorSize, row.minorSize)

/-! ## What one image takes -/

/-- One image that is not rotated, as large as the sensor and the capture. -/
def plainArgs (majorSize minorSize : UInt32) (imageSize thumSize : ImgSize)
    (origFmt : ImgDataType) : Args where
  majorSize := majorSize
  minorSize := minorSize
  snSize := imageSize
  trimStartY := 0
  trimHeight := imageSize.height
  imageSize := imageSize
  origFmt := origFmt
  capSize := imageSize
  thumSize := thumSize
  needRot := false
  imageCnt := 1

/-- The sizes for an image suffice for it, and its pixels have been counted right. -/
def Suffices (b : Build) (cameraId snFmt : UInt32) (imageSize thumSize : ImgSize)
    (origFmt : ImgDataType) : Prop :=
  ∀ majorSize minorSize, captureBufSize b cameraId snFmt imageSize = some (majorSize, minorSize) →
    imageSize.pixels < 2 ^ 32 ∧
      (arrange (plainArgs majorSize minorSize imageSize thumSize origFmt)).isSome

/-- The YUV and JPEG buffers of an image of `n` pixels. -/
def headDemand (n : ℕ) : ℕ := n * 3 / 2 + (n + JPEG_EXIF_SIZE + 3) / 4 * 4

/-- The buffers behind them, for an image of some width and a thumbnail of `t` pixels. -/
def miscDemand (width t : ℕ) : List ℕ := [t * 3 / 2, (t + 3) / 4 * 4, u32 (width * 256)]

/-- The first `k` of the buffers behind the YUV and JPEG ones go into the major frame with
these, the others into the minor one. -/
def Splits (row : CapSizeToMem) (imageSize thumSize : ImgSize) (k : ℕ) : Prop :=
  headDemand imageSize.pixels +
      ((miscDemand imageSize.width.toNat thumSize.pixels).take k).sum ≤ row.majorSize.toNat ∧
    ((miscDemand imageSize.width.toNat thumSize.pixels).drop k).sum ≤ row.minorSize.toNat

theorem Splits.total_le {row : CapSizeToMem} {imageSize thumSize : ImgSize} {k : ℕ}
    (h : Splits row imageSize thumSize k) :
    headDemand imageSize.pixels + (miscDemand imageSize.width.toNat thumSize.pixels).sum ≤
      row.majorSize.toNat + row.minorSize.toNat := by
  have hsum := congrArg List.sum
    (List.take_append_drop k (miscDemand imageSize.width.toNat thumSize.pixels))
  rw [List.sum_append] at hsum
  obtain ⟨hmajor, hminor⟩ := h
  omega

/-- The image is rejected, or its row holds what it takes. -/
def Enough (tab : List CapSizeToMem) (imageSize thumSize : ImgSize) : Prop :=
  PIXEL_8P0_MEGA.toNat < u32 imageSize.pixels ∨
    ∃ row, rowFor tab imageSize.pixels = some row ∧ ∃ k, Splits row imageSize thumSize k

/-! ### Rows -/

theorem map_pixelNum_memTab (b : Build) (cameraId snFmt : UInt32) :
    (memTab b cameraId snFmt).map CapSizeToMem.pixelNum =
      [PIXEL_1P3_MEGA, PIXEL_2P0_MEGA, PIXEL_3P0_MEGA, PIXEL_5P0_MEGA, PIXEL_8P0_MEGA] := by
  unfold memTab backCamMemSizeTab backCamRawMemSizeTab frontCamMemSizeTab frontCamRawMemSizeTab
  split_ifs <;> rfl

/-- No table has a row for more than 8 mega pixels, and every one has a row for 8. -/
theorem rowFor_eq_none_iff (b : Build) (cameraId snFmt : UInt32) (n : ℕ) :
    rowFor (memTab b cameraId snFmt) n = none ↔ PIXEL_8P0_MEGA.toNat < n := by
  have hrows : (∀ row ∈ memTab b cameraId snFmt, ¬ n ≤ row.pixelNum.toNat) ↔
      ∀ pixelNum ∈ (memTab b cameraId snFmt).map CapSizeToMem.pixelNum,
        ¬ n ≤ pixelNum.toNat := by
    rw [List.forall_mem_map]
  have hnums : PIXEL_1P3_MEGA.toNat ≤ PIXEL_8P0_MEGA.toNat ∧
      PIXEL_2P0_MEGA.toNat ≤ PIXEL_8P0_MEGA.toNat ∧
      PIXEL_3P0_MEGA.toNat ≤ PIXEL_8P0_MEGA.toNat ∧
      PIXEL_5P0_MEGA.toNat ≤ PIXEL_8P0_MEGA.toNat := by decide
  rw [rowFor, List.find?_eq_none]
  simp only [decide_eq_true_eq]
  rw [hrows, map_pixelNum_memTab]
  simp only [List.forall_mem_cons, List.not_mem_nil, false_implies, implies_true, and_true]
  omega

/-! ### Room -/

variable {r : Room}

theorem take_res_self {m : Mem} {n : ℕ} (hn : n ≤ r.res m) (hlt : r.res m < 2 ^ 32) :
    (r.take m n).res m = r.res m - n := by
  rw [Room.take, sub32_of_le hn hlt]
  exact Function.update_self ..

theorem take_res_of_ne {m m' : Mem} (h : m' ≠ m) (n : ℕ) :
    (r.take m n).res m' = r.res m' := by
  rw [Room.take]
  exact Function.update_of_ne h ..

theorem allocFrom_cons_of_le {m : Mem} {n : ℕ} (ns : List ℕ) (hn : n ≤ r.res m) :
    allocFrom m (n :: ns) r =
      (⟨r.addr m, n⟩ :: (allocFrom m ns (r.take m n)).1, (allocFrom m ns (r.take m n)).2) := by
  rw [allocFrom, if_pos hn]

theorem allocFrom_cons_of_not_le {m : Mem} {n : ℕ} (ns : List ℕ) (hn : ¬ n ≤ r.res m) :
    allocFrom m (n :: ns) r = ([], n :: ns, r) := by
  rw [allocFrom, if_neg hn]

theorem allocFrom_rest_eq_nil_iff (m : Mem) (sizes : List ℕ) (hlt : r.res m < 2 ^ 32) :
    (allocFrom m sizes r).2.1 = [] ↔ sizes.sum ≤ r.res m := by
  induction sizes generalizing r with
  | nil => simp [allocFrom]
  | cons n ns ih =>
      rw [List.sum_cons]
      by_cases hn : n ≤ r.res m
      · have hres := take_res_self hn hlt
        rw [allocFrom_cons_of_le ns hn, ih (by omega), hres]
        omega
      · rw [allocFrom_cons_of_not_le ns hn]
        simp only [reduceCtorEq, false_iff]
        omega

theorem length_allocFrom (m : Mem) (sizes : List ℕ) (r : Room) :
    (allocFrom m sizes r).1.length + (allocFrom m sizes r).2.1.length = sizes.length := by
  induction sizes generalizing r with
  | nil => rfl
  | cons n ns ih =>
      by_cases hn : n ≤ r.res m
      · rw [allocFrom_cons_of_le ns hn, List.length_cons, List.length_cons, Nat.add_right_comm, ih]
      · rw [allocFrom_cons_of_not_le ns hn]
        exact Nat.zero_add _

theorem length_allocMisc {sizes : List ℕ} {bufs : List Buf} {r' : Room}
    (h : allocMisc sizes r = some (bufs, r')) : bufs.length = sizes.length := by
  unfold allocMisc at h
  dsimp only at h
  split at h
  · rename_i hrest
    obtain ⟨rfl, -⟩ := Prod.mk.inj (Option.some.inj h)
    rw [← length_allocFrom .major sizes r, List.length_append, Nat.add_left_cancel_iff,
      ← length_allocFrom .minor (allocFrom .major sizes r).2.1 (allocFrom .major sizes r).2.2,
      hrest]
    rfl
  · cases h

theorem allocMisc_cons_of_le {n : ℕ} (ns : List ℕ) (hn : n ≤ r.res .major) :
    (allocMisc (n :: ns) r).isSome = (allocMisc ns (r.take .major n)).isSome := by
  unfold allocMisc
  rw [allocFrom_cons_of_le ns hn]
  dsimp only
  split_ifs <;> rfl

theorem allocMisc_cons_of_not_le {n : ℕ} (ns : List ℕ) (hn : ¬ n ≤ r.res .major)
    (hlt : r.res .minor < 2 ^ 32) :
    (allocMisc (n :: ns) r).isSome ↔ (n :: ns).sum ≤ r.res .minor := by
  rw [← allocFrom_rest_eq_nil_iff .minor (n :: ns) hlt]
  unfold allocMisc
  rw [allocFrom_cons_of_not_le ns hn]
  dsimp only
  split_ifs with hrest
  · exact iff_of_true rfl hrest
  · exact iff_of_false Bool.false_ne_true hrest

/-- The misc buffers are placed exactly if the first of them fit into the major frame and the
others into the minor one. -/
theorem allocMisc_isSome_iff (sizes : List ℕ) (hlt : ∀ m, r.res m < 2 ^ 32) :
    (allocMisc sizes r).isSome ↔
      ∃ k, (sizes.take k).sum ≤ r.res .major ∧ (sizes.drop k).sum ≤ r.res .minor := by
  induction sizes generalizing r with
  | nil => exact iff_of_true rfl ⟨0, Nat.zero_le _, Nat.zero_le _⟩
  | cons n ns ih =>
      by_cases hn : n ≤ r.res .major
      · have hmajor : (r.take .major n).res .major = r.res .major - n :=
          take_res_self hn (hlt _)
        have hminor : (r.take .major n).res .minor = r.res .minor :=
          take_res_of_ne (by decide) n
        have hltTake : ∀ m, (r.take .major n).res m < 2 ^ 32 := by
          intro m
          cases m with
          | major => exact hmajor ▸ Nat.lt_of_le_of_lt (Nat.sub_le _ _) (hlt .major)
          | minor => exact hminor ▸ hlt .minor
        rw [allocMisc_cons_of_le ns hn, ih hltTake, hmajor, hminor]
        constructor
        · rintro ⟨k, htake, hdrop⟩
          refine ⟨k + 1, ?_, hdrop⟩
          rw [List.take_succ_cons, List.sum_cons]
          omega
        · rintro ⟨k, htake, hdrop⟩
          cases k with
          | zero =>
              rw [List.drop_zero, List.sum_cons] at hdrop
              exact ⟨0, Nat.zero_le _, by rw [List.drop_zero]; omega⟩
          | succ k =>
              rw [List.take_succ_cons, List.sum_cons] at htake
              exact ⟨k, by omega, hdrop⟩
      · rw [allocMisc_cons_of_not_le ns hn (hlt _)]
        constructor
        · intro hsum
          exact ⟨0, Nat.zero_le _, hsum⟩
        · rintro ⟨k, htake, hdrop⟩
          cases k with
          | zero => exact hdrop
          | succ k =>
              rw [List.take_succ_cons, List.sum_cons] at htake
              omega

/-! ### One image -/

variable {majorSize minorSize : UInt32} {imageSize thumSize : ImgSize} {origFmt : ImgDataType}

theorem sub32_self (n : ℕ) : sub32 n n = 0 := by
  rw [sub32, Nat.add_sub_cancel_left, Nat.mod_self]

theorem sub32_zero {n : ℕ} (h : n < 2 ^ 32) : sub32 n 0 = n := sub32_of_le (Nat.zero_le n) h

theorem headSize_plainArgs (hfmt : origFmt ≠ .raw)
    (hpixels : imageSize.pixels ≤ PIXEL_8P0_MEGA.toNat) :
    (plainArgs majorSize minorSize imageSize thumSize origFmt).headSize =
      imageSize.pixels * 3 / 2 := by
  have hmax : PIXEL_8P0_MEGA.toNat = 0x800000 := by decide
  have hchannel : u32 imageSize.pixels = imageSize.pixels := u32_of_lt (by omega)
  have htriple : u32 (imageSize.pixels * 3) = imageSize.pixels * 3 := u32_of_lt (by omega)
  cases origFmt with
  | raw => exact absurd rfl hfmt
  | jpeg =>
      have hbelow : sub32 (sub32 imageSize.height.toNat 0) imageSize.height.toNat = 0 := by
        rw [sub32_zero imageSize.height.toNat_lt, sub32_self]
      change u32 (u32 (u32 imageSize.pixels * 3) / 2 +
        u32 (sub32 (sub32 imageSize.height.toNat 0) imageSize.height.toNat *
          imageSize.width.toNat)) = _
      rw [hchannel, htriple, hbelow, Nat.zero_mul, u32_of_lt (n := 0) (by decide),
        u32_of_lt (by omega), Nat.add_zero]
  | yuv =>
      change u32 (u32 imageSize.pixels * 3) / 2 = _
      rw [hchannel, htriple]

theorem getJpegSize_plainArgs (hpixels : imageSize.pixels ≤ PIXEL_8P0_MEGA.toNat) :
    (plainArgs majorSize minorSize imageSize thumSize origFmt).getJpegSize =
      (imageSize.pixels + JPEG_EXIF_SIZE + 3) / 4 * 4 := by
  have hmax : PIXEL_8P0_MEGA.toNat = 0x800000 := by decide
  have hexif : JPEG_EXIF_SIZE = 0x10000 := rfl
  have hpixels32 : u32 imageSize.pixels = imageSize.pixels := u32_of_lt (by omega)
  have hsum : u32 (imageSize.pixels + JPEG_EXIF_SIZE) = imageSize.pixels + JPEG_EXIF_SIZE :=
    u32_of_lt (by omega)
  change ADDR_BY_WORD (u32 (u32 imageSize.pixels + JPEG_EXIF_SIZE)) = _
  rw [hpixels32, hsum, ADDR_BY_WORD, u32_of_lt (by omega)]

theorem miscSizes_plainArgs (hthum : thumSize.pixels ≤ 320 * 240) :
    let a := plainArgs majorSize minorSize imageSize thumSize origFmt
    [a.getThumYuvSize, a.getThumJpegSize, a.getScalerTmpSize] =
      miscDemand imageSize.width.toNat thumSize.pixels := by
  have hpixels : u32 thumSize.pixels = thumSize.pixels := u32_of_lt (by omega)
  have hyuv : u32 (u32 thumSize.pixels * 3) / 2 = thumSize.pixels * 3 / 2 := by
    rw [hpixels, u32_of_lt (by omega)]
  have hjpeg : ADDR_BY_WORD (u32 thumSize.pixels) = (thumSize.pixels + 3) / 4 * 4 := by
    rw [hpixels, ADDR_BY_WORD, u32_of_lt (by omega)]
  have hscaler : u32 (u32 (imageSize.width.toNat * CMR_SLICE_HEIGHT) * CMR_ZOOM_FACTOR) =
      u32 (imageSize.width.toNat * 256) := by
    unfold u32 CMR_SLICE_HEIGHT CMR_ZOOM_FACTOR
    omega
  change [u32 (u32 thumSize.pixels * 3) / 2, ADDR_BY_WORD (u32 thumSize.pixels),
    u32 (u32 (imageSize.width.toNat * CMR_SLICE_HEIGHT) * CMR_ZOOM_FACTOR)] = _
  rw [hyuv, hjpeg, hscaler, miscDemand]

theorem reserve_major {n : ℕ} (hn : n ≤ r.res .major) (hlt : r.res .major < 2 ^ 32) :
    ∃ r', r.reserve .major n = some r' ∧ r'.res .major = r.res .major - n ∧
      r'.res .minor = r.res .minor := by
  refine ⟨r.take .major n, ?_, take_res_self hn hlt, take_res_of_ne (by decide) n⟩
  rw [Room.reserve, if_neg (Nat.not_lt.mpr hn)]

theorem reserve_eq_none {m : Mem} {n : ℕ} (hn : r.res m < n) : r.reserve m n = none := by
  rw [Room.reserve, if_pos hn]

/-- The YUV and JPEG buffers of an image that is not RAW are placed exactly if both fit, and
leave the rest of the major frame and all of the minor one. -/
theorem arrangeHead_of_ne_raw {a : Args} (hfmt : a.origFmt ≠ .raw) :
    (∃ mem r, arrangeHead a = some (mem, r) ∧
        a.headSize + a.getJpegSize ≤ a.majorSize.toNat ∧
        r.res .major = a.majorSize.toNat - (a.headSize + a.getJpegSize) ∧
        r.res .minor = a.minorSize.toNat) ∨
      arrangeHead a = none ∧ a.majorSize.toNat < a.headSize + a.getJpegSize := by
  have hlt := a.majorSize.toNat_lt
  have hmajor : (Room.start a).res .major = a.majorSize.toNat := rfl
  by_cases hhead : a.headSize ≤ a.majorSize.toNat
  · obtain ⟨r, hr, hrMajor, hrMinor⟩ := reserve_major (r := Room.start a) hhead hlt
    by_cases hjpeg : a.getJpegSize ≤ r.res .major
    · obtain ⟨r', hr', hrMajor', hrMinor'⟩ := reserve_major hjpeg (by omega)
      left
      have hroom : (arrangeHead a).map Prod.snd = some r' := by
        rw [arrangeHead, hr, Option.bind_eq_bind, Option.bind_some, hr', Option.bind_eq_bind,
          Option.bind_some]
        cases hcase : a.origFmt with
        | raw => exact absurd hcase hfmt
        | jpeg => rfl
        | yuv => rfl
      obtain ⟨⟨mem, r''⟩, hsome, hr''⟩ := Option.map_eq_some_iff.mp hroom
      obtain rfl : r'' = r' := hr''
      exact ⟨mem, r'', hsome, by omega, by omega, hrMinor'.trans hrMinor⟩
    · right
      have hnone := reserve_eq_none (Nat.not_le.mp hjpeg)
      refine ⟨?_, by omega⟩
      rw [arrangeHead, hr, Option.bind_eq_bind, Option.bind_some, hnone, Option.bind_eq_bind,
        Option.bind_none]
  · right
    have hnone : (Room.start a).reserve .major a.headSize = none :=
      reserve_eq_none (Nat.not_le.mp hhead)
    refine ⟨?_, by omega⟩
    simp only [arrangeHead, hnone, Option.bind_eq_bind, Option.bind_none]

/-- An image that is alone and not rotated is arranged if its buffers are. -/
theorem arrange_isSome_of_one {a : Args} (hrot : a.needRot = false) (hcnt : a.imageCnt = 1)
    {mem : CapMem} (hhead : arrangeHead a = some (mem, r)) :
    (arrange a).isSome =
      (allocMisc [a.getThumYuvSize, a.getThumJpegSize, a.getScalerTmpSize] r).isSome := by
  cases hmisc : allocMisc [a.getThumYuvSize, a.getThumJpegSize, a.getScalerTmpSize] r with
  | none => simp only [arrange, hhead, hmisc, Option.isSome_none]
  | some placed =>
      obtain ⟨bufs, r'⟩ := placed
      obtain ⟨thumYuv, thumJpeg, scaleTmp, rfl⟩ := List.length_eq_three.mp (length_allocMisc hmisc)
      simp [arrange, hhead, hmisc, placeRot, hrot, hcnt, fillImages]

/-- An image of at most 8 mega pixels is arranged exactly if its buffers can be split between
the frames. -/
theorem arrange_plainArgs_isSome_iff (row : CapSizeToMem) (hfmt : origFmt ≠ .raw)
    (hpixels : imageSize.pixels ≤ PIXEL_8P0_MEGA.toNat)
    (hthum : thumSize.pixels ≤ 320 * 240) :
    (arrange (plainArgs row.majorSize row.minorSize imageSize thumSize origFmt)).isSome ↔
      ∃ k, Splits row imageSize thumSize k := by
  have hhead : (plainArgs row.majorSize row.minorSize imageSize thumSize origFmt).headSize +
      (plainArgs row.majorSize row.minorSize imageSize thumSize origFmt).getJpegSize =
        headDemand imageSize.pixels := by
    rw [headSize_plainArgs hfmt hpixels, getJpegSize_plainArgs hpixels, headDemand]
  obtain ⟨mem, r, hsome, hle, hmajor, hminor⟩ | ⟨hnone, hfull⟩ := arrangeHead_of_ne_raw
    (a := plainArgs row.majorSize row.minorSize imageSize thumSize origFmt) hfmt
  · have hmajorLt := row.majorSize.toNat_lt
    have hlt : ∀ m, r.res m < 2 ^ 32 := by
      intro m
      cases m with
      | major => exact hmajor ▸ Nat.lt_of_le_of_lt (Nat.sub_le _ _) hmajorLt
      | minor => exact hminor ▸ row.minorSize.toNat_lt
    rw [hhead] at hle hmajor
    rw [arrange_isSome_of_one rfl rfl hsome, miscSizes_plainArgs hthum,
      allocMisc_isSome_iff _ hlt, hmajor, hminor]
    refine exists_congr fun k => and_congr_left fun _ => ?_
    exact (Nat.le_sub_iff_add_le' hle)
  · rw [hhead] at hfull
    simp only [arrange, hnone, Option.isSome_none, Bool.false_eq_true, false_iff]
    rintro ⟨k, hmajor, -⟩
    exact absurd (Nat.le_trans (Nat.le_add_right _ _) hmajor) (Nat.not_le.mpr hfull)

theorem thumSize_pixels_le (hthum : thumSize.width ≤ 320 ∧ thumSize.height ≤ 240) :
    thumSize.pixels ≤ 320 * 240 :=
  Nat.mul_le_mul (UInt32.le_iff_toNat_le.mp hthum.1) (UInt32.le_iff_toNat_le.mp hthum.2)

theorem not_enough_of_wrapped (b : Build) (cameraId snFmt : UInt32)
    (haccepted : u32 imageSize.pixels ≤ PIXEL_8P0_MEGA.toNat)
    (hwrapped : 2 ^ 32 ≤ imageSize.pixels) :
    ¬ Enough (memTab b cameraId snFmt) imageSize thumSize := by
  have hmax : PIXEL_8P0_MEGA.toNat = 0x800000 := by decide
  rintro (hrejected | ⟨row, hrow, -⟩)
  · exact absurd hrejected (Nat.not_lt.mpr haccepted)
  · rw [(rowFor_eq_none_iff b cameraId snFmt _).mpr (by omega)] at hrow
    cases hrow

/-- The sizes for an image suffice exactly if the image is rejected or the row for its pixels
can be split into its buffers. -/
theorem captureSize_suffices_iff (b : Build) (cameraId snFmt : UInt32)
    (imageSize thumSize : ImgSize) (origFmt : ImgDataType) (hfmt : origFmt ≠ .raw)
    (hthum : thumSize.width ≤ 320 ∧ thumSize.height ≤ 240) :
    Suffices b cameraId snFmt imageSize thumSize origFmt ↔
      Enough (memTab b cameraId snFmt) imageSize thumSize := by
  have hmax : PIXEL_8P0_MEGA.toNat = 0x800000 := by decide
  cases hrow : rowFor (memTab b cameraId snFmt) (u32 imageSize.pixels) with
  | none =>
      have hrejected := (rowFor_eq_none_iff b cameraId snFmt _).mp hrow
      have hsize : captureBufSize b cameraId snFmt imageSize = none := by
        rw [captureBufSize, hrow, Option.map_none]
      refine iff_of_true (fun majorSize minorSize hsome => ?_) (Or.inl hrejected)
      rw [hsize] at hsome
      cases hsome
  | some row =>
      have haccepted : u32 imageSize.pixels ≤ PIXEL_8P0_MEGA.toNat := by
        rw [← Nat.not_lt, ← rowFor_eq_none_iff b cameraId snFmt, hrow]
        exact Option.some_ne_none row
      have hsize : captureBufSize b cameraId snFmt imageSize =
          some (row.majorSize, row.minorSize) := by
        rw [captureBufSize, hrow, Option.map_some]
      by_cases hlt : imageSize.pixels < 2 ^ 32
      · rw [u32_of_lt hlt] at hrow haccepted
        have harrange := arrange_plainArgs_isSome_iff row hfmt haccepted
          (thumSize_pixels_le hthum)
        constructor
        · intro hsuffices
          obtain ⟨-, hsome⟩ := hsuffices _ _ hsize
          exact Or.inr ⟨row, hrow, harrange.mp hsome⟩
        · rintro (hrejected | ⟨row', hrow', hsplits⟩) majorSize minorSize hsome
          · rw [u32_of_lt hlt] at hrejected
            exact absurd hrejected (Nat.not_lt.mpr haccepted)
          · obtain rfl : row = row' := Option.some.inj (hrow.symm.trans hrow')
            obtain ⟨rfl, rfl⟩ := Prod.mk.inj (Option.some.inj (hsize.symm.trans hsome))
            exact ⟨hlt, harrange.mpr hsplits⟩
      · refine iff_of_false (fun hsuffices => hlt (hsuffices _ _ hsize).1) ?_
        exact not_enough_of_wrapped b cameraId snFmt haccepted (Nat.not_lt.mp hlt)

theorem captureSize_suffices_vga :
    Suffices ⟨false, false⟩ BACK_CAMERA_ID 0 ⟨640, 480⟩ ⟨320, 240⟩ .yuv :=
  (captureSize_suffices_iff ⟨false, false⟩ BACK_CAMERA_ID 0 ⟨640, 480⟩ ⟨320, 240⟩ .yuv
    (by decide) (by decide)).mpr
      (Or.inr ⟨⟨PIXEL_1P3_MEGA, megabytes 4, 0⟩, rfl, 3, by decide, by decide⟩)

/-- A back camera without rotation gets 4 mega bytes for 1536 x 1024 pixels, which are too
few; and an image of 2 ^ 32 pixels is taken for an empty one. -/
theorem captureSize_too_small :
    captureBufSize ⟨false, false⟩ BACK_CAMERA_ID 0 ⟨1536, 1024⟩ = some (megabytes 4, 0) ∧
      arrange (plainArgs (megabytes 4) 0 ⟨1536, 1024⟩ ⟨320, 240⟩ .yuv) = none ∧
      captureBufSize ⟨false, false⟩ BACK_CAMERA_ID 0 ⟨65536, 65536⟩ = some (megabytes 4, 0) ∧
      2 ^ 32 ≤ (⟨65536, 65536⟩ : ImgSize).pixels := by
  refine ⟨rfl, ?_, rfl, by decide⟩
  have hiff := @arrange_plainArgs_isSome_iff ⟨1536, 1024⟩ ⟨320, 240⟩ .yuv
    ⟨PIXEL_1P3_MEGA, megabytes 4, 0⟩ (by decide) (by decide) (by decide)
  rw [← Option.not_isSome_iff_eq_none]
  intro hsome
  obtain ⟨k, hsplits⟩ := hiff.mp hsome
  exact absurd hsplits.total_le (by decide)

end CmrMem

end Tarako
