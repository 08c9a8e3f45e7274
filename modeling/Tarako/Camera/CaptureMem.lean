import Mathlib.Data.UInt
import Mathlib.Tactic.Common
import Tarako.Lib.Carve

/-!
# The memory plan of a capture

`camera_arrange_capture_buf` of `cmr_mem.c` lays the buffers of the images of a capture out
in two frames, with offsets and remaining sizes in `uint32_t`. A buffer has the same offset
in the physical and in the virtual memory of its frame, so that an address is a frame and
an offset. What is only logged and the formats of the images are left out.
-/

namespace Tarako

namespace CmrMem

open Carve

def RAWRGB_BIT_WIDTH : ℕ := 10

def CMR_ZOOM_FACTOR : ℕ := 2

def CMR_SLICE_HEIGHT : ℕ := 128

def ISP_YUV_TO_RAW_GAP : ℕ := CMR_SLICE_HEIGHT

def JPEG_EXIF_SIZE : ℕ := 64 * 1024

/-- A value in a `uint32_t`. -/
def u32 (n : ℕ) : ℕ := n % 2 ^ 32

/-- The difference of two values in a `uint32_t`. -/
def sub32 (a b : ℕ) : ℕ := (a + 2 ^ 32 - b) % 2 ^ 32

def ADDR_BY_WORD (a : ℕ) : ℕ := u32 (a + 3) / 4 * 4

inductive Mem where
  | major
  | minor
  deriving DecidableEq

/-- `orig_fmt`; the formats that are neither RAW nor JPEG are treated alike. -/
inductive ImgDataType where
  | raw
  | jpeg
  | yuv
  deriving DecidableEq

structure ImgSize where
  width : UInt32
  height : UInt32
  deriving DecidableEq

def ImgSize.pixels (s : ImgSize) : ℕ := s.width.toNat * s.height.toNat

/-- The arguments; of the trim window the first line and the height are used. -/
structure Args where
  majorSize : UInt32
  minorSize : UInt32
  snSize : ImgSize
  trimStartY : UInt32
  trimHeight : UInt32
  imageSize : ImgSize
  origFmt : ImgDataType
  capSize : ImgSize
  thumSize : ImgSize
  needRot : Bool
  imageCnt : ℕ

structure Addr where
  mem : Mem
  offset : ℕ
  deriving DecidableEq

def Addr.add (a : Addr) (n : ℕ) : Addr := ⟨a.mem, u32 (a.offset + n)⟩

def Addr.sub (a : Addr) (n : ℕ) : Addr := ⟨a.mem, sub32 a.offset n⟩

/-- The two planes of an image. -/
structure ImgFrm where
  addrY : Addr
  addrU : Addr
  deriving DecidableEq

structure Buf where
  addr : Addr
  bufSize : ℕ
  deriving DecidableEq

/-- `struct cmr_cap_mem`. Only the first image gets the buffers behind the RAW one, and the
size of `target_yuv` is not written for an image in the minor frame. -/
structure CapMem where
  targetYuv : ImgFrm
  targetSize : Option ImgSize
  capYuv : ImgFrm
  capRaw : Option Addr
  targetJpeg : Option Buf
  thumYuv : Option Buf
  thumJpeg : Option Buf
  scaleTmp : Option Buf
  capYuvRot : Option Buf
  deriving DecidableEq

namespace Args

variable (a : Args)

def sizeOf : Mem → ℕ
  | .major => a.majorSize.toNat
  | .minor => a.minorSize.toNat

/-! ### Sizes -/

/-- `get_jpeg_size`; `CMR_JPEG_COMPRESS_FACTOR` is 1. -/
def getJpegSize : ℕ := ADDR_BY_WORD (u32 (u32 a.imageSize.pixels + JPEG_EXIF_SIZE))

def getThumYuvSize : ℕ := u32 (u32 a.thumSize.pixels * 3) / 2

def getThumJpegSize : ℕ := ADDR_BY_WORD (u32 a.thumSize.pixels)

def getScalerTmpSize : ℕ :=
  u32 (u32 (a.imageSize.width.toNat * CMR_SLICE_HEIGHT) * CMR_ZOOM_FACTOR)

def channelSize : ℕ :=
  match a.origFmt with
  | .raw => u32 a.snSize.pixels
  | _ => u32 a.imageSize.pixels

def rawSize : ℕ := u32 (a.channelSize * RAWRGB_BIT_WIDTH) / 8

def yToRaw : ℕ := u32 (ISP_YUV_TO_RAW_GAP * a.snSize.width.toNat)

/-- How far the capture Y plane lies behind the target Y plane. -/
def yyToY : ℕ :=
  match a.origFmt with
  | .raw =>
      if a.imageSize ≠ a.snSize then u32 (ISP_YUV_TO_RAW_GAP * a.snSize.width.toNat)
      else if a.trimStartY ≠ 0 then
        u32 (sub32 (sub32 a.snSize.height.toNat a.trimHeight.toNat) a.trimStartY.toNat *
          a.snSize.width.toNat)
      else 0
  | .jpeg =>
      sub32 (u32 a.imageSize.pixels)
        (u32 (u32 (a.trimStartY.toNat + a.trimHeight.toNat) * a.snSize.width.toNat))
  | .yuv => sub32 a.channelSize (u32 a.capSize.pixels)

def uselessRaw : ℕ := u32 (a.yyToY * RAWRGB_BIT_WIDTH) / 8

/-- `uv_size` of the first RAW image. -/
def uvSize : ℕ := u32 (a.channelSize / 2 + a.yyToY / 2)

def yuvRawSize : ℕ :=
  match a.origFmt with
  | .raw => u32 (a.rawSize + a.yToRaw + a.yyToY + a.channelSize / 2)
  | .jpeg =>
      u32 (u32 (a.channelSize * 3) / 2 +
        u32 (sub32 (sub32 a.snSize.height.toNat a.trimStartY.toNat) a.trimHeight.toNat *
          a.snSize.width.toNat))
  | .yuv => u32 (a.channelSize * 3) / 2

/-- `offset`: where the target JPEG begins. -/
def headSize : ℕ :=
  match a.origFmt with
  | .raw => sub32 (u32 (a.rawSize + a.yToRaw + a.yyToY)) a.uselessRaw
  | _ => a.yuvRawSize

def rotSize : ℕ := u32 (a.channelSize * 3) / 2

end Args

/-- `major_end` and `minor_end`, `major_res` and `minor_res`. -/
structure Room where
  used : Mem → ℕ
  res : Mem → ℕ

namespace Room

def start (a : Args) : Room := ⟨fun _ => 0, a.sizeOf⟩

/-- `end += n` and `res -= n`. -/
def take (r : Room) (m : Mem) (n : ℕ) : Room where
  used := Function.update r.used m (u32 (r.used m + n))
  res := Function.update r.res m (sub32 (r.res m) n)

/-- `CMR_NO_MEM`, before the room is taken. -/
def reserve (r : Room) (m : Mem) (n : ℕ) : Option Room :=
  if n > r.res m then none else some (r.take m n)

def addr (r : Room) (m : Mem) : Addr := ⟨m, r.used m⟩

end Room

/-! ### The first image -/

variable (a : Args)

def yuvFrames (base : Addr) : ImgFrm × ImgFrm :=
  let targetU := base.add a.channelSize
  let capY := base.add a.yyToY
  match a.origFmt with
  | .jpeg => (⟨base, targetU⟩, ⟨capY, capY.add (u32 a.snSize.pixels)⟩)
  | _ => (⟨base, targetU⟩, ⟨capY, targetU.add (a.yyToY / 2)⟩)

/-- The UV planes of the first RAW image, in the major frame when it has room. -/
def placeUv (r : Room) : Option (Addr × Room) :=
  if a.uvSize < r.res .major then some (r.addr .major, r.take .major a.uvSize)
  else (r.reserve .minor a.uvSize).map fun r' => (⟨.minor, 0⟩, r')

def arrangeHead : Option (CapMem × Room) := do
  let base : Addr := ⟨.major, 0⟩
  let r ← (Room.start a).reserve .major a.headSize
  let jpeg : Buf := ⟨r.addr .major, a.getJpegSize⟩
  let r ← r.reserve .major a.getJpegSize
  match a.origFmt with
  | .raw =>
      let (uv, r) ← placeUv a r
      let capY := base.add a.yyToY
      some
        ({ targetYuv := ⟨base, uv⟩
           targetSize := some a.imageSize
           capYuv := ⟨capY, uv.add (a.yyToY / 2)⟩
           capRaw := some (capY.add a.yToRaw)
           targetJpeg := some jpeg
           thumYuv := none
           thumJpeg := none
           scaleTmp := none
           capYuvRot := none }, r)
  | _ =>
      some
        ({ targetYuv := (yuvFrames a base).1
           targetSize := some a.imageSize
           capYuv := (yuvFrames a base).2
           capRaw := none
           targetJpeg := some jpeg
           thumYuv := none
           thumJpeg := none
           scaleTmp := none
           capYuvRot := none }, r)

/-- One of the two loops over the misc buffers: the buffers that a frame takes, until one
does not fit, and the sizes that are left. -/
def allocFrom (m : Mem) : List ℕ → Room → List Buf × List ℕ × Room
  | [], r => ([], [], r)
  | n :: ns, r =>
      if n ≤ r.res m then
        let (bufs, rest, r') := allocFrom m ns (r.take m n)
        (⟨r.addr m, n⟩ :: bufs, rest, r')
      else ([], n :: ns, r)

/-- The misc buffers, from the major frame and then from the minor one. -/
def allocMisc (sizes : List ℕ) (r : Room) : Option (List Buf × Room) :=
  let (inMajor, rest, r) := allocFrom .major sizes r
  let (inMinor, rest, r) := allocFrom .minor rest r
  if rest = [] then some (inMajor ++ inMinor, r) else none

/-- The rotation buffer, where there is room for it. -/
def placeRot (r : Room) : Option Buf × Room :=
  if a.needRot then
    if r.res .major > a.rotSize then
      (some ⟨r.addr .major, a.rotSize⟩, r.take .major a.rotSize)
    else if r.res .minor > a.rotSize then
      (some ⟨r.addr .minor, a.rotSize⟩, r.take .minor a.rotSize)
    else (none, r)
  else (none, r)

/-! ### The other images -/

def otherImage (base : Addr) : CapMem :=
  let capY := base.add a.yyToY
  let capRaw := capY.add a.yToRaw
  let capU := capRaw.add a.rawSize
  let frames : ImgFrm × ImgFrm :=
    match a.origFmt with
    -- Half of `uv_size`, which is half of the channel by now, and not of `yy_to_y`.
    | .raw => (⟨base, capU.sub (a.channelSize / 2 / 2)⟩, ⟨capY, capU⟩)
    | _ => yuvFrames a base
  { targetYuv := frames.1
    targetSize := if base.mem = .major then some a.imageSize else none
    capYuv := frames.2
    capRaw := if a.origFmt = .raw then some capRaw else none
    targetJpeg := none
    thumYuv := none
    thumJpeg := none
    scaleTmp := none
    capYuvRot := none }

/-- One of the two loops over the other images: at most as many as are left. The loop does
not count the last image of all as used. -/
def fillImages (m : Mem) : ℕ → Room → List CapMem × Room
  | 0, r => ([], r)
  | left + 1, r =>
      if r.res m ≥ a.yuvRawSize then
        let image := otherImage a (r.addr m)
        if left = 0 then ([image], r)
        else
          let (images, r') := fillImages m left (r.take m a.yuvRawSize)
          (image :: images, r')
      else ([], r)

/-- `camera_arrange_capture_buf`; `none` stands for -1. -/
def arrange : Option (List CapMem) :=
  match arrangeHead a with
  | none => none
  | some (mem, r) =>
      match allocMisc [a.getThumYuvSize, a.getThumJpegSize, a.getScalerTmpSize] r with
      | some ([thumYuv, thumJpeg, scaleTmp], r) =>
          let (rot, r) := placeRot a r
          let first := { mem with
            thumYuv := some thumYuv
            thumJpeg := some thumJpeg
            scaleTmp := some scaleTmp
            capYuvRot := rot }
          let (inMajor, r) := fillImages a .major (a.imageCnt - 1) r
          let (inMinor, _) := fillImages a .minor (a.imageCnt - 1 - inMajor.length) r
          if 1 + inMajor.length + inMinor.length < a.imageCnt then none
          else some (first :: (inMajor ++ inMinor))
      | _ => none

/-! ### The plan -/

/-- The buffers of an image. -/
inductive Kind where
  | targetYuv
  | targetJpeg
  | thumYuv
  | thumJpeg
  | scaleTmp
  | capYuvRot
  | capYuv
  | capRaw
  deriving DecidableEq

def Kind.IsCapture (k : Kind) : Prop := k = .capYuv ∨ k = .capRaw

/-- What a capture fills is read while the target YUV is written, and the capture YUV while
the capture RAW is read. -/
def Kind.Overlaps (k l : Kind) : Prop :=
  k.IsCapture ∧ (l = .targetYuv ∨ l.IsCapture) ∨ k = .targetYuv ∧ l.IsCapture

def Addr.region (p : Addr) (n : ℕ) : Region Mem := ⟨p.mem, p.offset, n⟩

def Buf.region (b : Buf) : Region Mem := b.addr.region b.bufSize

/-- Every buffer lies in a frame, those of different images are apart, and so are those of one
image, except for the capture buffers and the target YUV. -/
structure Sound (plan : List (List (Kind × Region Mem))) : Prop where
  inside : ∀ bs ∈ plan, ∀ b ∈ bs, ∃ m, b.2.cells ⊆ (⟨m, 0, a.sizeOf m⟩ : Region Mem).cells
  apart : plan.Pairwise fun p q => ∀ b ∈ p, ∀ c ∈ q, Disjoint b.2.cells c.2.cells
  within : ∀ bs ∈ plan, bs.Pairwise fun b c =>
    b.1.Overlaps c.1 ∨ Disjoint b.2.cells c.2.cells

/-- Every product that is formed is below `2 ^ 31`, the trim window lies in the sensor, and
the capture is not larger than the image. -/
structure Valid : Prop where
  image : 3 * a.imageSize.pixels < 2 ^ 31
  sensor : RAWRGB_BIT_WIDTH * a.snSize.pixels < 2 ^ 31
  thum : 3 * a.thumSize.pixels < 2 ^ 31
  slice : CMR_ZOOM_FACTOR * (CMR_SLICE_HEIGHT * a.imageSize.width.toNat) < 2 ^ 31
  gap : RAWRGB_BIT_WIDTH * (ISP_YUV_TO_RAW_GAP * a.snSize.width.toNat) < 2 ^ 31
  trim : a.trimStartY.toNat + a.trimHeight.toNat ≤ a.snSize.height.toNat
  cap : a.capSize.pixels ≤ a.imageSize.pixels

/-- The image of a RAW sensor has its size, and the trim window begins with its first line or
ends with its last one. A JPEG sensor captures nothing, or the image is not smaller than the
lines down to the end of the trim window, and half an image and a sensor hold the capture. -/
structure Fits : Prop where
  raw : a.origFmt = .raw → a.imageSize = a.snSize ∧
    (a.trimStartY = 0 ∨ a.trimStartY.toNat + a.trimHeight.toNat = a.snSize.height.toNat)
  jpeg : a.origFmt = .jpeg → a.capSize.pixels = 0 ∨
    (a.trimStartY.toNat + a.trimHeight.toNat) * a.snSize.width.toNat ≤ a.imageSize.pixels ∧
      a.capSize.pixels ≤ a.imageSize.pixels / 2 + a.snSize.pixels

end CmrMem

end Tarako
