import Mathlib.Data.List.Basic
import Mathlib.Data.List.Count
import Mathlib.Tactic.Common

/-!
# The layer plan of the hardware composer

`hwc_prepare` of `hwcomposer.cpp` marks at most one layer for the video overlay and at
most one for the OSD overlay; the others are left to the framebuffer.
`verify_video_layer` writes the geometry of a layer into the context while it decides,
and `hwc_set` applies what it finds there to the video layer.
-/

namespace Tarako

namespace Hwc

def HWC_SKIP_LAYER : UInt32 := 0x00000001

def HWC_BLENDING_NONE : UInt32 := 0x0100

def HAL_TRANSFORM_FLIP_H : UInt32 := 0x01

def HAL_TRANSFORM_FLIP_V : UInt32 := 0x02

def HAL_TRANSFORM_ROT_90 : UInt32 := 0x04

def HAL_TRANSFORM_ROT_180 : UInt32 := 0x03

def HAL_TRANSFORM_ROT_270 : UInt32 := 0x07

def PRIV_FLAGS_USES_PHY : UInt32 := 0x00000008

def PRIV_FLAGS_NOT_OVERLAY : UInt32 := 0x00000010

/-- `SRCRECT_*_ALLIGNED`, without `USE_GPU_PROCESS_VIDEO`. -/
def SRCRECT_ALLIGNED : UInt32 := 3

def FB_ALLIGNED : UInt32 := 3

structure Build where
  allocOsdBuf : Bool
  dmaCopyOsdLayer : Bool
  supportSyncDisp : Bool

inductive PixelFormat where
  | rgba8888
  | yCbCr420Sp
  | yCrCb420Sp
  | yv12
  | other (format : Int32)
  deriving DecidableEq

structure PrivateHandle where
  flags : UInt32
  format : PixelFormat
  width : Int32
  height : Int32
  phyaddr : UInt32
  base : UInt32
  deriving DecidableEq

def PrivateHandle.usesPhy (h : PrivateHandle) : Bool := h.flags &&& PRIV_FLAGS_USES_PHY ≠ 0

def PrivateHandle.notOverlay (h : PrivateHandle) : Bool :=
  h.flags &&& PRIV_FLAGS_NOT_OVERLAY ≠ 0

structure HwcRect where
  left : Int32
  top : Int32
  right : Int32
  bottom : Int32
  deriving DecidableEq

inductive CompositionType where
  | framebuffer
  | overlay
  | other (type : Int32)
  deriving DecidableEq

structure Layer where
  compositionType : CompositionType
  flags : UInt32
  handle : Option PrivateHandle
  transform : UInt32
  blending : UInt32
  sourceCrop : HwcRect
  displayFrame : HwcRect
  deriving DecidableEq

structure SprdRect where
  x : UInt32
  y : UInt32
  w : UInt32
  h : UInt32
  deriving DecidableEq

/-- `src_img` without the addresses, `src_rect` and `fb_rect` of the context. -/
structure Geometry where
  imgW : UInt32
  imgH : UInt32
  format : PixelFormat
  srcRect : SprdRect
  fbRect : SprdRect
  deriving DecidableEq

structure Context where
  fbLayerCount : ℕ
  fbWidth : Int32
  fbHeight : Int32
  preFbLayerCount : ℕ
  osdOverlayFlag : Bool
  videoOverlayFlag : Bool
  geometry : Geometry
  overlayPhyAddr : UInt32
  overlayBufSize : UInt32
  overlayIndex : UInt32
  overlayPhyAddr2 : UInt32
  overlayBufSize2 : UInt32
  overlayIndex2 : UInt32
  osdSyncDisplay : Bool

/-- `SPRD_LAYERS_IMG`, `SPRD_LAYERS_OSD`, or 0. -/
inductive SprdLayers where
  | none
  | img
  | osd
  deriving DecidableEq

def MIN (x y : Int32) : Int32 := if x < y then x else y

def MAX (x y : Int32) : Int32 := if x > y then x else y

/-- `MIN` of two values of which one at least is unsigned. -/
def minU (x y : UInt32) : UInt32 := (MIN x.toInt32 y.toInt32).toUInt32

/-- `(x + mask) & (~mask)`. -/
def align (x mask : UInt32) : UInt32 := (x + mask) &&& ~~~mask

/-- `(transform & HAL_TRANSFORM_ROT_90) == HAL_TRANSFORM_ROT_90`. -/
def rot90 (transform : UInt32) : Bool :=
  transform &&& HAL_TRANSFORM_ROT_90 = HAL_TRANSFORM_ROT_90

section Verify

variable (b : Build) (fbWidth fbHeight : Int32) (l : Layer) (h : PrivateHandle)

/-- The part of a frame or crop inside `w` by `h`, as `verify_osd_layer` computes it. -/
def clip (r : HwcRect) (w h : Int32) : SprdRect :=
  let x := minU (MAX r.left 0).toUInt32 w.toUInt32
  let y := minU (MAX r.top 0).toUInt32 h.toUInt32
  { x := x
    y := y
    w := minU (r.right.toUInt32 - x) (w.toUInt32 - x)
    h := minU (r.bottom.toUInt32 - y) (h.toUInt32 - y) }

/-- The buffer of an OSD layer is as large as the screen and can be shown from where it is
or from a copy. -/
def osdBufferFits : Bool :=
  if !b.allocOsdBuf && (l.transform ≠ 0 || !h.usesPhy) then false
  else if l.transform ≠ 0 && !rot90 l.transform then false
  else if l.transform = 0 then
    h.width = fbWidth && h.height = fbHeight && (b.dmaCopyOsdLayer || h.usesPhy)
  else h.width = fbHeight && h.height = fbWidth && h.usesPhy

def verifyOsdLayer : SprdLayers :=
  let srcRect := clip l.sourceCrop h.width h.height
  let fbRect := clip l.displayFrame fbWidth fbHeight
  let srcWidth := if rot90 l.transform then srcRect.h else srcRect.w
  let srcHeight := if rot90 l.transform then srcRect.w else srcRect.h
  if !osdBufferFits b fbWidth fbHeight l h then .none
  else if srcWidth ≠ fbRect.w || srcHeight ≠ fbRect.h then .none
  else if srcRect.x ≠ 0 || srcRect.y ≠ 0 then .none
  else if fbRect.w ≠ fbWidth.toUInt32 || fbRect.h ≠ fbHeight.toUInt32 then .none
  else .osd

/-- What a layer must be before its geometry is computed. -/
def videoCandidate : Bool :=
  h.usesPhy && !h.notOverlay &&
    (h.format = .yCbCr420Sp || h.format = .yCrCb420Sp || h.format = .yv12) &&
    l.blending = HWC_BLENDING_NONE && l.transform ≠ HAL_TRANSFORM_FLIP_V &&
    l.transform ≠ HAL_TRANSFORM_ROT_90 ||| HAL_TRANSFORM_FLIP_H &&
    l.transform ≠ HAL_TRANSFORM_ROT_90 ||| HAL_TRANSFORM_FLIP_V

/-- `src_rect`: the crop, aligned and cut to the image. -/
def videoSrcRect : SprdRect :=
  let imgW := h.width.toUInt32
  let imgH := h.height.toUInt32
  let x := minU (align (MAX l.sourceCrop.left 0).toUInt32 SRCRECT_ALLIGNED) imgW
  let y := minU (align (MAX l.sourceCrop.top 0).toUInt32 SRCRECT_ALLIGNED) imgH
  let w := minU (l.sourceCrop.right.toUInt32 - x) (imgW - x)
  let h := minU (l.sourceCrop.bottom.toUInt32 - y) (imgH - y)
  { x := x
    y := y
    w := minU (align w SRCRECT_ALLIGNED) (imgW - x)
    h := minU (align h SRCRECT_ALLIGNED) (imgH - y) }

/-- `fb_rect`: the frame, aligned and cut to the screen. -/
def videoFbRect : SprdRect :=
  let left := (MAX l.displayFrame.left 0).toUInt32
  let top := (MAX l.displayFrame.top 0).toUInt32
  let x := minU (if rot90 l.transform then left else align left FB_ALLIGNED)
    fbWidth.toUInt32
  let y := minU (if rot90 l.transform then align top FB_ALLIGNED else top)
    fbHeight.toUInt32
  let w := minU (l.displayFrame.right.toUInt32 - x) (fbWidth.toUInt32 - x)
  let h := minU (l.displayFrame.bottom.toUInt32 - y) (fbHeight.toUInt32 - y)
  { x := x
    y := y
    w := minU (align w FB_ALLIGNED) (fbWidth.toUInt32 - align x FB_ALLIGNED)
    h := minU (align h FB_ALLIGNED) (fbHeight.toUInt32 - align y FB_ALLIGNED) }

/-- What `verify_video_layer` stores in the context for a candidate. -/
def videoGeometry : Geometry where
  imgW := h.width.toUInt32
  imgH := h.height.toUInt32
  format := h.format
  srcRect := videoSrcRect l h
  fbRect := videoFbRect fbWidth fbHeight l

def Geometry.scalable (g : Geometry) (transform : UInt32) : Bool :=
  let srcWidth := g.srcRect.w.toInt32
  let srcHeight := g.srcRect.h.toInt32
  let destWidth := (if rot90 transform then g.fbRect.h else g.fbRect.w).toInt32
  let destHeight := (if rot90 transform then g.fbRect.w else g.fbRect.h).toInt32
  !(g.srcRect.w < 4 || g.srcRect.h < 4 || g.fbRect.w < 4 || g.fbRect.h < 4 ||
      g.fbRect.w > 960 || g.fbRect.h > 960) &&
    !(4 * srcWidth < destWidth || srcWidth > 4 * destWidth ||
      4 * srcHeight < destHeight || srcHeight > 4 * destHeight)

/-- `verify_video_layer`: the geometry that it leaves in the context, and its result. -/
def verifyVideoLayer (g : Geometry) : Geometry × SprdLayers :=
  if videoCandidate l h then
    let g' := videoGeometry fbWidth fbHeight l h
    (g', if g'.scalable l.transform then .img else .none)
  else (g, .none)

def isOverlaySupportted (g : Geometry) : Geometry × SprdLayers :=
  if h.format = .rgba8888 then (g, verifyOsdLayer b fbWidth fbHeight l h)
  else verifyVideoLayer fbWidth fbHeight l h g

end Verify

/-- One turn of the loop of `hwc_prepare`, with `n` layers in the list: the overlay that
the layer is marked for. -/
def prepareLayer (b : Build) (n : ℕ) (ctx : Context) (l : Layer) : Context × SprdLayers :=
  let fb := { ctx with fbLayerCount := ctx.fbLayerCount + 1 }
  match l.handle with
  | none => (fb, .none)
  | some h =>
      if l.flags &&& HWC_SKIP_LAYER ≠ 0 then (fb, .none)
      else
        let (g, support) := isOverlaySupportted b ctx.fbWidth ctx.fbHeight l h ctx.geometry
        if support = .img ∧ ctx.videoOverlayFlag = false then
          ({ ctx with geometry := g, videoOverlayFlag := true }, .img)
        else if support = .osd ∧ ctx.osdOverlayFlag = false ∧ n < 3 then
          ({ ctx with geometry := g, osdOverlayFlag := true }, .osd)
        else ({ fb with geometry := g }, .none)

def Layer.mark (l : Layer) (support : SprdLayers) : Layer :=
  { l with compositionType := if support = .none then .framebuffer else .overlay }

/-- The loop from layer `i` on; `overlayOsd` is the layer that `overlay_osd` points at. -/
def prepareLoop (b : Build) (n : ℕ) : ℕ → Context → Option ℕ → List Layer →
    Context × Option ℕ × List Layer
  | _, ctx, overlayOsd, [] => (ctx, overlayOsd, [])
  | i, ctx, overlayOsd, l :: rest =>
      let (ctx', support) := prepareLayer b n ctx l
      let (ctx'', overlayOsd', rest') :=
        prepareLoop b n (i + 1) ctx' (if support = .osd then some i else overlayOsd) rest
      (ctx'', overlayOsd', l.mark support :: rest')

def hwcPrepare (b : Build) (ctx : Context) (layers : List Layer) : Context × List Layer :=
  let start :=
    { ctx with fbLayerCount := 0, osdOverlayFlag := false, videoOverlayFlag := false }
  let (ctx', overlayOsd, layers') := prepareLoop b layers.length 0 start none layers
  let (ctx'', layers'') :=
    if ctx'.osdOverlayFlag ∧ ctx'.videoOverlayFlag = false then
      ({ ctx' with osdOverlayFlag := false, fbLayerCount := ctx'.fbLayerCount + 1 },
        match overlayOsd with
        | some i => layers'.modify i (·.mark .none)
        | none => layers')
    else (ctx', layers')
  ({ ctx'' with preFbLayerCount := ctx''.fbLayerCount }, layers'')

end Hwc

end Tarako
