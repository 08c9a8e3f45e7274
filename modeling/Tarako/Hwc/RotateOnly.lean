import Tarako.Hwc.ScaleRotate
import Tarako.Lib.Planes

/-!
# Rotation without scaling

`transform_layer` leaves a conversion to the rotator alone when no size changes. The
scaler would read the chroma bytes in the order of the source and write them in the one of
the destination, the rotator keeps them as they are. The devices work and are known only
as far as that: the scaler resamples a window, and is the identity where the sizes are
the same; the rotator puts pixels and pairs into another order.
-/

namespace Tarako

namespace ScaleRotate

open Hwc

/-- What the requests have told the scaler. -/
structure ScaleCfg where
  inputSize : ImgSize
  inputRect : SprdRect
  inputFormat : HwScaleDataFormat
  inputEnd : DataEnd
  inputAddr : ImgAddr
  outputSize : ImgSize
  outputFormat : HwScaleDataFormat
  outputEnd : DataEnd
  outputAddr : ImgAddr

/-- A scaler; `other` is for the formats that are not semi-planar 4:2:0. -/
structure Scaler where
  resample : (w h w' h' : ℕ) → Picture w h → Picture w' h'
  resample_same : ∀ w h p, resample w h w h p = p
  other : ScaleCfg → AddressSpace → AddressSpace

/-- A rotator; `pixels` and `pairs` say where a cell of the output comes from. -/
structure Rotator where
  pixels : RotAngle → (w h : ℕ) → Equiv.Perm (Fin (w * h))
  pairs : RotAngle → (w h : ℕ) → Equiv.Perm (Fin (chromaPairs w h))
  other : RotCfg → AddressSpace → AddressSpace

/-- Between a picture and its bytes: endian 1 keeps the order of a pair, another exchanges
the two. -/
def inOrder {w h : ℕ} (endian : UInt8) (p : Picture w h) : Picture w h :=
  if endian = 1 then p else p.swap

def Scaler.scale (d : Scaler) (c : ScaleCfg) (mem : AddressSpace) : AddressSpace :=
  if c.inputFormat = .yuv420 ∧ c.outputFormat = .yuv420 then
    let src := Picture.readWindow mem c.inputAddr.y c.inputAddr.u c.inputSize.w.toNat
      c.inputRect.x.toNat c.inputRect.y.toNat c.inputRect.w.toNat c.inputRect.h.toNat
    let dst := d.resample _ _ c.outputSize.w.toNat c.outputSize.h.toNat
      (inOrder c.inputEnd.uv src)
    Picture.write mem c.outputAddr.y c.outputAddr.u (inOrder c.outputEnd.uv dst)
  else d.other c mem

def Rotator.rotate (d : Rotator) (c : RotCfg) (mem : AddressSpace) : AddressSpace :=
  if c.format = .yuv420 then
    let src := Picture.read mem c.srcAddr.y c.srcAddr.u c.imgSize.w.toNat c.imgSize.h.toNat
    Picture.write mem c.dstAddr.y c.dstAddr.u
      (src.permute (d.pixels c.angle _ _) (d.pairs c.angle _ _))
  else d.other c mem

/-- The memory, and what the devices were told. -/
structure Hardware where
  mem : AddressSpace
  scaleCfg : ScaleCfg
  rotCfg : RotCfg

section Devices

variable (sc : Scaler) (ro : Rotator)

def request (s : Hardware) : Request → Hardware
  | .inputSize size => { s with scaleCfg := { s.scaleCfg with inputSize := size } }
  | .inputRect rect => { s with scaleCfg := { s.scaleCfg with inputRect := rect } }
  | .inputFormat fmt => { s with scaleCfg := { s.scaleCfg with inputFormat := fmt } }
  | .inputEndian dataEnd => { s with scaleCfg := { s.scaleCfg with inputEnd := dataEnd } }
  | .inputAddr addr => { s with scaleCfg := { s.scaleCfg with inputAddr := addr } }
  | .outputSize size => { s with scaleCfg := { s.scaleCfg with outputSize := size } }
  | .outputFormat fmt => { s with scaleCfg := { s.scaleCfg with outputFormat := fmt } }
  | .outputEndian dataEnd => { s with scaleCfg := { s.scaleCfg with outputEnd := dataEnd } }
  | .outputAddr addr => { s with scaleCfg := { s.scaleCfg with outputAddr := addr } }
  | .scaleMode => s
  | .scaleStart => { s with mem := sc.scale s.scaleCfg s.mem }
  | .scaleIsDone => s
  | .rotCfg cfg => { s with rotCfg := cfg }
  | .rotStart => { s with mem := ro.rotate s.rotCfg s.mem }
  | .rotIsDone => s

def works : (c : Call) → Hardware → c.Result × Hardware
  | .openDev _, s => (some 3, s)
  | .ioctl _ req, s => (0, request sc ro s req)
  | .close _, s => (0, s)
  | .semInit _, s => ((), s)
  | .semWait, s => ((), s)
  | .semPost, s => ((), s)

/-- The call of `do_scaling_and_rotaion` in `transform_layer`. -/
def generalLayer (isScalingInit : Bool) (l : LayerArgs) : Hw ℤ :=
  match inputFormatOf l.srcFormat, outputFormatOf l.dstFormat with
  | some (inputFmt, inputEndian), some outputFmt =>
      doScalingAndRotaion isScalingInit (l.scaleArgs outputFmt inputFmt inputEndian)
  | _, _ => pure (-1)

def LayerArgs.source (l : LayerArgs) (mem : AddressSpace) :
    Picture l.srcWidth.toNat l.srcHeight.toNat :=
  Picture.read mem l.srcPhy (l.srcPhy + l.srcWidth * l.srcHeight) _ _

def LayerArgs.destination (l : LayerArgs) (mem : AddressSpace) :
    Picture l.dstWidth.toNat l.dstHeight.toNat :=
  Picture.read mem l.dstPhy (l.dstPhy + l.dstHeight * l.dstWidth) _ _

/-- A semi-planar layer whose conversion is left to the rotator. -/
structure RotatesOnly (l : LayerArgs) : Prop where
  source : l.srcFormat = .yCbCr420Sp ∨ l.srcFormat = .yCrCb420Sp
  destination : l.dstFormat = .yCbCr420Sp
  branch : l.rotatesOnly = true
  /-- The trim rectangle lies in the source. -/
  insideX : l.trimRect.x.toNat + l.trimRect.w.toNat ≤ l.srcWidth.toNat
  insideY : l.trimRect.y.toNat + l.trimRect.h.toNat ≤ l.srcHeight.toNat
  /-- The source lies in memory. -/
  fits : Picture.size l.srcWidth.toNat l.srcHeight.toNat ≤ 2 ^ 32

/-! ### The devices -/

variable {sc ro}

theorem inOrder_one {w h : ℕ} (p : Picture w h) : inOrder 1 p = p := if_pos rfl

theorem Scaler.scale_full (d : Scaler) {c : ScaleCfg} (mem : AddressSpace)
    (hin : c.inputFormat = .yuv420) (hout : c.outputFormat = .yuv420)
    (hrect : c.inputRect = ⟨0, 0, c.inputSize.w, c.inputSize.h⟩)
    (hsize : c.outputSize = c.inputSize) : d.scale c mem =
      Picture.write mem c.outputAddr.y c.outputAddr.u
        (inOrder c.outputEnd.uv (inOrder c.inputEnd.uv
          (Picture.read mem c.inputAddr.y c.inputAddr.u c.inputSize.w.toNat
            c.inputSize.h.toNat))) := by
  obtain ⟨inputSize, inputRect, inputFormat, inputEnd, inputAddr, outputSize, outputFormat,
    outputEnd, outputAddr⟩ := c
  dsimp only at hin hout hrect hsize
  subst hrect hsize
  rw [Scaler.scale, if_pos ⟨hin, hout⟩]
  dsimp only
  rw [d.resample_same]
  exact congrArg _ (congrArg _ (congrArg _ (Picture.readWindow_full _ _)))

/-- What the requests of `camera_scaling` tell the scaler. -/
def ScaleArgs.cfg (a : ScaleArgs) : ScaleCfg where
  inputSize := ⟨a.inputWidth, a.inputHeight⟩
  inputRect := a.trimRect
  inputFormat := a.inputFmt
  inputEnd := ⟨1, a.inputUvEndian.toUInt8⟩
  inputAddr := ⟨a.inputYaddr, a.intputUvaddr, a.intputUvaddr⟩
  outputSize := ⟨a.outputWidth, a.outputHeight⟩
  outputFormat := a.outputFmt
  outputEnd := ⟨1, 1⟩
  outputAddr := a.dstAddr

theorem run_ioctls_works (fd : ℤ) (reqs : List Request) (s : Hardware) :
    (ioctls fd reqs).run (works sc ro) s = (0, reqs.foldl (request sc ro) s) :=
  Dialog.run_untilError (fun _ _ => rfl) reqs s

theorem run_cameraScaling_works (isScalingInit : Bool) (a : ScaleArgs) (s : Hardware) :
    (cameraScaling isScalingInit a).run (works sc ro) s =
      (0, { s with scaleCfg := a.cfg, mem := sc.scale a.cfg s.mem }) := by
  have hinit : ((initSem isScalingInit).run (works sc ro) s).2 = s := by
    cases isScalingInit with
    | false => rfl
    | true => rfl
  rw [cameraScaling, Dialog.run_bind, hinit]
  change (ioctls 3 (scaleRequests a) >>= exitScaling 3).run (works sc ro) s = _
  rw [Dialog.run_bind, run_ioctls_works]
  rfl

theorem run_cameraRotation_works (c : RotArgs) (s : Hardware) :
    (cameraRotation c).run (works sc ro) s =
      (0, { s with rotCfg := c.cfg, mem := ro.rotate c.cfg s.mem }) := rfl

/-- A conversion writes the temporary frame and the output from it. -/
theorem run_doScalingAndRotaion_works (isScalingInit : Bool) {a : ScaleArgs}
    (h : a.rotation ≠ .rotation0) (s : Hardware) :
    ((doScalingAndRotaion isScalingInit a).run (works sc ro) s).2.mem =
      ro.rotate a.rotArgs.cfg (sc.scale a.cfg s.mem) := by
  rw [doScalingAndRotaion, Dialog.run_bind, run_cameraScaling_works, if_neg (not_not.mpr rfl),
    if_neg h, Dialog.run_bind, run_cameraRotation_works]
  rfl

/-! ### The two branches -/

theorem eq_zero_of_add_le {x w : UInt32} (h : x.toNat + w.toNat ≤ w.toNat) : x = 0 := by
  rw [← UInt32.toNat_inj, UInt32.toNat_zero]
  omega

theorem rotation_of_degree {transform : UInt32} (h : dcamRotDegree transform ≠ 0) :
    Hwc.rotationOf transform ≠ .rotation0 ∧
      rotationDegreeHw2user (Hwc.rotationOf transform) = dcamRotDegree transform := by
  have hzero : transform ≠ 0 := by
    rintro rfl
    exact h (by decide)
  unfold dcamRotDegree at h ⊢
  unfold Hwc.rotationOf
  rw [if_neg hzero]
  split_ifs at h ⊢
  · exact ⟨nofun, rfl⟩
  · exact ⟨nofun, rfl⟩
  · exact ⟨nofun, rfl⟩
  · exact ⟨nofun, rfl⟩
  · exact absurd rfl h

namespace RotatesOnly

variable {l : LayerArgs}

theorem degree (h : RotatesOnly l) : dcamRotDegree l.transform ≠ 0 := by
  have hbranch := h.branch
  simp only [LayerArgs.rotatesOnly, Bool.and_eq_true, decide_eq_true_eq] at hbranch
  exact hbranch.1.1.1.1.2

theorem trimRect (h : RotatesOnly l) : l.trimRect = ⟨0, 0, l.srcWidth, l.srcHeight⟩ := by
  have hbranch := h.branch
  simp only [LayerArgs.rotatesOnly, Bool.and_eq_true, decide_eq_true_eq] at hbranch
  obtain ⟨⟨⟨⟨_, hw⟩, hh⟩, -⟩, -⟩ := hbranch
  have hx : l.trimRect.x = 0 := eq_zero_of_add_le (hw ▸ h.insideX)
  have hy : l.trimRect.y = 0 := eq_zero_of_add_le (hh ▸ h.insideY)
  have hrect : l.trimRect = ⟨l.trimRect.x, l.trimRect.y, l.trimRect.w, l.trimRect.h⟩ := rfl
  rw [hrect, hx, hy, ← hw, ← hh]

theorem outReal (h : RotatesOnly l) : l.outReal = ⟨l.srcWidth, l.srcHeight⟩ := by
  have hbranch := h.branch
  simp only [LayerArgs.rotatesOnly, Bool.and_eq_true, decide_eq_true_eq] at hbranch
  obtain ⟨⟨_, hw⟩, hh⟩ := hbranch
  rw [hw, hh]

/-- The sizes of the destination are those of the source, exchanged or not. -/
theorem dst (h : RotatesOnly l) : (l.dstWidth = l.srcWidth ∧ l.dstHeight = l.srcHeight) ∨
    (l.dstWidth = l.srcHeight ∧ l.dstHeight = l.srcWidth) := by
  have hout := h.outReal
  unfold LayerArgs.outReal at hout
  split_ifs at hout
  · obtain ⟨hh, hw⟩ := ImgSize.mk.inj hout
    exact Or.inr ⟨hw, hh⟩
  · exact Or.inl ⟨(ImgSize.mk.inj hout).1, (ImgSize.mk.inj hout).2⟩

/-- The destination image is decided by its cells in the order of the source. -/
theorem destination_eq_iff (h : RotatesOnly l) (mem mem' : AddressSpace) :
    l.destination mem = l.destination mem' ↔
      Picture.read mem l.dstPhy (l.dstPhy + l.srcWidth * l.srcHeight) l.srcWidth.toNat
          l.srcHeight.toNat =
        Picture.read mem' l.dstPhy (l.dstPhy + l.srcWidth * l.srcHeight) l.srcWidth.toNat
          l.srcHeight.toNat := by
  unfold LayerArgs.destination
  obtain ⟨hw, hh⟩ | ⟨hw, hh⟩ := h.dst
  · rw [hw, hh, UInt32.mul_comm]
  · rw [hw, hh]
    exact Picture.read_eq_read_comm

variable (sc : Scaler) (ro : Rotator)

def angle (l : LayerArgs) : RotAngle := rotationDegreeUser2kernel (dcamRotDegree l.transform)

def turned (l : LayerArgs)
    (p : Picture l.srcWidth.toNat l.srcHeight.toNat) :
    Picture l.srcWidth.toNat l.srcHeight.toNat :=
  p.permute (ro.pixels (angle l) _ _) (ro.pairs (angle l) _ _)

theorem rotate_cfg {c : RotArgs} (hformat : c.rotFormat = .yuv420)
    (hdegree : c.degree = dcamRotDegree l.transform) (hw : c.width = l.srcWidth)
    (hh : c.height = l.srcHeight) (mem : AddressSpace) : ro.rotate c.cfg mem =
      Picture.write mem c.outAddr (c.outAddr + l.srcWidth * l.srcHeight)
        (turned ro l (Picture.read mem c.inAddr (c.inAddr + l.srcWidth * l.srcHeight) _ _)) := by
  obtain ⟨rotFormat, degree, width, height, inAddr, outAddr⟩ := c
  dsimp only at hformat hdegree hw hh
  subst hformat hdegree hw hh
  exact if_pos rfl

theorem mem_transformLayer (h : RotatesOnly l) (isScalingInit : Bool) (s : Hardware) :
    ((transformLayer isScalingInit l).run (works sc ro) s).2.mem =
      Picture.write s.mem l.dstPhy (l.dstPhy + l.srcWidth * l.srcHeight)
        (turned ro l (l.source s.mem)) := by
  have hlayer : transformLayer isScalingInit l = cameraRotation l.rotArgs := by
    unfold transformLayer
    rw [h.destination]
    obtain hsrc | hsrc := h.source
    · rw [hsrc]
      exact if_pos h.branch
    · rw [hsrc]
      exact if_pos h.branch
  rw [hlayer, run_cameraRotation_works]
  exact rotate_cfg ro (c := l.rotArgs) rfl rfl rfl rfl s.mem

def inputEndian (l : LayerArgs) : UInt8 := if l.srcFormat = .yCbCr420Sp then 1 else 0

/-- The other branch turns the source in the order of the destination. -/
theorem mem_generalLayer (h : RotatesOnly l) (isScalingInit : Bool) (s : Hardware) :
    ∃ mem, ((generalLayer isScalingInit l).run (works sc ro) s).2.mem =
      Picture.write mem l.dstPhy (l.dstPhy + l.srcWidth * l.srcHeight)
        (turned ro l (inOrder (inputEndian l) (l.source s.mem))) := by
  obtain ⟨endian, hgeneral, hendian⟩ : ∃ endian : UInt32,
      generalLayer isScalingInit l =
        doScalingAndRotaion isScalingInit (l.scaleArgs .yuv420 .yuv420 endian) ∧
      endian.toUInt8 = inputEndian l := by
    unfold generalLayer inputEndian
    rw [h.destination]
    obtain hsrc | hsrc := h.source
    · rw [hsrc]
      exact ⟨1, rfl, rfl⟩
    · rw [hsrc]
      exact ⟨0, rfl, rfl⟩
  obtain ⟨hrot, hdegree⟩ := rotation_of_degree h.degree
  have hout := h.outReal
  have huv : ∀ y, y + l.srcWidth * l.srcHeight =
      y + UInt32.ofNat (l.srcWidth.toNat * l.srcHeight.toNat) := by
    intro y
    rw [UInt32.ofNat_mul, UInt32.ofNat_toNat, UInt32.ofNat_toNat]
  have hscale : sc.scale (l.scaleArgs .yuv420 .yuv420 endian).cfg s.mem =
      Picture.write s.mem l.tmpPhyAddr (l.tmpPhyAddr + l.srcWidth * l.srcHeight)
        (inOrder (inputEndian l) (l.source s.mem)) := by
    rw [sc.scale_full s.mem rfl rfl h.trimRect hout]
    have haddr : (l.scaleArgs .yuv420 .yuv420 endian).dstAddr =
        ⟨l.tmpPhyAddr, l.tmpPhyAddr + l.srcWidth * l.srcHeight,
          l.tmpPhyAddr + l.srcWidth * l.srcHeight⟩ := by
      refine (if_neg hrot).trans ?_
      change (⟨l.tmpPhyAddr, l.tmpPhyAddr + l.outReal.w * l.outReal.h,
        l.tmpPhyAddr + l.outReal.w * l.outReal.h⟩ : ImgAddr) = _
      rw [hout]
    change Picture.write s.mem (l.scaleArgs .yuv420 .yuv420 endian).dstAddr.y
      (l.scaleArgs .yuv420 .yuv420 endian).dstAddr.u
        (inOrder 1 (inOrder endian.toUInt8 (l.source s.mem))) = _
    rw [haddr, inOrder_one, hendian]
  refine ⟨sc.scale (l.scaleArgs .yuv420 .yuv420 endian).cfg s.mem, ?_⟩
  rw [hgeneral, run_doScalingAndRotaion_works isScalingInit hrot,
    rotate_cfg ro (c := (l.scaleArgs .yuv420 .yuv420 endian).rotArgs) rfl hdegree
      (congrArg ImgSize.w hout) (congrArg ImgSize.h hout)]
  refine congrArg _ (congrArg _ ?_)
  rw [hscale]
  exact Picture.read_write h.fits (huv _) _

theorem turned_injective : Function.Injective (turned ro l) := Picture.permute_injective

theorem inOrder_eq_iff {p : Picture l.srcWidth.toNat l.srcHeight.toNat} :
    p = inOrder (inputEndian l) p ↔
      l.srcFormat = .yCbCr420Sp ∨ ∀ i, p.chroma i 0 = p.chroma i 1 := by
  unfold inputEndian
  split_ifs with hsrc
  · rw [inOrder_one]
    exact iff_of_true rfl (Or.inl hsrc)
  · rw [or_iff_right hsrc, ← Picture.swap_eq_iff]
    exact eq_comm

end RotatesOnly

end Devices

/-- The two branches give the same destination image exactly if the source has its chroma
bytes in the order of the destination or equal bytes in every pair. -/
theorem branches_agree_iff (sc : Scaler) (ro : Rotator) (isScalingInit : Bool) (s : Hardware)
    {l : LayerArgs} (h : RotatesOnly l) :
    l.destination ((transformLayer isScalingInit l).run (works sc ro) s).2.mem =
        l.destination ((generalLayer isScalingInit l).run (works sc ro) s).2.mem ↔
      l.srcFormat = .yCbCr420Sp ∨
        ∀ i, (l.source s.mem).chroma i 0 = (l.source s.mem).chroma i 1 := by
  obtain ⟨mem, hgeneral⟩ := h.mem_generalLayer sc ro isScalingInit s
  have hread : ∀ mem p, Picture.read (Picture.write mem l.dstPhy
      (l.dstPhy + l.srcWidth * l.srcHeight) p) l.dstPhy (l.dstPhy + l.srcWidth * l.srcHeight)
      l.srcWidth.toNat l.srcHeight.toNat = p := by
    intro mem p
    refine Picture.read_write h.fits ?_ p
    rw [UInt32.ofNat_mul, UInt32.ofNat_toNat, UInt32.ofNat_toNat]
  rw [h.destination_eq_iff, h.mem_transformLayer, hgeneral, hread, hread,
    (RotatesOnly.turned_injective ro).eq_iff]
  exact RotatesOnly.inOrder_eq_iff

def copyScaler : Scaler where
  resample := fun w h w' h' p =>
    if hsize : w = w' ∧ h = h' then hsize.1 ▸ hsize.2 ▸ p else ⟨fun _ _ => 0, fun _ _ => 0⟩
  resample_same := fun _ _ _ => dif_pos ⟨rfl, rfl⟩
  other := fun _ mem => mem

def halfTurn : Rotator where
  pixels := fun _ _ _ => ⟨Fin.rev, Fin.rev, Fin.rev_rev, Fin.rev_rev⟩
  pairs := fun _ _ _ => ⟨Fin.rev, Fin.rev, Fin.rev_rev, Fin.rev_rev⟩
  other := fun _ mem => mem

def smallLayer (srcFormat : PixelFormat) : LayerArgs where
  srcPhy := 0x100
  srcFormat := srcFormat
  transform := HAL_TRANSFORM_ROT_180
  srcWidth := 2
  srcHeight := 2
  dstPhy := 0x200
  dstFormat := .yCbCr420Sp
  dstWidth := 2
  dstHeight := 2
  trimRect := ⟨0, 0, 2, 2⟩
  tmpPhyAddr := 0x300

def numbered : Hardware where
  mem := fun a => a.toUInt8
  scaleCfg := quarterTurn.cfg
  rotCfg := quarterTurn.rotArgs.cfg

theorem rotatesOnly_smallLayer {srcFormat : PixelFormat}
    (h : srcFormat = .yCbCr420Sp ∨ srcFormat = .yCrCb420Sp) :
    RotatesOnly (smallLayer srcFormat) where
  source := h
  destination := rfl
  branch := by
    obtain rfl | rfl := h
    · decide
    · decide
  insideX := Nat.le_refl 2
  insideY := Nat.le_refl 2
  fits := by
    change Picture.size 2 2 ≤ 2 ^ 32
    decide

theorem branches_agree_smallLayer :
    (smallLayer .yCbCr420Sp).destination
        ((transformLayer false (smallLayer .yCbCr420Sp)).run
          (works copyScaler halfTurn) numbered).2.mem =
      (smallLayer .yCbCr420Sp).destination
        ((generalLayer false (smallLayer .yCbCr420Sp)).run
          (works copyScaler halfTurn) numbered).2.mem :=
  (branches_agree_iff copyScaler halfTurn false numbered
    (rotatesOnly_smallLayer (Or.inl rfl))).mpr (Or.inl rfl)

/-- A picture with the other order of the chroma bytes keeps it in the one branch only. -/
theorem branches_differ_smallLayer :
    (smallLayer .yCrCb420Sp).rotatesOnly = true ∧
      (smallLayer .yCrCb420Sp).destination
          ((transformLayer false (smallLayer .yCrCb420Sp)).run
            (works copyScaler halfTurn) numbered).2.mem ≠
        (smallLayer .yCrCb420Sp).destination
          ((generalLayer false (smallLayer .yCrCb420Sp)).run
            (works copyScaler halfTurn) numbered).2.mem := by
  refine ⟨by decide, fun heq => ?_⟩
  have hpair := congrFun (congrFun (congrArg Picture.chroma heq) ⟨0, by decide⟩) 0
  exact absurd hpair (by decide +kernel)

end ScaleRotate

end Tarako
