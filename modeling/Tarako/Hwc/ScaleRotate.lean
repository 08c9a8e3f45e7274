import Mathlib.Data.Int.Notation
import Mathlib.Tactic.Common
import Tarako.Hwc.Overlay
import Tarako.Lib.Dialog

/-!
# The device calls of a conversion

`camera_scaling`, `camera_rotation` and `do_scaling_and_rotaion` of
`sc8825/scale_rotate.c` with the calls they make to the scaler, the rotator and
`sem_scale_rot`, and with what they hand over. A scaler that cannot be opened leads to
`exit` with a result of 0, and `exit` takes descriptor 0 for none.
-/

namespace Tarako

namespace ScaleRotate

open Hwc

inductive DeviceFile where
  | sprdScale
  | sprdRotation
  deriving DecidableEq

inductive HwScaleDataFormat where
  | yuv422
  | yuv420
  | yuv400
  | yuv420ThreeFrame
  | rgb565
  | rgb888
  | max
  deriving DecidableEq

inductive HwRotationDataFormat where
  | yuv422
  | yuv420
  | yuv400
  | rgb888
  | rgb666
  | rgb565
  | rgb555
  | max
  deriving DecidableEq

/-- The rotation format with the same number, which `do_scaling_and_rotaion` hands on. -/
def HwScaleDataFormat.toRotation : HwScaleDataFormat → HwRotationDataFormat
  | .yuv422 => .yuv422
  | .yuv420 => .yuv420
  | .yuv400 => .yuv400
  | .yuv420ThreeFrame => .rgb888
  | .rgb565 => .rgb666
  | .rgb888 => .rgb565
  | .max => .rgb555

inductive RotDataFormat where
  | yuv422
  | yuv420
  | yuv400
  | rgb888
  | rgb666
  | rgb565
  | rgb555
  | max
  deriving DecidableEq

inductive RotAngle where
  | rot90
  | rot180
  | rot270
  | mirror
  | max
  deriving DecidableEq

def rotationDataFormatHw2kernel : HwRotationDataFormat → RotDataFormat
  | .yuv422 => .yuv422
  | .yuv420 => .yuv420
  | .yuv400 => .yuv400
  | .rgb888 => .rgb888
  | .rgb666 => .rgb666
  | .rgb565 => .rgb565
  | .rgb555 => .rgb555
  | .max => .max

def rotationDegreeUser2kernel (degree : ℤ) : RotAngle :=
  if degree = -1 then .mirror
  else if degree = 90 then .rot90
  else if degree = 180 then .rot180
  else if degree = 270 then .rot270
  else .max

def rotationDegreeHw2user : HwRotation → ℤ
  | .rotation90 => 90
  | .rotation180 => 180
  | .rotation270 => 270
  | .mirror => -1
  | .rotation0 => 0

structure ImgSize where
  w : UInt32
  h : UInt32
  deriving DecidableEq

structure ImgAddr where
  y : UInt32
  u : UInt32
  v : UInt32
  deriving DecidableEq

structure DataEnd where
  y : UInt8
  uv : UInt8
  deriving DecidableEq

structure RotCfg where
  format : RotDataFormat
  angle : RotAngle
  imgSize : ImgSize
  srcAddr : ImgAddr
  dstAddr : ImgAddr
  deriving DecidableEq

/-- The requests of the two devices; the scale mode is always `SCALE_MODE_NORMAL`. -/
inductive Request where
  | inputSize (size : ImgSize)
  | inputRect (rect : SprdRect)
  | inputFormat (fmt : HwScaleDataFormat)
  | inputEndian (dataEnd : DataEnd)
  | inputAddr (addr : ImgAddr)
  | outputSize (size : ImgSize)
  | outputFormat (fmt : HwScaleDataFormat)
  | outputEndian (dataEnd : DataEnd)
  | outputAddr (addr : ImgAddr)
  | scaleMode
  | scaleStart
  | scaleIsDone
  | rotCfg (cfg : RotCfg)
  | rotStart
  | rotIsDone
  deriving DecidableEq

inductive Call where
  | openDev (dev : DeviceFile)
  | ioctl (fd : ℤ) (req : Request)
  | close (fd : ℤ)
  | semInit (value : ℕ)
  | semWait
  | semPost
  deriving DecidableEq

/-- `open` gives a descriptor or fails. -/
abbrev Call.Result : Call → Type
  | .openDev _ => Option ℕ
  | .ioctl _ _ => ℤ
  | .close _ => ℤ
  | .semInit _ => Unit
  | .semWait => Unit
  | .semPost => Unit

abbrev Hw (α : Type) : Type := Dialog Call.Result α

abbrev Trace : Type := List (Dialog.Reply Call.Result)

/-- What `open` returns. -/
def fdOf : Option ℕ → ℤ
  | none => -1
  | some n => n

abbrev call (c : Call) : Hw c.Result := Dialog.ask c

def ioctl (fd : ℤ) (req : Request) : Hw ℤ := call (.ioctl fd req)

def closeFd (fd : ℤ) : Hw ℤ := call (.close fd)

/-- `HWCOMPOSER_EXIT_IF_ERR` behind each of the requests. -/
def ioctls (fd : ℤ) (reqs : List Request) : Hw ℤ := Dialog.untilError (ioctl fd) reqs

/-- The arguments of `camera_scaling`. -/
structure ScaleArgs where
  outputFmt : HwScaleDataFormat
  outputWidth : UInt32
  outputHeight : UInt32
  outputYaddr : UInt32
  outputUvaddr : UInt32
  inputFmt : HwScaleDataFormat
  inputUvEndian : UInt32
  inputWidth : UInt32
  inputHeight : UInt32
  inputYaddr : UInt32
  intputUvaddr : UInt32
  trimRect : SprdRect
  rotation : HwRotation
  tmpAddr : UInt32

/-- Where the scaler writes: the output, or the temporary frame when it is rotated then. -/
def ScaleArgs.dstAddr (a : ScaleArgs) : ImgAddr :=
  if a.rotation = .rotation0 then ⟨a.outputYaddr, a.outputUvaddr, a.outputUvaddr⟩
  else
    let u := a.tmpAddr + a.outputWidth * a.outputHeight
    ⟨a.tmpAddr, u, u⟩

def scaleRequests (a : ScaleArgs) : List Request :=
  [.inputSize ⟨a.inputWidth, a.inputHeight⟩, .inputRect a.trimRect, .inputFormat a.inputFmt,
    .inputEndian ⟨1, a.inputUvEndian.toUInt8⟩,
    .inputAddr ⟨a.inputYaddr, a.intputUvaddr, a.intputUvaddr⟩,
    .outputSize ⟨a.outputWidth, a.outputHeight⟩, .outputFormat a.outputFmt,
    .outputEndian ⟨1, 1⟩, .outputAddr a.dstAddr, .scaleMode, .scaleStart, .scaleIsDone]

/-- The first call sets up `sem_scale_rot`; `is_scaling_init` is 1 behind it. -/
def initSem (isScalingInit : Bool) : Hw Unit :=
  if isScalingInit then pure () else call (.semInit 1)

/-- `close`, for a descriptor above 0. -/
def closeScaler (fd : ℤ) : Hw Unit := do
  if fd > 0 then
    let _ ← closeFd fd
    pure ()
  else pure ()

def exitScaling (fd ret : ℤ) : Hw ℤ := do
  closeScaler fd
  call .semPost
  pure (if ret ≠ 0 then -1 else 0)

def cameraScaling (isScalingInit : Bool) (a : ScaleArgs) : Hw ℤ := do
  initSem isScalingInit
  call .semWait
  let fd := fdOf (← call (.openDev .sprdScale))
  if fd < 0 then
    -- `goto exit` with the `ret` that was set to 0 at the start
    exitScaling fd 0
  else
    let ret ← ioctls fd (scaleRequests a)
    exitScaling fd ret

/-- The arguments of `camera_rotation`. -/
structure RotArgs where
  rotFormat : HwRotationDataFormat
  degree : ℤ
  width : UInt32
  height : UInt32
  inAddr : UInt32
  outAddr : UInt32

def RotArgs.cfg (c : RotArgs) : RotCfg where
  format := rotationDataFormatHw2kernel c.rotFormat
  angle := rotationDegreeUser2kernel c.degree
  imgSize := ⟨c.width, c.height⟩
  srcAddr := ⟨c.inAddr, c.inAddr + c.width * c.height, c.inAddr + c.width * c.height⟩
  dstAddr := ⟨c.outAddr, c.outAddr + c.width * c.height, c.outAddr + c.width * c.height⟩

def rotRequests (c : RotArgs) : List Request := [.rotCfg c.cfg, .rotStart, .rotIsDone]

def exitRotation (fd ret : ℤ) : Hw ℤ :=
  if ret ≠ 0 then do
    let _ ← closeFd fd
    pure (-1)
  else pure 0

def cameraRotation (c : RotArgs) : Hw ℤ := do
  let fd := fdOf (← call (.openDev .sprdRotation))
  if fd = -1 then pure (-1)
  else
    let ret ← ioctls fd (rotRequests c)
    if ret ≠ 0 then exitRotation fd ret
    else
      let ret ← closeFd fd
      if ret ≠ 0 then pure (-1) else exitRotation fd ret

def ScaleArgs.rotArgs (a : ScaleArgs) : RotArgs where
  rotFormat := a.outputFmt.toRotation
  degree := rotationDegreeHw2user a.rotation
  width := a.outputWidth
  height := a.outputHeight
  inAddr := a.tmpAddr
  outAddr := a.outputYaddr

def doScalingAndRotaion (isScalingInit : Bool) (a : ScaleArgs) : Hw ℤ := do
  let ret ← cameraScaling isScalingInit a
  if ret ≠ 0 then pure (-1)
  else if a.rotation = .rotation0 then pure 0
  else
    let ret ← cameraRotation a.rotArgs
    pure (if ret ≠ 0 then -1 else 0)

/-- The arguments of `transform_layer`. -/
structure LayerArgs where
  srcPhy : UInt32
  srcFormat : PixelFormat
  transform : UInt32
  srcWidth : UInt32
  srcHeight : UInt32
  dstPhy : UInt32
  dstFormat : PixelFormat
  dstWidth : UInt32
  dstHeight : UInt32
  trimRect : SprdRect
  tmpPhyAddr : UInt32

/-- `input_format` and `input_endian`. The case of YV12 runs into the default one. -/
def inputFormatOf : PixelFormat → Option (HwScaleDataFormat × UInt32)
  | .yCbCr420Sp => some (.yuv420, 1)
  | .yCrCb420Sp => some (.yuv420, 0)
  | _ => none

/-- `dst_scale_rot_format`. -/
def outputFormatOf : PixelFormat → Option HwScaleDataFormat
  | .yCbCr420Sp => some .yuv420
  | _ => none

def LayerArgs.outReal (l : LayerArgs) : ImgSize :=
  if (Hwc.rotationOf l.transform).exchanges then ⟨l.dstHeight, l.dstWidth⟩
  else ⟨l.dstWidth, l.dstHeight⟩

def LayerArgs.rotatesOnly (l : LayerArgs) : Bool :=
  l.srcFormat ≠ .yv12 && dcamRotDegree l.transform ≠ 0 &&
    l.srcWidth = l.trimRect.w && l.srcHeight = l.trimRect.h &&
    l.srcWidth = l.outReal.w && l.srcHeight = l.outReal.h

def LayerArgs.rotArgs (l : LayerArgs) : RotArgs where
  rotFormat := .yuv420
  degree := dcamRotDegree l.transform
  width := l.srcWidth
  height := l.srcHeight
  inAddr := l.srcPhy
  outAddr := l.dstPhy

def LayerArgs.scaleArgs (l : LayerArgs) (outputFmt inputFmt : HwScaleDataFormat)
    (inputEndian : UInt32) : ScaleArgs where
  outputFmt := outputFmt
  outputWidth := l.outReal.w
  outputHeight := l.outReal.h
  outputYaddr := l.dstPhy
  outputUvaddr := l.dstPhy + l.dstHeight * l.dstWidth
  inputFmt := inputFmt
  inputUvEndian := inputEndian
  inputWidth := l.srcWidth
  inputHeight := l.srcHeight
  inputYaddr := l.srcPhy
  intputUvaddr := l.srcPhy + l.srcWidth * l.srcHeight
  trimRect := l.trimRect
  rotation := Hwc.rotationOf l.transform
  tmpAddr := l.tmpPhyAddr

def transformLayer (isScalingInit : Bool) (l : LayerArgs) : Hw ℤ :=
  match inputFormatOf l.srcFormat, outputFormatOf l.dstFormat with
  | some (inputFmt, inputEndian), some outputFmt =>
      if l.rotatesOnly then cameraRotation l.rotArgs
      else doScalingAndRotaion isScalingInit (l.scaleArgs outputFmt inputFmt inputEndian)
  | _, _ => pure (-1)

/-! ### The results alone -/

section Results

def Request.scaleIoctl : Request → Option ScaleIoctl
  | .inputSize _ => some .inputSize
  | .inputRect _ => some .inputRect
  | .inputFormat _ => some .inputFormat
  | .inputEndian _ => some .inputEndian
  | .inputAddr _ => some .inputAddr
  | .outputSize _ => some .outputSize
  | .outputFormat _ => some .outputFormat
  | .outputEndian _ => some .outputEndian
  | .outputAddr _ => some .outputAddr
  | .scaleMode => some .scaleMode
  | .scaleStart => some .start
  | .scaleIsDone => some .isDone
  | _ => none

/-- Devices that give the same result to each request of a kind, behind an `open` that
gives a descriptor `n` or fails. -/
def resultsOf (d : Devices) (n : ℕ) : (c : Call) → Unit → c.Result × Unit
  | .openDev .sprdScale, _ => (if d.scaleOpens then some n else none, ())
  | .openDev .sprdRotation, _ => (if d.rotOpens then some n else none, ())
  | .ioctl _ (.rotCfg _), _ => (d.rotIoctl .cfg, ())
  | .ioctl _ .rotStart, _ => (d.rotIoctl .start, ())
  | .ioctl _ .rotIsDone, _ => (d.rotIoctl .isDone, ())
  | .ioctl _ req, _ => (req.scaleIoctl.elim 0 d.scaleIoctl, ())
  | .close _, _ => (d.rotClose, ())
  | .semInit _, _ => ((), ())
  | .semWait, _ => ((), ())
  | .semPost, _ => ((), ())

variable (d : Devices) (n : ℕ)

theorem run_scaleRequests (fd : ℤ) (a : ScaleArgs) :
    ((ioctls fd (scaleRequests a)).run (resultsOf d n) ()).1 = 0 ↔
      scaleIoctls.all (d.scaleIoctl · = 0) = true := by
  rw [ioctls, Dialog.run_untilError_eq_zero_iff]
  simp only [scaleRequests, scaleIoctls, List.forall_mem_cons, List.all_cons, List.all_nil,
    Bool.and_eq_true, decide_eq_true_eq, List.not_mem_nil, false_implies, implies_true]
  exact Iff.rfl

theorem run_rotRequests (fd : ℤ) (c : RotArgs) :
    ((ioctls fd (rotRequests c)).run (resultsOf d n) ()).1 = 0 ↔
      ¬ (d.rotIoctl .cfg ≠ 0 ∨ d.rotIoctl .start ≠ 0 ∨ d.rotIoctl .isDone ≠ 0) := by
  rw [ioctls, Dialog.run_untilError_eq_zero_iff]
  simp only [rotRequests, List.forall_mem_cons, List.not_mem_nil, false_implies, implies_true,
    and_true, not_or, not_not]
  exact Iff.rfl

theorem run_exitScaling (fd ret : ℤ) :
    ((exitScaling fd ret).run (resultsOf d n) ()).1 = if ret ≠ 0 then -1 else 0 := by
  rw [exitScaling, Dialog.run_bind]
  rfl

theorem run_cameraScaling (isScalingInit : Bool) (a : ScaleArgs) :
    ((cameraScaling isScalingInit a).run (resultsOf d n) ()).1 = Hwc.cameraScaling d := by
  rw [cameraScaling, Hwc.cameraScaling, Dialog.run_bind, Dialog.run_bind, Dialog.run_bind]
  cases hopens : d.scaleOpens with
  | false =>
      have hfd : ∀ s, (Dialog.run (resultsOf d n) (call (.openDev .sprdScale)) s).1 = none :=
        fun _ => if_neg (by simp [hopens])
      rw [hfd, if_pos (by decide), run_exitScaling]
      rfl
  | true =>
      have hfd : ∀ s, (Dialog.run (resultsOf d n) (call (.openDev .sprdScale)) s).1 = some n :=
        fun _ => if_pos hopens
      have hreqs := run_scaleRequests d n (fdOf (some n)) a
      have hnneg : ¬ fdOf (some n) < 0 := Int.not_lt.mpr (Int.natCast_nonneg n)
      rw [hfd, if_neg hnneg, Dialog.run_bind, run_exitScaling]
      simp only [← hreqs, ite_not, reduceCtorEq, if_false]

theorem run_cameraRotation (c : RotArgs) :
    ((cameraRotation c).run (resultsOf d n) ()).1 = Hwc.cameraRotation d := by
  rw [cameraRotation, Hwc.cameraRotation, Dialog.run_bind]
  cases hopens : d.rotOpens with
  | false =>
      have hfd : (Dialog.run (resultsOf d n) (call (.openDev .sprdRotation)) ()).1 = none :=
        if_neg (by simp [hopens])
      rw [hfd]
      rfl
  | true =>
      have hfd : (Dialog.run (resultsOf d n) (call (.openDev .sprdRotation)) ()).1 = some n :=
        if_pos hopens
      have hreqs := run_rotRequests d n (fdOf (some n)) c
      have hne : fdOf (some n) ≠ -1 := by
        change (n : ℤ) ≠ -1
        omega
      have hrun : ∀ fd s, (closeFd fd).run (resultsOf d n) s = (d.rotClose, ()) :=
        fun _ _ => rfl
      rw [hfd, if_neg hne, Dialog.run_bind, Dialog.run_ite, if_neg (by decide : ¬ true = false)]
      by_cases hret : ((ioctls (fdOf (some n)) (rotRequests c)).run (resultsOf d n) ()).1 = 0
      · rw [if_neg (not_not.mpr hret), if_neg (hreqs.mp hret), Dialog.run_bind, Dialog.run_ite,
          hrun]
        by_cases hclose : d.rotClose = 0
        · rw [if_neg (not_not.mpr hclose), exitRotation, if_neg (not_not.mpr hclose),
            if_neg (not_not.mpr hclose)]
          rfl
        · rw [if_pos hclose, if_pos hclose]
          rfl
      · rw [if_pos hret, exitRotation, if_pos hret,
          if_pos (by_contra fun h => hret (hreqs.mpr h))]
        rfl

theorem run_doScalingAndRotaion (isScalingInit : Bool) (a : ScaleArgs) :
    ((doScalingAndRotaion isScalingInit a).run (resultsOf d n) ()).1 =
      Hwc.doScalingAndRotaion d a.rotation := by
  rw [doScalingAndRotaion, Hwc.doScalingAndRotaion, Dialog.run_bind, Dialog.run_ite,
    run_cameraScaling]
  by_cases hscale : Hwc.cameraScaling d = 0
  · rw [if_neg (not_not.mpr hscale), if_neg (not_not.mpr hscale), Dialog.run_ite]
    by_cases hrot : a.rotation = .rotation0
    · rw [if_pos hrot, if_pos hrot]
      rfl
    · rw [if_neg hrot, if_neg hrot, Dialog.run_bind, run_cameraRotation]
      rfl
  · rw [if_pos hscale, if_pos hscale]
    rfl

/-- The geometry that the arguments describe; the place in the framebuffer is not looked at. -/
def LayerArgs.geometry (l : LayerArgs) : Geometry where
  imgW := l.srcWidth
  imgH := l.srcHeight
  format := l.srcFormat
  srcRect := l.trimRect
  fbRect := ⟨0, 0, l.dstWidth, l.dstHeight⟩

theorem rotatesOnly_geometry (l : LayerArgs) (h : l.srcFormat ≠ .yv12) :
    Hwc.rotatesOnly l.geometry l.transform = l.rotatesOnly := by
  rw [LayerArgs.rotatesOnly, decide_eq_true h, Bool.true_and]
  unfold Hwc.rotatesOnly LayerArgs.outReal
  split_ifs
  · rfl
  · rfl

theorem run_transformLayer (isScalingInit : Bool) (l : LayerArgs)
    (hdst : l.dstFormat = .yCbCr420Sp) :
    ((transformLayer isScalingInit l).run (resultsOf d n) ()).1 =
      Hwc.transformLayer d l.geometry l.transform := by
  unfold transformLayer Hwc.transformLayer
  rw [hdst]
  have hsemi : ∀ endian, l.srcFormat ≠ .yv12 →
      ((if l.rotatesOnly then cameraRotation l.rotArgs
        else doScalingAndRotaion isScalingInit (l.scaleArgs .yuv420 .yuv420 endian)).run
          (resultsOf d n) ()).1 =
        if Hwc.rotatesOnly l.geometry l.transform then Hwc.cameraRotation d
        else Hwc.doScalingAndRotaion d (Hwc.rotationOf l.transform) := by
    intro endian hformat
    rw [rotatesOnly_geometry l hformat, Dialog.run_ite]
    split_ifs
    · exact run_cameraRotation d n l.rotArgs
    · exact run_doScalingAndRotaion d n isScalingInit _
  cases hformat : l.srcFormat with
  | yCbCr420Sp =>
      exact (hsemi 1 (by simp [hformat])).trans (if_pos (Or.inl hformat)).symm
  | yCrCb420Sp =>
      exact (hsemi 0 (by simp [hformat])).trans (if_pos (Or.inr hformat)).symm
  | rgba8888 => exact (if_neg (by simp [LayerArgs.geometry, hformat])).symm
  | yv12 => exact (if_neg (by simp [LayerArgs.geometry, hformat])).symm
  | other f => exact (if_neg (by simp [LayerArgs.geometry, hformat])).symm

end Results

/-! ### What is reported -/

def opened : Dialog.Reply Call.Result → Option ℕ
  | ⟨.openDev _, fd⟩ => fd
  | _ => none

/-- An `open` or a request that has succeeded, or another call. -/
def Succeeded : Dialog.Reply Call.Result → Prop
  | ⟨.openDev _, fd⟩ => fd ≠ none
  | ⟨.ioctl _ _, ret⟩ => ret = 0
  | _ => True

def deviceOf : Dialog.Reply Call.Result → Option DeviceFile
  | ⟨.openDev dev, _⟩ => some dev
  | _ => none

def requestOf : Dialog.Reply Call.Result → Option Request
  | ⟨.ioctl _ req, _⟩ => some req
  | _ => none

/-- The devices are opened and the requests made, all of them with success. -/
structure Complete (devs : List DeviceFile) (reqs : List Request) (t : Trace) : Prop where
  devices : t.filterMap deviceOf = devs
  requests : t.filterMap requestOf = reqs
  succeeded : ∀ e ∈ t, Succeeded e

/-- How often the descriptor is closed before `open` gives it out again. -/
def closesOf (fd : ℕ) : Trace → ℕ
  | [] => 0
  | e :: rest =>
      if opened e = some fd then 0
      else if e.1 = .close fd then closesOf fd rest + 1
      else closesOf fd rest

def ClosedOnce : Trace → Prop
  | [] => True
  | e :: rest => (∀ fd ∈ opened e, closesOf fd rest = 1) ∧ ClosedOnce rest

/-- What a call does to the value of `sem_scale_rot`, which has none before `sem_init`. A
`sem_wait` does not return while the value is 0. -/
def semStep (sem : Option ℕ) (e : Dialog.Reply Call.Result) : Option (Option ℕ) :=
  match e.1, sem with
  | .semInit value, _ => some (some value)
  | .semWait, some (value + 1) => some (some value)
  | .semWait, _ => none
  | .semPost, some value => some (some (value + 1))
  | .semPost, none => none
  | _, _ => some sem

/-- The semaphore has its value again at the end; the one that is set up here has 1. -/
def SemKept (sem : Option ℕ) (t : Trace) : Prop :=
  t.foldlM semStep sem = if sem = some 0 then none else some (some (sem.getD 1))

structure ScalingReported (sem : Option ℕ) (a : ScaleArgs) (t : Trace) (ret : ℤ) : Prop where
  zero : ret = 0 → Complete [.sprdScale] (scaleRequests a) t
  closed : ClosedOnce t
  sem : SemKept sem t

structure RotationReported (c : RotArgs) (t : Trace) (ret : ℤ) : Prop where
  zero : ret = 0 → Complete [.sprdRotation] (rotRequests c) t
  closed : ClosedOnce t

/-- The calls of `do_scaling_and_rotaion` when nothing fails. -/
def ScaleArgs.Done (a : ScaleArgs) (t : Trace) : Prop :=
  if a.rotation = .rotation0 then Complete [.sprdScale] (scaleRequests a) t
  else Complete [.sprdScale, .sprdRotation] (scaleRequests a ++ rotRequests a.rotArgs) t

structure ConversionReported (sem : Option ℕ) (a : ScaleArgs) (t : Trace) (ret : ℤ) : Prop where
  zero : ret = 0 → a.Done t
  /-- The rotator is opened behind a complete scaling only. -/
  order : ∀ pre r post, t = pre ++ ⟨.openDev .sprdRotation, r⟩ :: post →
    Complete [.sprdScale] (scaleRequests a) pre
  closed : ClosedOnce t
  sem : SemKept sem t

/-- The scaler is opened under a descriptor other than 0. -/
def ScalerOpened (t : Trace) : Prop := ∃ n > 0, ⟨.openDev .sprdScale, some n⟩ ∈ t

/-! ### What the functions can do -/

def initCalls (isScalingInit : Bool) : Trace := if isScalingInit then [] else [⟨.semInit 1, ()⟩]

/-- The call of `closeScaler` for an open descriptor, with its result. -/
def closeCalls (n : ℕ) (r : ℤ) : Trace := if n = 0 then [] else [⟨.close n, r⟩]

inductive ScalingOutcome (isScalingInit : Bool) (a : ScaleArgs) : Trace → ℤ → Prop where
  | notOpened : ScalingOutcome isScalingInit a
      (initCalls isScalingInit ++ ⟨.semWait, ()⟩ :: ⟨.openDev .sprdScale, none⟩ ::
        [⟨.semPost, ()⟩]) 0
  | opened (n : ℕ) (u : Trace) (ret r : ℤ) (hu : (ioctls n (scaleRequests a)).Yields u ret) :
      ScalingOutcome isScalingInit a
        (initCalls isScalingInit ++ ⟨.semWait, ()⟩ :: ⟨.openDev .sprdScale, some n⟩ ::
          (u ++ (closeCalls n r ++ [⟨.semPost, ()⟩])))
        (if ret ≠ 0 then -1 else 0)

inductive RotationOutcome (c : RotArgs) : Trace → ℤ → Prop where
  | notOpened : RotationOutcome c [⟨.openDev .sprdRotation, none⟩] (-1)
  | opened (n : ℕ) (u : Trace) (ret r : ℤ) (hu : (ioctls n (rotRequests c)).Yields u ret) :
      RotationOutcome c (⟨.openDev .sprdRotation, some n⟩ :: (u ++ [⟨.close n, r⟩]))
        (if ret ≠ 0 ∨ r ≠ 0 then -1 else 0)

theorem yields_initSem {isScalingInit : Bool} {t : Trace}
    (h : (initSem isScalingInit).Yields t ()) : t = initCalls isScalingInit := by
  cases isScalingInit with
  | false => exact Dialog.yields_ask.mp h
  | true => exact (Dialog.yields_pure.mp h).1

theorem yields_exitScaling_none {ret b : ℤ} {t : Trace}
    (h : (exitScaling (-1) ret).Yields t b) :
    t = [⟨.semPost, ()⟩] ∧ b = if ret ≠ 0 then -1 else 0 := by
  obtain ⟨t₁, _, t₂, rfl, hclose, hrest⟩ := Dialog.yields_bind.mp h
  obtain ⟨rfl, -⟩ := Dialog.yields_pure.mp hclose
  obtain ⟨_, _, rfl, rfl, rfl⟩ := Dialog.yields_ask_bind.mp hrest
  exact ⟨rfl, rfl⟩

theorem yields_exitScaling {n : ℕ} {ret b : ℤ} {t : Trace}
    (h : (exitScaling n ret).Yields t b) :
    ∃ r, t = closeCalls n r ++ [⟨.semPost, ()⟩] ∧ b = if ret ≠ 0 then -1 else 0 := by
  obtain ⟨t₁, _, t₂, rfl, hclose, hrest⟩ := Dialog.yields_bind.mp h
  obtain ⟨_, _, rfl, rfl, rfl⟩ := Dialog.yields_ask_bind.mp hrest
  have hcalls : ∃ r, t₁ = closeCalls n r := by
    unfold closeScaler at hclose
    split_ifs at hclose with hn
    · obtain ⟨r, _, rfl, rfl, -⟩ := Dialog.yields_ask_bind.mp hclose
      exact ⟨r, (if_neg (by omega)).symm⟩
    · obtain ⟨rfl, -⟩ := Dialog.yields_pure.mp hclose
      exact ⟨0, (if_pos (by omega)).symm⟩
  obtain ⟨r, rfl⟩ := hcalls
  exact ⟨r, rfl, rfl⟩

theorem yields_cameraScaling {isScalingInit : Bool} {a : ScaleArgs} {t : Trace} {b : ℤ}
    (h : (cameraScaling isScalingInit a).Yields t b) : ScalingOutcome isScalingInit a t b := by
  obtain ⟨t₁, _, t₂, rfl, hinit, hrest⟩ := Dialog.yields_bind.mp h
  obtain rfl := yields_initSem hinit
  obtain ⟨_, t₃, rfl, hwait⟩ := Dialog.yields_ask_bind.mp hrest
  obtain ⟨fd, t₄, rfl, hopen⟩ := Dialog.yields_ask_bind.mp hwait
  cases fd with
  | none =>
      obtain ⟨rfl, rfl⟩ := yields_exitScaling_none hopen
      exact .notOpened
  | some n =>
      rw [fdOf, if_neg (by omega)] at hopen
      obtain ⟨u, ret, t₅, rfl, hu, hexit⟩ := Dialog.yields_bind.mp hopen
      obtain ⟨r, rfl, rfl⟩ := yields_exitScaling hexit
      exact .opened n u ret r hu

theorem yields_cameraRotation {c : RotArgs} {t : Trace} {b : ℤ}
    (h : (cameraRotation c).Yields t b) : RotationOutcome c t b := by
  obtain ⟨fd, t₁, rfl, hopen⟩ := Dialog.yields_ask_bind.mp h
  cases fd with
  | none =>
      obtain ⟨rfl, rfl⟩ := Dialog.yields_pure.mp hopen
      exact .notOpened
  | some n =>
      rw [fdOf, if_neg (by omega)] at hopen
      obtain ⟨u, ret, t₂, rfl, hu, hrest⟩ := Dialog.yields_bind.mp hopen
      by_cases hret : ret = 0
      · rw [if_neg (not_not.mpr hret)] at hrest
        obtain ⟨r, t₃, rfl, hclose⟩ := Dialog.yields_ask_bind.mp hrest
        have hb := RotationOutcome.opened n u ret r hu
        by_cases hr : r = 0
        · rw [if_neg (not_not.mpr hr), exitRotation, if_neg (not_not.mpr hr)] at hclose
          obtain ⟨rfl, rfl⟩ := Dialog.yields_pure.mp hclose
          rwa [if_neg (by simp [hret, hr])] at hb
        · rw [if_pos hr] at hclose
          obtain ⟨rfl, rfl⟩ := Dialog.yields_pure.mp hclose
          rwa [if_pos (Or.inr hr)] at hb
      · rw [if_pos hret, exitRotation, if_pos hret] at hrest
        obtain ⟨r, _, rfl, rfl, rfl⟩ := Dialog.yields_ask_bind.mp hrest
        have hb := RotationOutcome.opened n u ret r hu
        rwa [if_pos (Or.inl hret)] at hb

/-! ### The requests -/

def OnFd (fd : ℤ) (e : Dialog.Reply Call.Result) : Prop := ∃ req ret, e = ⟨.ioctl fd req, ret⟩

theorem onFd_of_yields {fd : ℤ} {reqs : List Request} {u : Trace} {ret : ℤ}
    (h : (ioctls fd reqs).Yields u ret) : ∀ e ∈ u, OnFd fd e := by
  refine Dialog.forall_mem_of_yields_untilError (fun req t r ht e he => ?_) h
  obtain rfl := Dialog.yields_ask.mp ht
  exact ⟨req, r, List.mem_singleton.mp he⟩

theorem eq_map_of_yields {fd : ℤ} {reqs : List Request} {u : Trace}
    (h : (ioctls fd reqs).Yields u 0) :
    u = reqs.map fun req => ⟨.ioctl fd req, (0 : ℤ)⟩ :=
  (Dialog.yields_untilError_zero fun _ _ => Dialog.yields_ask).mp h

/-! ### Descriptors -/

variable {t u v : Trace}

theorem opened_onFd {fd : ℤ} {e : Dialog.Reply Call.Result} (h : OnFd fd e) : opened e = none := by
  obtain ⟨req, ret, rfl⟩ := h
  rfl

theorem closesOf_append (n : ℕ) (h : ∀ e ∈ u, opened e = none ∧ e.1 ≠ .close n) :
    closesOf n (u ++ v) = closesOf n v := by
  induction u with
  | nil => rfl
  | cons e rest ih =>
      obtain ⟨⟨hopened, hclose⟩, hrest⟩ := List.forall_mem_cons.mp h
      rw [List.cons_append, closesOf, hopened, if_neg (by simp), if_neg hclose, ih hrest]

theorem closedOnce_append (h : ∀ e ∈ u, opened e = none) :
    ClosedOnce (u ++ v) ↔ ClosedOnce v := by
  induction u with
  | nil => exact Iff.rfl
  | cons e rest ih =>
      obtain ⟨hopened, hrest⟩ := List.forall_mem_cons.mp h
      rw [List.cons_append, ClosedOnce, ih hrest, hopened]
      exact and_iff_right fun _ hfd => nomatch hfd

theorem closesOf_onFd {fd : ℤ} (n : ℕ) (h : ∀ e ∈ u, OnFd fd e) :
    closesOf n (u ++ v) = closesOf n v := by
  refine closesOf_append n fun e he => ?_
  obtain ⟨req, ret, rfl⟩ := h e he
  exact ⟨rfl, nofun⟩

theorem closedOnce_onFd {fd : ℤ} (h : ∀ e ∈ u, OnFd fd e) :
    ClosedOnce (u ++ v) ↔ ClosedOnce v :=
  closedOnce_append fun e he => opened_onFd (h e he)

theorem closedOnce_initCalls (isScalingInit : Bool) :
    ClosedOnce (initCalls isScalingInit ++ v) ↔ ClosedOnce v := by
  refine closedOnce_append fun e he => ?_
  cases isScalingInit with
  | false =>
      obtain rfl := List.mem_singleton.mp he
      rfl
  | true => cases he

theorem closesOf_rotation {c : RotArgs} {b : ℤ} (h : RotationOutcome c t b) (n : ℕ) :
    closesOf n t = 0 := by
  cases h with
  | notOpened => rfl
  | opened m u ret r hu =>
      rw [closesOf]
      by_cases hm : m = n
      · exact if_pos (congrArg some hm)
      · have hopened : ¬ opened ⟨.openDev .sprdRotation, some m⟩ = some n := by
          exact fun hsome => hm (Option.some.inj hsome)
        have hclose : ¬ ((⟨.close m, r⟩ : Dialog.Reply Call.Result).1 = .close n) := by
          intro heq
          exact hm (Int.ofNat.inj (Call.close.inj heq))
        rw [if_neg hopened, if_neg nofun, closesOf_onFd n (onFd_of_yields hu), closesOf,
          if_neg nofun, if_neg hclose, closesOf]

theorem closedOnce_rotation {c : RotArgs} {b : ℤ} (h : RotationOutcome c t b) :
    ClosedOnce t := by
  cases h with
  | notOpened => exact ⟨fun _ hfd => (nomatch hfd), trivial⟩
  | opened n u ret r hu =>
      refine ⟨fun fd hfd => ?_, ?_⟩
      · obtain rfl := Option.some.inj hfd
        rw [closesOf_onFd _ (onFd_of_yields hu)]
        exact (if_neg nofun).trans (if_pos rfl)
      · rw [closedOnce_onFd (onFd_of_yields hu)]
        exact ⟨fun _ hfd => (nomatch hfd), trivial⟩

theorem closesOf_scaling_tail {n : ℕ} {r : ℤ} (hu : ∀ e ∈ u, OnFd n e)
    (hv : closesOf n v = 0) :
    closesOf n (u ++ (closeCalls n r ++ ⟨.semPost, ()⟩ :: v)) = if n = 0 then 0 else 1 := by
  have hpost : closesOf n (⟨.semPost, ()⟩ :: v) = 0 := by
    rw [closesOf, if_neg nofun, if_neg nofun, hv]
  rw [closesOf_onFd n hu, closeCalls]
  split_ifs with hn
  · exact hpost
  · rw [List.singleton_append, closesOf, if_neg nofun, if_pos rfl, hpost]

theorem closedOnce_scaling_tail {n : ℕ} {r : ℤ} (hu : ∀ e ∈ u, OnFd n e) (hv : ClosedOnce v) :
    ClosedOnce (u ++ (closeCalls n r ++ ⟨.semPost, ()⟩ :: v)) := by
  rw [closedOnce_onFd hu, closedOnce_append]
  · exact ⟨fun _ hfd => (nomatch hfd), hv⟩
  · intro e he
    unfold closeCalls at he
    split_ifs at he
    · cases he
    · obtain rfl := List.mem_singleton.mp he
      rfl

/-! ### The semaphore -/

/-- Calls that are none of `sem_scale_rot`. -/
def Quiet (t : Trace) : Prop := ∀ e ∈ t, ∀ sem, semStep sem e = some sem

theorem foldlM_semStep_of_quiet (h : Quiet u) (sem : Option ℕ) :
    (u ++ v).foldlM semStep sem = v.foldlM semStep sem := by
  induction u with
  | nil => rfl
  | cons e rest ih =>
      obtain ⟨he, hrest⟩ := List.forall_mem_cons.mp h
      rw [List.cons_append, List.foldlM_cons, he]
      exact ih hrest

theorem quiet_onFd {fd : ℤ} (h : ∀ e ∈ u, OnFd fd e) : Quiet u := by
  intro e he sem
  obtain ⟨req, ret, rfl⟩ := h e he
  cases sem with
  | none => rfl
  | some value => rfl

theorem quiet_closeCalls (n : ℕ) (r : ℤ) : Quiet (closeCalls n r) := by
  unfold closeCalls
  split_ifs
  · exact fun _ he => nomatch he
  · intro e he sem
    obtain rfl := List.mem_singleton.mp he
    cases sem with
    | none => rfl
    | some value => rfl

theorem quiet_openDev (dev : DeviceFile) (fd : Option ℕ) : Quiet [⟨.openDev dev, fd⟩] := by
  intro e he sem
  obtain rfl := List.mem_singleton.mp he
  cases sem with
  | none => rfl
  | some value => rfl

theorem Quiet.append (hu : Quiet u) (hv : Quiet v) : Quiet (u ++ v) :=
  List.forall_mem_append.mpr ⟨hu, hv⟩

theorem semKept_of_quiet (sem : Option ℕ) (hu : Quiet u) (hv : Quiet v) :
    SemKept sem (initCalls sem.isSome ++ ⟨.semWait, ()⟩ :: (u ++ ⟨.semPost, ()⟩ :: v)) := by
  have hpost : ∀ value, (u ++ ⟨.semPost, ()⟩ :: v).foldlM semStep (some value) =
      some (some (value + 1)) := by
    intro value
    rw [foldlM_semStep_of_quiet hu]
    have hend := foldlM_semStep_of_quiet (v := []) hv (some (value + 1))
    rw [List.append_nil] at hend
    exact hend
  rw [SemKept]
  cases sem with
  | none => exact hpost 0
  | some value =>
      cases value with
      | zero => rfl
      | succ value => exact hpost value

theorem quiet_rotation {c : RotArgs} {b : ℤ} (h : RotationOutcome c t b) : Quiet t := by
  cases h with
  | notOpened => exact quiet_openDev _ _
  | opened n u ret r hu =>
      refine (quiet_openDev .sprdRotation (some n)).append ((quiet_onFd (onFd_of_yields hu)).append ?_)
      intro e he sem
      obtain rfl := List.mem_singleton.mp he
      cases sem with
      | none => rfl
      | some value => rfl

theorem semKept_scaling {sem : Option ℕ} {a : ScaleArgs} {b : ℤ}
    (h : ScalingOutcome sem.isSome a t b) (hv : Quiet v) : SemKept sem (t ++ v) := by
  cases h with
  | notOpened =>
      have hkept := semKept_of_quiet sem (quiet_openDev .sprdScale none) hv
      simpa using hkept
  | opened n u ret r hu =>
      have hquiet := (quiet_openDev .sprdScale (some n)).append
        ((quiet_onFd (onFd_of_yields hu)).append (quiet_closeCalls n r))
      have hkept := semKept_of_quiet sem hquiet hv
      simpa using hkept

/-! ### Complete traces -/

theorem Complete.append {devs devs' : List DeviceFile} {reqs reqs' : List Request}
    (hu : Complete devs reqs u) (hv : Complete devs' reqs' v) :
    Complete (devs ++ devs') (reqs ++ reqs') (u ++ v) where
  devices := by rw [List.filterMap_append, hu.devices, hv.devices]
  requests := by rw [List.filterMap_append, hu.requests, hv.requests]
  succeeded := List.forall_mem_append.mpr ⟨hu.succeeded, hv.succeeded⟩

theorem complete_nil (h : ∀ e ∈ t, deviceOf e = none ∧ requestOf e = none ∧ Succeeded e) :
    Complete [] [] t where
  devices := List.filterMap_eq_nil_iff.mpr fun e he => (h e he).1
  requests := List.filterMap_eq_nil_iff.mpr fun e he => (h e he).2.1
  succeeded e he := (h e he).2.2

theorem complete_openDev (dev : DeviceFile) (n : ℕ) :
    Complete [dev] [] [⟨.openDev dev, some n⟩] where
  devices := rfl
  requests := rfl
  succeeded e he := by
    obtain rfl := List.mem_singleton.mp he
    exact nofun

theorem complete_requests (fd : ℤ) (reqs : List Request) :
    Complete [] reqs (reqs.map fun req => ⟨.ioctl fd req, (0 : ℤ)⟩) where
  devices := List.filterMap_eq_nil_iff.mpr fun e he => by
    obtain ⟨req, -, rfl⟩ := List.mem_map.mp he
    rfl
  requests := by
    rw [List.filterMap_map]
    exact List.filterMap_some
  succeeded e he := by
    obtain ⟨req, -, rfl⟩ := List.mem_map.mp he
    rfl

theorem complete_closeCalls (n : ℕ) (r : ℤ) : Complete [] [] (closeCalls n r) := by
  refine complete_nil fun e he => ?_
  unfold closeCalls at he
  split_ifs at he
  · cases he
  · obtain rfl := List.mem_singleton.mp he
    exact ⟨rfl, rfl, trivial⟩

theorem complete_sem (isScalingInit : Bool) :
    Complete [] [] (initCalls isScalingInit ++ [⟨.semWait, ()⟩]) := by
  refine complete_nil fun e he => ?_
  cases isScalingInit with
  | false =>
      obtain rfl | he := List.mem_cons.mp he
      · exact ⟨rfl, rfl, trivial⟩
      · obtain rfl := List.mem_singleton.mp he
        exact ⟨rfl, rfl, trivial⟩
  | true =>
      obtain rfl := List.mem_singleton.mp he
      exact ⟨rfl, rfl, trivial⟩

theorem complete_scaling (isScalingInit : Bool) {a : ScaleArgs} {n : ℕ} {r : ℤ}
    (hu : (ioctls n (scaleRequests a)).Yields u 0) :
    Complete [.sprdScale] (scaleRequests a)
      (initCalls isScalingInit ++ ⟨.semWait, ()⟩ :: ⟨.openDev .sprdScale, some n⟩ ::
        (u ++ (closeCalls n r ++ [⟨.semPost, ()⟩]))) := by
  obtain rfl := eq_map_of_yields hu
  have hpost : Complete [] [] [⟨.semPost, ()⟩] := complete_nil fun e he => by
    obtain rfl := List.mem_singleton.mp he
    exact ⟨rfl, rfl, trivial⟩
  have hbehind := (complete_requests n (scaleRequests a)).append
    ((complete_closeCalls n r).append hpost)
  have hall := (complete_sem isScalingInit).append
    ((complete_openDev .sprdScale n).append hbehind)
  simpa using hall

theorem complete_rotation {c : RotArgs} {b : ℤ} (h : RotationOutcome c t b) (hb : b = 0) :
    Complete [.sprdRotation] (rotRequests c) t := by
  cases h with
  | notOpened => cases hb
  | opened n u ret r hu =>
      obtain ⟨rfl, rfl⟩ : ret = 0 ∧ r = 0 := by
        by_contra hret
        rw [if_pos (by omega)] at hb
        cases hb
      obtain rfl := eq_map_of_yields hu
      have hclose : Complete [] [] [⟨.close n, (0 : ℤ)⟩] := complete_nil fun e he => by
        obtain rfl := List.mem_singleton.mp he
        exact ⟨rfl, rfl, trivial⟩
      have hall := (complete_openDev .sprdRotation n).append
        ((complete_requests n (rotRequests c)).append hclose)
      simpa using hall

/-! ### Failures are reported -/

section Opened

variable {isScalingInit : Bool} {sem : Option ℕ} {a : ScaleArgs} {c : RotArgs} {b : ℤ}

theorem deviceOf_onFd {fd : ℤ} {e : Dialog.Reply Call.Result} (h : OnFd fd e) :
    deviceOf e = none := by
  obtain ⟨req, ret, rfl⟩ := h
  rfl

theorem deviceOf_initCalls :
    ∀ e ∈ initCalls isScalingInit ++ [⟨.semWait, ()⟩], deviceOf e = none :=
  List.filterMap_eq_nil_iff.mp (complete_sem isScalingInit).devices

theorem deviceOf_scaling_tail {n : ℕ} {r : ℤ} (hu : ∀ e ∈ u, OnFd n e) :
    ∀ e ∈ u ++ (closeCalls n r ++ [⟨.semPost, ()⟩]), deviceOf e = none := by
  rw [List.forall_mem_append, List.forall_mem_append]
  refine ⟨fun e he => deviceOf_onFd (hu e he), ?_, by simp [deviceOf]⟩
  exact List.filterMap_eq_nil_iff.mp (complete_closeCalls n r).devices

theorem deviceOf_rotation (h : RotationOutcome c t b) :
    ∃ fd rest, t = ⟨.openDev .sprdRotation, fd⟩ :: rest ∧ ∀ e ∈ rest, deviceOf e = none := by
  cases h with
  | notOpened => exact ⟨none, [], rfl, fun _ he => nomatch he⟩
  | opened n u ret r hu =>
      refine ⟨some n, _, rfl, ?_⟩
      rw [List.forall_mem_append]
      exact ⟨fun e he => deviceOf_onFd (onFd_of_yields hu e he), by simp [deviceOf]⟩

theorem deviceOf_scaling (h : ScalingOutcome isScalingInit a t b) :
    ∀ e ∈ t, deviceOf e ≠ some .sprdRotation := by
  have hne : ∀ {e : Dialog.Reply Call.Result}, deviceOf e = none →
      deviceOf e ≠ some .sprdRotation := by
    intro e he heq
    rw [he] at heq
    cases heq
  cases h with
  | notOpened =>
      rw [List.append_cons, List.forall_mem_append]
      exact ⟨fun e he => hne (deviceOf_initCalls e he), by simp [deviceOf]⟩
  | opened n u ret r hu =>
      rw [List.append_cons, List.forall_mem_append, List.forall_mem_cons]
      refine ⟨fun e he => hne (deviceOf_initCalls e he), nofun, fun e he => hne ?_⟩
      exact deviceOf_scaling_tail (onFd_of_yields hu) e he

theorem eq_of_append_cons {pre post : Trace} {x y : Dialog.Reply Call.Result}
    {dev : DeviceFile} (hu : ∀ e ∈ u, deviceOf e ≠ some dev)
    (hv : ∀ e ∈ v, deviceOf e ≠ some dev) (hy : deviceOf y = some dev)
    (h : u ++ x :: v = pre ++ y :: post) : pre = u := by
  induction u generalizing pre with
  | nil =>
      cases pre with
      | nil => rfl
      | cons z rest =>
          have hmem : y ∈ v := by
            rw [(List.cons.inj h).2]
            exact List.mem_append_right rest List.mem_cons_self
          exact absurd hy (hv y hmem)
  | cons z rest ih =>
      obtain ⟨hz, hrest⟩ := List.forall_mem_cons.mp hu
      cases pre with
      | nil =>
          obtain rfl : z = y := (List.cons.inj h).1
          exact absurd hy hz
      | cons w pre =>
          obtain ⟨rfl, htail⟩ := List.cons.inj h
          rw [ih hrest htail]

theorem scalerOpened_iff {fd : Option ℕ} (hu : ∀ e ∈ u, deviceOf e = none)
    (hv : ∀ e ∈ v, deviceOf e ≠ some .sprdScale) :
    ScalerOpened (u ++ ⟨.openDev .sprdScale, fd⟩ :: v) ↔ ∃ n > 0, fd = some n := by
  refine exists_congr fun n => and_congr_right fun _ => ?_
  rw [List.mem_append, List.mem_cons]
  constructor
  · rintro (hmem | heq | hmem)
    · cases hu _ hmem
    · cases heq
      rfl
    · exact absurd rfl (hv _ hmem)
  · rintro rfl
    exact Or.inr (Or.inl rfl)

theorem scaling_opened (isScalingInit : Bool) {n : ℕ} {r : ℤ} (hu : ∀ e ∈ u, OnFd n e)
    (hv : ∀ e ∈ v, deviceOf e ≠ some .sprdScale) (hclosed : ClosedOnce v)
    (hcloses : closesOf n v = 0) :
    (ScalerOpened (initCalls isScalingInit ++ ⟨.semWait, ()⟩ ::
        ⟨.openDev .sprdScale, some n⟩ :: (u ++ (closeCalls n r ++ ⟨.semPost, ()⟩ :: v))) ↔
      0 < n) ∧
    (ClosedOnce (initCalls isScalingInit ++ ⟨.semWait, ()⟩ ::
        ⟨.openDev .sprdScale, some n⟩ :: (u ++ (closeCalls n r ++ ⟨.semPost, ()⟩ :: v))) ↔
      0 < n) := by
  constructor
  · rw [List.append_cons, scalerOpened_iff deviceOf_initCalls]
    · simp
    · have htail := deviceOf_scaling_tail (r := r) hu
      rw [List.append_cons, ← List.append_assoc, List.forall_mem_append]
      refine ⟨fun e he heq => ?_, hv⟩
      rw [htail e he] at heq
      cases heq
  · have htail := closedOnce_scaling_tail (r := r) hu hclosed
    rw [closedOnce_initCalls, ClosedOnce, ClosedOnce]
    constructor
    · intro h
      have hn := h.2.1 n rfl
      rw [closesOf_scaling_tail hu hcloses] at hn
      by_contra hzero
      rw [if_pos (by omega)] at hn
      cases hn
    · intro h
      refine ⟨fun _ hfd => (nomatch hfd), fun fd hfd => ?_, htail⟩
      obtain rfl := Option.some.inj hfd
      rw [closesOf_scaling_tail hu hcloses, if_neg (by omega)]

/-- The trace of a scaling whose scaler was not opened, with what comes behind it. -/
theorem scaling_notOpened (hv : ∀ e ∈ v, deviceOf e ≠ some .sprdScale) :
    ¬ ScalerOpened (initCalls isScalingInit ++ ⟨.semWait, ()⟩ ::
      ⟨.openDev .sprdScale, none⟩ :: ⟨.semPost, ()⟩ :: v) := by
  rw [List.append_cons, scalerOpened_iff deviceOf_initCalls]
  · rintro ⟨_, -, hn⟩
    cases hn
  · rw [List.forall_mem_cons]
    exact ⟨nofun, hv⟩

theorem scalingReported_iff (h : ScalingOutcome sem.isSome a t b) :
    ScalingReported sem a t b ↔ ScalerOpened t := by
  have hsem : SemKept sem t := by
    have hkept := semKept_scaling (v := []) h fun _ he => nomatch he
    rwa [List.append_nil] at hkept
  cases h with
  | notOpened =>
      refine iff_of_false (fun hrep => ?_) (scaling_notOpened fun _ he => nomatch he)
      exact (hrep.zero rfl).succeeded ⟨.openDev .sprdScale, none⟩ (by simp) rfl
  | opened n u ret r hu =>
      obtain ⟨hopened, hclosed⟩ := scaling_opened sem.isSome (v := []) (r := r)
        (onFd_of_yields hu) (fun _ he => nomatch he) trivial rfl
      rw [hopened]
      refine ⟨fun hrep => hclosed.mp hrep.closed, fun hn => ?_⟩
      refine ⟨fun hret => ?_, hclosed.mpr hn, hsem⟩
      obtain rfl : ret = 0 := by
        by_contra hne
        rw [if_pos hne] at hret
        cases hret
      exact complete_scaling _ hu

theorem rotationReported (h : RotationOutcome c t b) : RotationReported c t b where
  zero hb := complete_rotation h hb
  closed := closedOnce_rotation h

/-- What comes behind the scaling: nothing, or a rotation behind one that ended with 0. -/
theorem yields_doScalingAndRotaion
    (h : (doScalingAndRotaion isScalingInit a).Yields t b) :
    ∃ u ret v, t = u ++ v ∧ ScalingOutcome isScalingInit a u ret ∧
      ((v = [] ∧ (a.rotation = .rotation0 ∨ ret ≠ 0) ∧ b = if ret ≠ 0 then -1 else 0) ∨
        (ret = 0 ∧ a.rotation ≠ .rotation0 ∧
          ∃ r, RotationOutcome a.rotArgs v r ∧ b = if r ≠ 0 then -1 else 0)) := by
  obtain ⟨u, ret, v, rfl, hscale, hrest⟩ := Dialog.yields_bind.mp h
  refine ⟨u, ret, v, rfl, yields_cameraScaling hscale, ?_⟩
  split_ifs at hrest with hret hrot
  · obtain ⟨rfl, rfl⟩ := Dialog.yields_pure.mp hrest
    exact Or.inl ⟨rfl, Or.inr hret, (if_pos hret).symm⟩
  · obtain ⟨rfl, rfl⟩ := Dialog.yields_pure.mp hrest
    exact Or.inl ⟨rfl, Or.inl hrot, (if_neg hret).symm⟩
  · obtain ⟨v₁, r, v₂, rfl, hr, hend⟩ := Dialog.yields_bind.mp hrest
    obtain ⟨rfl, rfl⟩ := Dialog.yields_pure.mp hend
    rw [List.append_nil]
    exact Or.inr ⟨not_not.mp hret, hrot, r, yields_cameraRotation hr, rfl⟩

theorem conversionReported_scaling (h : ScalingOutcome sem.isSome a t b)
    (hend : a.rotation = .rotation0 ∨ b ≠ 0) :
    ConversionReported sem a t (if b ≠ 0 then -1 else 0) ↔ ScalingReported sem a t b := by
  have hret : (if b ≠ 0 then -1 else 0 : ℤ) = 0 ↔ b = 0 := by
    split_ifs with hb
    · exact iff_of_false nofun hb
    · exact iff_of_true rfl (not_not.mp hb)
  constructor
  · intro hrep
    refine ⟨fun hb => ?_, hrep.closed, hrep.sem⟩
    have hdone := hrep.zero (hret.mpr hb)
    rwa [ScaleArgs.Done, if_pos (hend.resolve_right (not_not.mpr hb))] at hdone
  · intro hrep
    refine ⟨fun hb => ?_, fun pre r post heq => ?_, hrep.closed, hrep.sem⟩
    · have hb' := hret.mp hb
      rw [ScaleArgs.Done, if_pos (hend.resolve_right (not_not.mpr hb'))]
      exact hrep.zero hb'
    · have hmem : (⟨.openDev .sprdRotation, r⟩ : Dialog.Reply Call.Result) ∈ t := by
        rw [heq]
        exact List.mem_append_right pre List.mem_cons_self
      exact absurd rfl (deviceOf_scaling h _ hmem)

theorem conversionReported_rotation (h : ScalingOutcome sem.isSome a u b) (hzero : b = 0)
    (hrot : a.rotation ≠ .rotation0) {ret : ℤ} (hv : RotationOutcome a.rotArgs v ret) :
    ConversionReported sem a (u ++ v) (if ret ≠ 0 then -1 else 0) ↔ ScalerOpened (u ++ v) := by
  have hsem := semKept_scaling h (quiet_rotation hv)
  have hscale : ∀ e ∈ u, deviceOf e ≠ some .sprdRotation := deviceOf_scaling h
  obtain ⟨fd, rest, hhead, hrest⟩ := deviceOf_rotation hv
  have hnone : ∀ {dev : DeviceFile}, ∀ e ∈ rest, deviceOf e ≠ some dev := by
    intro dev e he heq
    rw [hrest e he] at heq
    cases heq
  have hbehind : ∀ e ∈ v, deviceOf e ≠ some .sprdScale := by
    rw [hhead, List.forall_mem_cons]
    exact ⟨nofun, hnone⟩
  cases h with
  | notOpened =>
      refine iff_of_false (fun hrep => ?_) ?_
      · have hdone := hrep.order _ fd rest (congrArg _ hhead)
        exact hdone.succeeded ⟨.openDev .sprdScale, none⟩ (by simp) rfl
      · rw [List.append_assoc]
        exact scaling_notOpened hbehind
  | opened n w ret' r hw =>
      obtain rfl : ret' = 0 := by
        by_contra hne
        rw [if_pos hne] at hzero
        cases hzero
      obtain ⟨hopened, hclosed⟩ := scaling_opened sem.isSome (v := v) (r := r)
        (onFd_of_yields hw) hbehind (closedOnce_rotation hv) (closesOf_rotation hv n)
      have hcomplete := complete_scaling sem.isSome (r := r) hw
      have hassoc : (initCalls sem.isSome ++ ⟨.semWait, ()⟩ :: ⟨.openDev .sprdScale, some n⟩ ::
          (w ++ (closeCalls n r ++ [⟨.semPost, ()⟩]))) ++ v =
          initCalls sem.isSome ++ ⟨.semWait, ()⟩ :: ⟨.openDev .sprdScale, some n⟩ ::
            (w ++ (closeCalls n r ++ ⟨.semPost, ()⟩ :: v)) := by
        simp
      rw [hassoc] at hsem
      rw [hassoc, hopened]
      refine ⟨fun hrep => hclosed.mp hrep.closed, fun hn => ?_⟩
      rw [← hassoc] at hsem ⊢
      refine ⟨fun hret => ?_, fun pre r' post heq => ?_, ?_, hsem⟩
      · obtain rfl : ret = 0 := by
          by_contra hne
          rw [if_pos hne] at hret
          cases hret
        rw [ScaleArgs.Done, if_neg hrot]
        exact hcomplete.append (complete_rotation hv rfl)
      · rw [hhead] at heq
        rw [eq_of_append_cons hscale hnone rfl heq]
        exact hcomplete
      · rw [hassoc]
        exact hclosed.mpr hn

theorem conversionReported_iff (h : (doScalingAndRotaion sem.isSome a).Yields t b) :
    ConversionReported sem a t b ↔ ScalerOpened t := by
  obtain ⟨u, ret, v, rfl, hscale, hend⟩ := yields_doScalingAndRotaion h
  obtain ⟨rfl, hend, rfl⟩ | ⟨hret, hrot, r, hr, rfl⟩ := hend
  · rw [List.append_nil, conversionReported_scaling hscale hend]
    exact scalingReported_iff hscale
  · exact conversionReported_rotation hscale hret hrot hr

end Opened

/-- Whatever `open`, `ioctl` and `close` return, `camera_rotation` reports its failures, and
the two functions that use the scaler do exactly if the scaler is opened under a
descriptor other than 0. -/
theorem reported_iff (sem : Option ℕ) (a : ScaleArgs) (c : RotArgs) :
    (∀ t ret, (cameraScaling sem.isSome a).Yields t ret →
      (ScalingReported sem a t ret ↔ ScalerOpened t)) ∧
    (∀ t ret, (cameraRotation c).Yields t ret → RotationReported c t ret) ∧
    (∀ t ret, (doScalingAndRotaion sem.isSome a).Yields t ret →
      (ConversionReported sem a t ret ↔ ScalerOpened t)) :=
  ⟨fun _ _ h => scalingReported_iff (yields_cameraScaling h),
    fun _ _ h => rotationReported (yields_cameraRotation h),
    fun _ _ h => conversionReported_iff h⟩

def quarterTurn : ScaleArgs where
  outputFmt := .yuv420
  outputWidth := 4
  outputHeight := 4
  outputYaddr := 0x1000
  outputUvaddr := 0x1010
  inputFmt := .yuv420
  inputUvEndian := 1
  inputWidth := 4
  inputHeight := 4
  inputYaddr := 0x2000
  intputUvaddr := 0x2010
  trimRect := ⟨0, 0, 4, 4⟩
  rotation := .rotation90
  tmpAddr := 0x3000

/-- Devices without a failure, but for the `open` of the scaler. -/
def answers (scaler : Option ℕ) : (c : Call) → Unit → c.Result × Unit
  | .openDev .sprdScale, _ => (scaler, ())
  | .openDev .sprdRotation, _ => (some 3, ())
  | .ioctl _ _, _ => (0, ())
  | .close _, _ => (0, ())
  | .semInit _, _ => ((), ())
  | .semWait, _ => ((), ())
  | .semPost, _ => ((), ())

def scalingTrace (scaler : Option ℕ) : Trace :=
  (cameraScaling false quarterTurn).trace (answers scaler) ()

def conversionTrace (scaler : Option ℕ) : Trace :=
  (doScalingAndRotaion false quarterTurn).trace (answers scaler) ()

theorem reported_iff_quarterTurn :
    ScalingReported none quarterTurn (scalingTrace (some 3)) 0 ∧
      ConversionReported none quarterTurn (conversionTrace (some 3)) 0 := by
  have hreported := reported_iff none quarterTurn quarterTurn.rotArgs
  constructor
  · have hyields := Dialog.yields_trace (answers (some 3)) (cameraScaling false quarterTurn) ()
    exact (hreported.1 _ 0 hyields).mpr ⟨3, by decide, .tail _ (.tail _ (.head _))⟩
  · have hyields :=
      Dialog.yields_trace (answers (some 3)) (doScalingAndRotaion false quarterTurn) ()
    exact (hreported.2.2 _ 0 hyields).mpr ⟨3, by decide, .tail _ (.tail _ (.head _))⟩

/-- Without a scaler both functions return 0, the second behind a rotation; a scaler under
descriptor 0 is left open. -/
theorem not_reported_quarterTurn :
    ((cameraScaling false quarterTurn).Yields (scalingTrace none) 0 ∧
      ¬ ScalingReported none quarterTurn (scalingTrace none) 0) ∧
    ((doScalingAndRotaion false quarterTurn).Yields (conversionTrace none) 0 ∧
      ¬ ConversionReported none quarterTurn (conversionTrace none) 0) ∧
    ((cameraScaling false quarterTurn).Yields (scalingTrace (some 0)) 0 ∧
      ¬ ClosedOnce (scalingTrace (some 0))) := by
  refine ⟨⟨Dialog.yields_trace (answers none) _ (), fun h => ?_⟩,
    ⟨Dialog.yields_trace (answers none) _ (), fun h => ?_⟩,
    ⟨Dialog.yields_trace (answers (some 0)) _ (), fun h => ?_⟩⟩
  · exact (h.zero rfl).succeeded _ (.tail _ (.tail _ (.head _))) rfl
  · have hdone : Complete _ _ (conversionTrace none) := h.zero rfl
    exact hdone.succeeded _ (.tail _ (.tail _ (.head _))) rfl
  · exact absurd (h.2.2.1 0 rfl) (by decide)

end ScaleRotate

end Tarako
