import Mathlib.Data.Int.Notation
import Mathlib.Tactic.Common
import Tarako.Hwc.Plan
import Tarako.Lib.Run

/-!
# Programming the overlays

`hwc_set` has the video layer converted into an overlay buffer by `transform_layer` of
`sc8825/scale_rotate.c`, programs the overlays with `SPRD_FB_SET_OVERLAY` and shows them
with `SPRD_FB_DISPLAY_OVERLAY`. What it shows depends on the flags that `hwc_prepare` left
in the context, not on what it has programmed. The video layer is shown in YUV. The thread
for the OSD layer is done before the display, and what it shares with the video layer is
not written by either. A layer that is marked for an overlay has a handle.
-/

namespace Tarako

namespace Hwc

inductive ScaleIoctl where
  | inputSize
  | inputRect
  | inputFormat
  | inputEndian
  | inputAddr
  | outputSize
  | outputFormat
  | outputEndian
  | outputAddr
  | scaleMode
  | start
  | isDone
  deriving DecidableEq

/-- The device calls of `camera_scaling`. -/
def scaleIoctls : List ScaleIoctl :=
  [.inputSize, .inputRect, .inputFormat, .inputEndian, .inputAddr, .outputSize,
    .outputFormat, .outputEndian, .outputAddr, .scaleMode, .start, .isDone]

inductive RotIoctl where
  | cfg
  | start
  | isDone

/-- The results of the device calls for one frame. `setVideoAgain` is the result of the
second `SPRD_FB_SET_OVERLAY` when the first has failed. -/
structure Devices where
  scaleOpens : Bool
  scaleIoctl : ScaleIoctl → ℤ
  rotOpens : Bool
  rotIoctl : RotIoctl → ℤ
  rotClose : ℤ
  setVideo : ℤ
  setVideoAgain : ℤ
  setOsd : ℤ

/-- A scaler that cannot be opened counts as a success. -/
def cameraScaling (d : Devices) : ℤ :=
  if d.scaleOpens = false then 0
  else if scaleIoctls.all (d.scaleIoctl · = 0) then 0
  else -1

def cameraRotation (d : Devices) : ℤ :=
  if d.rotOpens = false then -1
  else if d.rotIoctl .cfg ≠ 0 ∨ d.rotIoctl .start ≠ 0 ∨ d.rotIoctl .isDone ≠ 0 then -1
  else if d.rotClose ≠ 0 then -1
  else 0

inductive HwRotation where
  | rotation0
  | rotation90
  | rotation180
  | rotation270
  | mirror
  deriving DecidableEq

def rotationOf (transform : UInt32) : HwRotation :=
  if transform = 0 then .rotation0
  else if transform = HAL_TRANSFORM_ROT_90 then .rotation90
  else if transform = HAL_TRANSFORM_ROT_180 then .rotation180
  else if transform = HAL_TRANSFORM_ROT_270 then .rotation270
  else if transform = HAL_TRANSFORM_FLIP_H then .mirror
  else .rotation90

/-- `dcam_rot_degree`, which the default case of the switch leaves at 0. -/
def dcamRotDegree (transform : UInt32) : ℤ :=
  if transform = HAL_TRANSFORM_ROT_90 then 90
  else if transform = HAL_TRANSFORM_ROT_180 then 180
  else if transform = HAL_TRANSFORM_ROT_270 then 270
  else if transform = HAL_TRANSFORM_FLIP_H then -1
  else 0

def HwRotation.exchanges (rot : HwRotation) : Bool := rot = .rotation90 || rot = .rotation270

def rotatesOnly (g : Geometry) (transform : UInt32) : Bool :=
  let outRealWidth := if (rotationOf transform).exchanges then g.fbRect.h else g.fbRect.w
  let outRealHeight := if (rotationOf transform).exchanges then g.fbRect.w else g.fbRect.h
  dcamRotDegree transform ≠ 0 && g.imgW = g.srcRect.w && g.imgH = g.srcRect.h &&
    g.imgW = outRealWidth && g.imgH = outRealHeight

def doScalingAndRotaion (d : Devices) (rot : HwRotation) : ℤ :=
  if cameraScaling d ≠ 0 then -1
  else if rot = .rotation0 then 0
  else if cameraRotation d ≠ 0 then -1
  else 0

def transformLayer (d : Devices) (g : Geometry) (transform : UInt32) : ℤ :=
  if g.format = .yCbCr420Sp ∨ g.format = .yCrCb420Sp then
    if rotatesOnly g transform then cameraRotation d
    else doScalingAndRotaion d (rotationOf transform)
  else
    -- The case of YV12 has no `break` and runs into the default one.
    -1

/-- What `hwc_set` has done for a frame: the buffer that `transform_layer` has filled, the
buffers that `SPRD_FB_SET_OVERLAY` has accepted for the video and the OSD layer, and the
video and OSD bits of `SPRD_FB_DISPLAY_OVERLAY`. -/
structure Frame where
  converted : Option UInt32
  videoSet : Option UInt32
  osdSet : Option UInt32
  display : Option (Bool × Bool)

/-- The last layer of a list that is marked for the video overlay. -/
def videoLayerOf (layers : List Layer) : Option Layer := (layers.filter (·.isVideo)).getLast?

def osdLayerOf (layers : List Layer) : Option Layer := (layers.filter (·.isOsd)).getLast?

/-- `set_video_layer`: the context, the converted buffer and the programmed one. -/
def setVideoLayer (ctx : Context) (l : Layer) (d : Devices) :
    Context × Option UInt32 × Option UInt32 :=
  let buffer := ctx.overlayPhyAddr + ctx.overlayBufSize * ctx.overlayIndex
  if transformLayer d ctx.geometry l.transform = -1 then (ctx, none, none)
  else
    ({ ctx with overlayIndex := (ctx.overlayIndex + 1) % 2 }, some buffer,
      if d.setVideo ≠ -1 ∨ d.setVideoAgain ≠ -1 then some buffer else none)

/-- The buffer that `set_osd_layer` shows, and the context. The results of the rotator are
only logged. -/
def osdBuffer (b : Build) (ctx : Context) (l : Layer) (h : PrivateHandle) :
    Context × UInt32 :=
  if h.usesPhy ∧ l.transform = 0 ∧ b.supportSyncDisp then
    ({ ctx with osdSyncDisplay := true }, h.phyaddr)
  else
    ({ ctx with osdSyncDisplay := false, overlayIndex2 := (ctx.overlayIndex2 + 1) % 2 },
      ctx.overlayPhyAddr2 + ctx.overlayBufSize2 * ctx.overlayIndex2)

def setOsdLayer (b : Build) (ctx : Context) (l : Layer) (d : Devices) :
    Context × Option UInt32 :=
  match l.handle with
  | none => (ctx, none)
  | some h =>
      let (ctx', buffer) := osdBuffer b ctx l h
      (ctx', if d.setOsd ≠ -1 then some buffer else none)

def hwcSet (b : Build) (ctx : Context) (layers : List Layer) (d : Devices) : Context × Frame :=
  let (ctx', converted, videoSet) :=
    match videoLayerOf layers with
    | some l => setVideoLayer ctx l d
    | none => (ctx, none, none)
  let (ctx'', osdSet) :=
    match osdLayerOf layers with
    | some l => setOsdLayer b ctx' l d
    | none => (ctx', none)
  (ctx'',
    { converted := converted
      videoSet := videoSet
      osdSet := osdSet
      display :=
        if ctx''.fbLayerCount = 0 ∧ (ctx''.videoOverlayFlag ∨ ctx''.osdOverlayFlag) then
          some (ctx''.videoOverlayFlag, ctx''.osdOverlayFlag)
        else none })

/-- The context, and the frame when the last call was `hwc_set` with a list. -/
structure Composer where
  ctx : Context
  frame : Option Frame

/-- A call; without a list the first does nothing and the second only swaps buffers. -/
inductive Event where
  | prepare (layers : Option (List Layer))
  | set (layers : Option (List Layer)) (d : Devices)

def step (b : Build) (s : Composer) : Event → Composer
  | .prepare none => { s with frame := none }
  | .prepare (some layers) => { ctx := (hwcPrepare b s.ctx layers).1, frame := none }
  | .set none _ => { s with frame := none }
  | .set (some layers) d =>
      let (ctx, frame) := hwcSet b s.ctx layers d
      { ctx := ctx, frame := some frame }

/-- Every overlay that is shown was programmed for this frame, the video overlay with the
buffer that was filled. -/
def Programmed (f : Frame) : Prop :=
  ∀ video osd, f.display = some (video, osd) →
    (video = true → ∃ buffer, f.converted = some buffer ∧ f.videoSet = some buffer) ∧
    (osd = true → ∃ buffer, f.osdSet = some buffer)

def RotatorWorks (d : Devices) : Prop :=
  d.rotOpens = true ∧ (∀ i, d.rotIoctl i = 0) ∧ d.rotClose = 0

/-- The scaler, if it can be opened, does its work. -/
def ScalerWorks (d : Devices) : Prop := d.scaleOpens = true → ∀ i, d.scaleIoctl i = 0

/-- The image has its chroma in one plane, and the devices that convert it work. -/
def Convertible (d : Devices) (g : Geometry) (transform : UInt32) : Prop :=
  (g.format = .yCbCr420Sp ∨ g.format = .yCrCb420Sp) ∧
    if rotatesOnly g transform then RotatorWorks d
    else ScalerWorks d ∧ (transform ≠ 0 → RotatorWorks d)

/-- The condition on a call of `hwc_set` that shows overlays: a layer for the video overlay
is in its list, can be converted and is accepted, at once or when asked again; and a layer
for the OSD overlay is in the list and is accepted. -/
def Ready (s : Composer) : Event → Prop
  | .set (some layers) d => s.ctx.fbLayerCount = 0 →
      (s.ctx.videoOverlayFlag = true → ∃ l, videoLayerOf layers = some l ∧
        Convertible d s.ctx.geometry l.transform ∧ (d.setVideo ≠ -1 ∨ d.setVideoAgain ≠ -1)) ∧
      (s.ctx.osdOverlayFlag = true → (∃ l, osdLayerOf layers = some l) ∧ d.setOsd ≠ -1)
  | _ => True

/-! ### The conversion -/

theorem cameraScaling_eq_zero_iff (d : Devices) : cameraScaling d = 0 ↔ ScalerWorks d := by
  unfold cameraScaling ScalerWorks
  by_cases hopen : d.scaleOpens = false
  · rw [if_pos hopen]
    exact iff_of_true rfl fun hcon => by rw [hopen] at hcon; cases hcon
  · rw [if_neg hopen]
    have hall : scaleIoctls.all (d.scaleIoctl · = 0) = true ↔ ∀ i, d.scaleIoctl i = 0 := by
      rw [List.all_eq_true]
      constructor
      · intro h i
        have hmem : i ∈ scaleIoctls := by cases i <;> decide
        exact of_decide_eq_true (h i hmem)
      · exact fun h i _ => decide_eq_true (h i)
    rw [Bool.not_eq_false] at hopen
    rw [hopen, ← hall]
    split <;> simp_all

theorem cameraRotation_eq_zero_iff (d : Devices) :
    cameraRotation d = 0 ↔ RotatorWorks d := by
  have hall : (∀ i, d.rotIoctl i = 0) ↔
      d.rotIoctl .cfg = 0 ∧ d.rotIoctl .start = 0 ∧ d.rotIoctl .isDone = 0 := by
    constructor
    · exact fun h => ⟨h .cfg, h .start, h .isDone⟩
    · rintro ⟨hcfg, hstart, hdone⟩ i
      cases i <;> assumption
  unfold cameraRotation RotatorWorks
  rw [hall]
  by_cases hopen : d.rotOpens = false
  · simp [hopen]
  · rw [if_neg hopen]
    rw [Bool.not_eq_false] at hopen
    by_cases herr : d.rotIoctl .cfg ≠ 0 ∨ d.rotIoctl .start ≠ 0 ∨ d.rotIoctl .isDone ≠ 0
    · rw [if_pos herr]
      refine iff_of_false (by decide) ?_
      rintro ⟨-, ⟨hcfg, hstart, hdone⟩, -⟩
      rcases herr with h | h | h
      · exact h hcfg
      · exact h hstart
      · exact h hdone
    · rw [if_neg herr]
      push Not at herr
      simp [hopen, herr]

theorem rotationOf_eq_rotation0_iff (transform : UInt32) :
    rotationOf transform = .rotation0 ↔ transform = 0 := by
  unfold rotationOf
  split
  · exact iff_of_true rfl (by assumption)
  · refine iff_of_false ?_ (by assumption)
    repeat' split
    all_goals decide

theorem doScalingAndRotaion_eq_zero_iff (d : Devices) (transform : UInt32) :
    doScalingAndRotaion d (rotationOf transform) = 0 ↔
      ScalerWorks d ∧ (transform ≠ 0 → RotatorWorks d) := by
  unfold doScalingAndRotaion
  rw [← cameraScaling_eq_zero_iff, ← cameraRotation_eq_zero_iff]
  simp only [rotationOf_eq_rotation0_iff]
  by_cases hscale : cameraScaling d = 0
  · by_cases htransform : transform = 0
    · simp [hscale, htransform]
    · by_cases hrot : cameraRotation d = 0
      · simp [hscale, hrot]
      · simp [hscale, htransform, hrot]
  · simp [hscale]

theorem transformLayer_eq_zero_iff (d : Devices) (g : Geometry) (transform : UInt32) :
    transformLayer d g transform = 0 ↔ Convertible d g transform := by
  unfold transformLayer Convertible
  by_cases hformat : g.format = .yCbCr420Sp ∨ g.format = .yCrCb420Sp
  · rw [if_pos hformat, and_iff_right hformat]
    split
    · exact cameraRotation_eq_zero_iff d
    · exact doScalingAndRotaion_eq_zero_iff d transform
  · rw [if_neg hformat]
    exact iff_of_false (by decide) fun hcon => hformat hcon.1

theorem transformLayer_eq_neg_one_iff (d : Devices) (g : Geometry) (transform : UInt32) :
    transformLayer d g transform = -1 ↔ ¬ Convertible d g transform := by
  have hrot : cameraRotation d = 0 ∨ cameraRotation d = -1 := by
    unfold cameraRotation
    repeat' split
    all_goals decide
  have hboth : doScalingAndRotaion d (rotationOf transform) = 0 ∨
      doScalingAndRotaion d (rotationOf transform) = -1 := by
    unfold doScalingAndRotaion
    repeat' split
    all_goals decide
  have hvalues : transformLayer d g transform = 0 ∨ transformLayer d g transform = -1 := by
    unfold transformLayer
    split
    · split
      · exact hrot
      · exact hboth
    · exact .inr rfl
  rw [← transformLayer_eq_zero_iff]
  omega

/-! ### A frame -/

variable (b : Build) (ctx : Context) (l : Layer) (d : Devices)

theorem setVideoLayer_eq (h : ¬ Convertible d ctx.geometry l.transform) :
    setVideoLayer ctx l d = (ctx, none, none) := by
  unfold setVideoLayer
  dsimp only
  rw [if_pos ((transformLayer_eq_neg_one_iff d ctx.geometry l.transform).mpr h)]

theorem setVideoLayer_eq_of_convertible (h : Convertible d ctx.geometry l.transform) :
    setVideoLayer ctx l d =
      ({ ctx with overlayIndex := (ctx.overlayIndex + 1) % 2 },
        some (ctx.overlayPhyAddr + ctx.overlayBufSize * ctx.overlayIndex),
        if d.setVideo ≠ -1 ∨ d.setVideoAgain ≠ -1 then
          some (ctx.overlayPhyAddr + ctx.overlayBufSize * ctx.overlayIndex)
        else none) := by
  unfold setVideoLayer
  dsimp only
  rw [if_neg fun hcon => (transformLayer_eq_neg_one_iff d ctx.geometry l.transform).mp hcon h]

theorem exists_setVideoLayer_iff :
    (∃ buffer, (setVideoLayer ctx l d).2.1 = some buffer ∧
      (setVideoLayer ctx l d).2.2 = some buffer) ↔
      Convertible d ctx.geometry l.transform ∧ (d.setVideo ≠ -1 ∨ d.setVideoAgain ≠ -1) := by
  by_cases hconv : Convertible d ctx.geometry l.transform
  · rw [setVideoLayer_eq_of_convertible ctx l d hconv, and_iff_right hconv]
    by_cases hset : d.setVideo ≠ -1 ∨ d.setVideoAgain ≠ -1
    · rw [if_pos hset]
      exact iff_of_true ⟨_, rfl, rfl⟩ hset
    · rw [if_neg hset]
      refine iff_of_false ?_ hset
      rintro ⟨buffer, -, hcon⟩
      cases hcon
  · rw [setVideoLayer_eq ctx l d hconv]
    refine iff_of_false ?_ fun hcon => hconv hcon.1
    rintro ⟨buffer, hcon, -⟩
    cases hcon

/-- What `hwc_set` goes by is not changed while the layers are programmed. -/
structure SamePlan (ctx' ctx : Context) : Prop where
  fbLayerCount : ctx'.fbLayerCount = ctx.fbLayerCount
  video : ctx'.videoOverlayFlag = ctx.videoOverlayFlag
  osd : ctx'.osdOverlayFlag = ctx.osdOverlayFlag

theorem samePlan_setVideoLayer : SamePlan (setVideoLayer ctx l d).1 ctx := by
  by_cases h : Convertible d ctx.geometry l.transform
  · rw [setVideoLayer_eq_of_convertible ctx l d h]
    exact ⟨rfl, rfl, rfl⟩
  · rw [setVideoLayer_eq ctx l d h]
    exact ⟨rfl, rfl, rfl⟩

theorem samePlan_setOsdLayer : SamePlan (setOsdLayer b ctx l d).1 ctx := by
  unfold setOsdLayer osdBuffer
  cases l.handle with
  | none => exact ⟨rfl, rfl, rfl⟩
  | some h =>
      dsimp only
      split <;> exact ⟨rfl, rfl, rfl⟩

theorem exists_setOsdLayer_iff (h : l.isOsd = true) :
    (∃ buffer, (setOsdLayer b ctx l d).2 = some buffer) ↔ d.setOsd ≠ -1 := by
  obtain ⟨p, hp⟩ : ∃ p, l.handle = some p := by
    have hany := (isOsd_iff.mp h).2
    cases hhandle : l.handle with
    | none =>
        rw [hhandle] at hany
        cases hany
    | some p => exact ⟨p, rfl⟩
  unfold setOsdLayer
  rw [hp]
  dsimp only
  split
  · rename_i hset
    exact iff_of_true ⟨_, rfl⟩ hset
  · rename_i hset
    refine iff_of_false ?_ hset
    rintro ⟨buffer, hcon⟩
    cases hcon

theorem isOsd_of_osdLayerOf {layers : List Layer} {l : Layer}
    (h : osdLayerOf layers = some l) : l.isOsd = true :=
  (List.mem_filter.mp (List.mem_of_getLast? h)).2

section Set

variable (layers : List Layer)

/-- The part of `hwc_set` for the video layer. -/
def videoPart : Context × Option UInt32 × Option UInt32 :=
  match videoLayerOf layers with
  | some l => setVideoLayer ctx l d
  | none => (ctx, none, none)

/-- The part of `hwc_set` for the OSD layer. -/
def osdPart : Context × Option UInt32 :=
  match osdLayerOf layers with
  | some l => setOsdLayer b ctx l d
  | none => (ctx, none)

theorem hwcSet_eq :
    hwcSet b ctx layers d =
      ((osdPart b (videoPart ctx d layers).1 d layers).1,
        { converted := (videoPart ctx d layers).2.1
          videoSet := (videoPart ctx d layers).2.2
          osdSet := (osdPart b (videoPart ctx d layers).1 d layers).2
          display :=
            if ctx.fbLayerCount = 0 ∧ (ctx.videoOverlayFlag ∨ ctx.osdOverlayFlag) then
              some (ctx.videoOverlayFlag, ctx.osdOverlayFlag)
            else none }) := by
  have hvideo : SamePlan (videoPart ctx d layers).1 ctx := by
    unfold videoPart
    split
    · exact samePlan_setVideoLayer ctx _ d
    · exact ⟨rfl, rfl, rfl⟩
  have hosd : SamePlan (osdPart b (videoPart ctx d layers).1 d layers).1
      (videoPart ctx d layers).1 := by
    unfold osdPart
    split
    · exact samePlan_setOsdLayer b _ _ d
    · exact ⟨rfl, rfl, rfl⟩
  rw [← hvideo.fbLayerCount, ← hvideo.video, ← hvideo.osd, ← hosd.fbLayerCount, ← hosd.video,
    ← hosd.osd]
  rfl

theorem exists_videoPart_iff :
    (∃ buffer, (videoPart ctx d layers).2.1 = some buffer ∧
      (videoPart ctx d layers).2.2 = some buffer) ↔
      ∃ l, videoLayerOf layers = some l ∧ Convertible d ctx.geometry l.transform ∧
        (d.setVideo ≠ -1 ∨ d.setVideoAgain ≠ -1) := by
  unfold videoPart
  cases videoLayerOf layers with
  | none => simp
  | some l =>
      dsimp only
      rw [exists_setVideoLayer_iff]
      simp

theorem exists_osdPart_iff :
    (∃ buffer, (osdPart b ctx d layers).2 = some buffer) ↔
      (∃ l, osdLayerOf layers = some l) ∧ d.setOsd ≠ -1 := by
  unfold osdPart
  cases hlayer : osdLayerOf layers with
  | none => simp
  | some l =>
      dsimp only
      rw [exists_setOsdLayer_iff b ctx l d (isOsd_of_osdLayerOf hlayer)]
      simp

/-- A frame shows only what was programmed exactly if the call was ready for it. -/
theorem programmed_hwcSet_iff (frame : Option Frame) :
    Programmed (hwcSet b ctx layers d).2 ↔ Ready ⟨ctx, frame⟩ (.set (some layers) d) := by
  rw [hwcSet_eq, Programmed, Ready]
  simp only [exists_videoPart_iff, exists_osdPart_iff]
  by_cases hcount : ctx.fbLayerCount = 0
  · cases hvideo : ctx.videoOverlayFlag with
    | true => simp [hcount]
    | false => cases hosd : ctx.osdOverlayFlag <;> simp [hcount]
  · simp [hcount]

end Set

/-! ### Runs -/

/-- Every frame so far shows only what was programmed for it. -/
def Composer.Sound (s : Composer) : Prop := ∀ f, s.frame = some f → Programmed f

theorem sound_step_iff (s : Composer) (e : Event) : (step b s e).Sound ↔ Ready s e := by
  have hnone : ∀ ctx : Context, Composer.Sound ⟨ctx, none⟩ := fun _ f hf => by cases hf
  cases e with
  | prepare layers =>
      cases layers with
      | none => exact iff_of_true (hnone _) trivial
      | some layers => exact iff_of_true (hnone _) trivial
  | set layers d =>
      cases layers with
      | none => exact iff_of_true (hnone _) trivial
      | some layers =>
          rw [← programmed_hwcSet_iff b s.ctx d layers s.frame]
          constructor
          · exact fun h => h _ rfl
          · intro h f hf
            obtain rfl := Option.some.inj hf
            exact h

def AllSucceed (d : Devices) : Prop :=
  d.scaleOpens = true ∧ (∀ i, d.scaleIoctl i = 0) ∧ RotatorWorks d

/-- With devices that work the conversion fails for YV12, which `verify_video_layer`
accepts, and for no other format that it accepts. -/
theorem transformLayer_candidate_iff {d : Devices} (hd : AllSucceed d)
    (fbWidth fbHeight : Int32) {l : Layer} {h : PrivateHandle} (hl : videoCandidate l h = true) :
    transformLayer d (videoGeometry fbWidth fbHeight l h) l.transform = 0 ↔
      h.format ≠ .yv12 := by
  obtain ⟨-, hscale, hrot⟩ := hd
  have hformat : h.format = .yCbCr420Sp ∨ h.format = .yCrCb420Sp ∨ h.format = .yv12 := by
    unfold videoCandidate at hl
    simp only [Bool.and_eq_true, Bool.or_eq_true, decide_eq_true_eq] at hl
    obtain ⟨⟨⟨⟨⟨-, hformat⟩, -⟩, -⟩, -⟩, -⟩ := hl
    rwa [or_assoc] at hformat
  rw [transformLayer_eq_zero_iff, Convertible]
  change (h.format = .yCbCr420Sp ∨ h.format = .yCrCb420Sp) ∧ _ ↔ _
  have hworks : (if rotatesOnly (videoGeometry fbWidth fbHeight l h) l.transform = true then
      RotatorWorks d else ScalerWorks d ∧ (l.transform ≠ 0 → RotatorWorks d)) := by
    split
    · exact hrot
    · exact ⟨fun _ => hscale, fun _ => hrot⟩
  rw [and_iff_left hworks]
  rcases hformat with hf | hf | hf <;> simp [hf]

/-- In a run every overlay shown was programmed for its frame exactly if every `hwc_set`
is ready for what it shows. With devices that work the conversion succeeds for what
`verify_video_layer` accepts, YV12 excepted. -/
theorem sound_run_iff (es : List Event) :
    ((∀ fs, fs <+: es → (Run.run (step b) ⟨ctx, none⟩ fs).Sound) ↔
      Run.Meets (step b) Ready ⟨ctx, none⟩ es) ∧
    (∀ d, AllSucceed d → ∀ fbWidth fbHeight l h, videoCandidate l h = true →
      (transformLayer d (videoGeometry fbWidth fbHeight l h) l.transform = 0 ↔
        h.format ≠ .yv12)) := by
  constructor
  · exact @Run.forall_prefix_iff_meets Composer Event (step b) Ready (fun _ => True)
      Composer.Sound (fun _ _ h => h) (fun s e _ _ => sound_step_iff b s e) _ trivial
      (fun f hf => by cases hf) es
  · exact fun d hd fbWidth fbHeight l h hl => transformLayer_candidate_iff hd fbWidth fbHeight hl

/-- Devices without a failure, and a screen that takes or refuses the overlays. -/
def devices (setOverlay : ℤ) : Devices where
  scaleOpens := true
  scaleIoctl := fun _ => 0
  rotOpens := true
  rotIoctl := fun _ => 0
  rotClose := 0
  setVideo := setOverlay
  setVideoAgain := setOverlay
  setOsd := setOverlay

def yuvLayer (format : PixelFormat) : Layer :=
  { videoLayer 320 240 0 with
    handle := some
      { flags := PRIV_FLAGS_USES_PHY, format := format, width := 320, height := 240,
        phyaddr := 0, base := 0 } }

def frameOf (l : Layer) (d : Devices) : Option Frame :=
  (Run.run (step sc8825) ⟨screen, none⟩
    [.prepare (some [l]), .set (some [l.mark .img]) d]).frame

/-- A YV12 layer is shown though it was not converted, and a semi-planar one though the
screen has refused its buffer twice. -/
theorem shown_without_buffer :
    ((frameOf (yuvLayer .yv12) (devices 0)).map (·.display) = some (some (true, false)) ∧
      (frameOf (yuvLayer .yv12) (devices 0)).map (·.converted) = some none) ∧
    ((frameOf (yuvLayer .yCbCr420Sp) (devices (-1))).map (·.display) =
        some (some (true, false)) ∧
      (frameOf (yuvLayer .yCbCr420Sp) (devices (-1))).map (·.videoSet) = some none) := by
  decide +kernel

end Hwc

end Tarako
