import Tarako.Hwc.Prepare
import Tarako.Lib.Tokens

/-!
# Consistency of the layer plan

The marks, counts and flags that `hwc_prepare` leaves always agree. The geometry in the
context is that of the last layer that got as far as to have it computed, which is the
marked video layer exactly if no later layer that got so far has another geometry.
-/

namespace Tarako

namespace Hwc

def Layer.isFramebuffer (l : Layer) : Bool := l.compositionType = .framebuffer

/-- `hwc_set` takes the layer for the video overlay. -/
def Layer.isVideo (l : Layer) : Bool :=
  l.compositionType = .overlay && l.handle.any (·.format ≠ .rgba8888)

/-- `hwc_set` takes the layer for the OSD overlay. -/
def Layer.isOsd (l : Layer) : Bool :=
  l.compositionType = .overlay && l.handle.any (·.format = .rgba8888)

section Written

variable (fbWidth fbHeight : Int32)

/-- The geometry that the look at a layer leaves in the context. -/
def written (l : Layer) : Option Geometry :=
  match l.handle with
  | none => none
  | some h =>
      if l.flags &&& HWC_SKIP_LAYER = 0 ∧ h.format ≠ .rgba8888 ∧ videoCandidate l h then
        some (videoGeometry fbWidth fbHeight l h)
      else none

/-- `verify_video_layer` accepts the layer. -/
def accepted (l : Layer) : Bool :=
  (written fbWidth fbHeight l).any (·.scalable l.transform)

/-- Behind the first layer that is accepted, the last one whose geometry is computed has
the same geometry. -/
def Undisturbed : List Layer → Prop
  | [] => True
  | l :: rest =>
      if accepted fbWidth fbHeight l then
        ∀ g ∈ (rest.filterMap (written fbWidth fbHeight)).getLast?,
          written fbWidth fbHeight l = some g
      else Undisturbed rest

end Written

/-- The plan of the last `hwc_prepare`. -/
structure Consistent (ctx : Context) (layers : List Layer) : Prop where
  marked : ∀ l ∈ layers, l.compositionType = .framebuffer ∨ l.compositionType = .overlay
  fbLayerCount : ctx.fbLayerCount = layers.countP (·.isFramebuffer)
  video : ctx.videoOverlayFlag.toNat = layers.countP (·.isVideo)
  osd : ctx.osdOverlayFlag.toNat = layers.countP (·.isOsd)
  overlay : layers.countP (·.compositionType = .overlay) =
    layers.countP (·.isVideo) + layers.countP (·.isOsd)
  osd_video : ctx.osdOverlayFlag = true → ctx.videoOverlayFlag = true
  geometry : ∀ l ∈ layers, l.isVideo = true →
    written ctx.fbWidth ctx.fbHeight l = some ctx.geometry

@[simp] theorem written_mark (fbWidth fbHeight : Int32) (l : Layer) (s : SprdLayers) :
    written fbWidth fbHeight (l.mark s) = written fbWidth fbHeight l := rfl

/-! ### One turn -/

theorem written_of_skip {fbWidth fbHeight : Int32} {l : Layer}
    (h : l.handle = none ∨ l.flags &&& HWC_SKIP_LAYER ≠ 0) :
    written fbWidth fbHeight l = none := by
  unfold written
  cases hhandle : l.handle with
  | none => rfl
  | some _ =>
      rw [hhandle] at h
      have hskip : l.flags &&& HWC_SKIP_LAYER ≠ 0 := by simpa using h
      exact if_neg fun hcon => hskip hcon.1

theorem verifyOsdLayer_ne_img (b : Build) (fbWidth fbHeight : Int32) (l : Layer)
    (h : PrivateHandle) : verifyOsdLayer b fbWidth fbHeight l h ≠ .img := by
  unfold verifyOsdLayer
  dsimp only
  repeat' split
  all_goals decide

theorem isOverlaySupportted_eq (b : Build) {fbWidth fbHeight : Int32} {l : Layer}
    {h : PrivateHandle} (hhandle : l.handle = some h)
    (hskip : l.flags &&& HWC_SKIP_LAYER = 0) (g : Geometry) :
    isOverlaySupportted b fbWidth fbHeight l h g =
      ((written fbWidth fbHeight l).getD g,
        if accepted fbWidth fbHeight l then .img
        else if h.format = .rgba8888 then verifyOsdLayer b fbWidth fbHeight l h
        else .none) := by
  unfold isOverlaySupportted verifyVideoLayer accepted written
  rw [hhandle]
  dsimp only
  by_cases hformat : h.format = .rgba8888
  · simp [hformat]
  · by_cases hcandidate : videoCandidate l h = true
    · simp [hformat, hskip, hcandidate]
    · simp [hformat, hcandidate]

section Turn

variable {ctx : Context} {l : Layer}

theorem isVideo_mark {h : PrivateHandle} (hhandle : l.handle = some h) {s : SprdLayers}
    (hs : s ≠ .none) : (l.mark s).isVideo = decide (h.format ≠ .rgba8888) := by
  simp [Layer.isVideo, Layer.mark, hs, hhandle]

theorem isOsd_mark {h : PrivateHandle} (hhandle : l.handle = some h) {s : SprdLayers}
    (hs : s ≠ .none) : (l.mark s).isOsd = decide (h.format = .rgba8888) := by
  simp [Layer.isOsd, Layer.mark, hs, hhandle]

theorem format_ne_of_accepted {fbWidth fbHeight : Int32} {h : PrivateHandle}
    (hhandle : l.handle = some h) (ha : accepted fbWidth fbHeight l = true) :
    h.format ≠ .rgba8888 := by
  intro hformat
  unfold accepted written at ha
  rw [hhandle] at ha
  simp [hformat] at ha

/-- What one turn of the loop does: the layer stays with the framebuffer, or it becomes
the video overlay, or the OSD overlay. -/
theorem prepareLayer_cases (b : Build) (n : ℕ) (ctx : Context) (l : Layer) :
    (prepareLayer b n ctx l =
        ({ ctx with
            fbLayerCount := ctx.fbLayerCount + 1
            geometry := (written ctx.fbWidth ctx.fbHeight l).getD ctx.geometry }, .none) ∧
      (accepted ctx.fbWidth ctx.fbHeight l = true → ctx.videoOverlayFlag = true)) ∨
    (prepareLayer b n ctx l =
        ({ ctx with
            videoOverlayFlag := true
            geometry := (written ctx.fbWidth ctx.fbHeight l).getD ctx.geometry }, .img) ∧
      accepted ctx.fbWidth ctx.fbHeight l = true ∧ ctx.videoOverlayFlag = false ∧
      (l.mark .img).isVideo = true ∧ (l.mark .img).isOsd = false) ∨
    (prepareLayer b n ctx l =
        ({ ctx with
            osdOverlayFlag := true
            geometry := (written ctx.fbWidth ctx.fbHeight l).getD ctx.geometry }, .osd) ∧
      accepted ctx.fbWidth ctx.fbHeight l = false ∧ ctx.osdOverlayFlag = false ∧
      (l.mark .osd).isVideo = false ∧ (l.mark .osd).isOsd = true) := by
  unfold prepareLayer
  cases hhandle : l.handle with
  | none =>
      refine .inl ⟨?_, ?_⟩
      · rw [written_of_skip (.inl hhandle)]
        rfl
      · intro ha
        rw [accepted, written_of_skip (.inl hhandle)] at ha
        cases ha
  | some h =>
      dsimp only
      by_cases hskip : l.flags &&& HWC_SKIP_LAYER = 0
      · rw [if_neg (not_not.mpr hskip), isOverlaySupportted_eq b hhandle hskip]
        dsimp only
        by_cases ha : accepted ctx.fbWidth ctx.fbHeight l = true
        · have hformat := format_ne_of_accepted hhandle ha
          rw [if_pos ha]
          by_cases hflag : ctx.videoOverlayFlag = false
          · rw [if_pos ⟨rfl, hflag⟩]
            refine .inr (.inl ⟨rfl, ha, hflag, ?_, ?_⟩)
            · rw [isVideo_mark hhandle (by decide), decide_eq_true hformat]
            · rw [isOsd_mark hhandle (by decide), decide_eq_false hformat]
          · rw [if_neg fun hcon => hflag hcon.2, if_neg fun hcon => SprdLayers.noConfusion hcon.1]
            exact .inl ⟨rfl, fun _ => by simpa using hflag⟩
        · rw [if_neg ha]
          have hne : (if h.format = .rgba8888 then
              verifyOsdLayer b ctx.fbWidth ctx.fbHeight l h else .none) ≠ SprdLayers.img := by
            split
            · exact verifyOsdLayer_ne_img b _ _ l h
            · decide
          have hosd : (if h.format = .rgba8888 then
              verifyOsdLayer b ctx.fbWidth ctx.fbHeight l h else .none) = SprdLayers.osd →
              h.format = .rgba8888 := by
            split
            · exact fun _ => by assumption
            · exact fun hcon => SprdLayers.noConfusion hcon
          generalize (if h.format = .rgba8888 then
            verifyOsdLayer b ctx.fbWidth ctx.fbHeight l h else .none) = support at hne hosd ⊢
          rw [if_neg fun hcon => hne hcon.1]
          by_cases hmark : support = .osd ∧ ctx.osdOverlayFlag = false ∧ n < 3
          · have hformat := hosd hmark.1
            rw [if_pos hmark]
            refine .inr (.inr ⟨rfl, by simpa using ha, hmark.2.1, ?_, ?_⟩)
            · rw [isVideo_mark hhandle (by decide)]
              simp [hformat]
            · rw [isOsd_mark hhandle (by decide)]
              simp [hformat]
          · rw [if_neg hmark]
            exact .inl ⟨rfl, fun hcon => absurd hcon ha⟩
      · rw [if_pos hskip]
        refine .inl ⟨?_, ?_⟩
        · rw [written_of_skip (.inr hskip)]
          rfl
        · intro ha
          rw [accepted, written_of_skip (.inr hskip)] at ha
          cases ha

end Turn

/-! ### The loop -/

theorem isFramebuffer_mark (l : Layer) (s : SprdLayers) :
    (l.mark s).isFramebuffer = decide (s = .none) := by
  cases s <;> rfl

theorem isVideo_mark_none (l : Layer) : (l.mark .none).isVideo = false := rfl

theorem isOsd_mark_none (l : Layer) : (l.mark .none).isOsd = false := rfl

/-- What the loop has done with the layers from `i` on: `ctx₀` and `ptr₀` are the context
and the pointer before it. -/
structure Looped (i : ℕ) (ctx₀ : Context) (ptr₀ : Option ℕ) (ctx : Context)
    (ptr : Option ℕ) (layers : List Layer) : Prop where
  fbWidth : ctx.fbWidth = ctx₀.fbWidth
  fbHeight : ctx.fbHeight = ctx₀.fbHeight
  marked : ∀ l ∈ layers, l.compositionType = .framebuffer ∨ l.compositionType = .overlay
  fbLayerCount : ctx.fbLayerCount = ctx₀.fbLayerCount + layers.countP (·.isFramebuffer)
  video : ctx.videoOverlayFlag.toNat =
    ctx₀.videoOverlayFlag.toNat + layers.countP (·.isVideo)
  osd : ctx.osdOverlayFlag.toNat = ctx₀.osdOverlayFlag.toNat + layers.countP (·.isOsd)
  overlay : layers.countP (·.compositionType = .overlay) =
    layers.countP (·.isVideo) + layers.countP (·.isOsd)
  kept : ctx₀.osdOverlayFlag = true → ptr = ptr₀
  found : ctx₀.osdOverlayFlag = false → ctx.osdOverlayFlag = true →
    ∃ j l, ptr = some (i + j) ∧ layers[j]? = some l ∧ l.isOsd = true

/-- What a turn does to the context, the pointer and its layer. -/
structure Turned (i : ℕ) (ctx₀ : Context) (ptr₀ : Option ℕ) (ctx : Context)
    (ptr : Option ℕ) (l : Layer) : Prop where
  fbWidth : ctx.fbWidth = ctx₀.fbWidth
  fbHeight : ctx.fbHeight = ctx₀.fbHeight
  marked : l.compositionType = .framebuffer ∨ l.compositionType = .overlay
  fbLayerCount : ctx.fbLayerCount = ctx₀.fbLayerCount + l.isFramebuffer.toNat
  video : ctx.videoOverlayFlag.toNat = ctx₀.videoOverlayFlag.toNat + l.isVideo.toNat
  osd : ctx.osdOverlayFlag.toNat = ctx₀.osdOverlayFlag.toNat + l.isOsd.toNat
  overlay : (decide (l.compositionType = .overlay)).toNat =
    l.isVideo.toNat + l.isOsd.toNat
  kept : ctx₀.osdOverlayFlag = true → ptr = ptr₀
  found : ctx₀.osdOverlayFlag = false → ctx.osdOverlayFlag = true →
    ptr = some i ∧ l.isOsd = true

theorem turned_prepareLayer (b : Build) (n i : ℕ) (ctx : Context) (osd : Option ℕ)
    (l : Layer) :
    Turned i ctx osd (prepareLayer b n ctx l).1
      (if (prepareLayer b n ctx l).2 = .osd then some i else osd)
      (l.mark (prepareLayer b n ctx l).2) := by
  rcases prepareLayer_cases b n ctx l with ⟨heq, -⟩ | ⟨heq, -, hflag, hvideo, hosd⟩ |
    ⟨heq, -, hflag, hvideo, hosd⟩
  · rw [heq]
    refine ⟨rfl, rfl, .inl rfl, rfl, rfl, rfl, rfl, fun _ => rfl, fun h h' => ?_⟩
    rw [h] at h'
    cases h'
  · rw [heq]
    refine ⟨rfl, rfl, .inr rfl, rfl, ?_, ?_, ?_, fun _ => rfl, fun h h' => ?_⟩
    · rw [hflag, hvideo]
      rfl
    · rw [hosd]
      rfl
    · rw [hvideo, hosd]
      rfl
    · rw [h] at h'
      cases h'
  · rw [heq]
    refine ⟨rfl, rfl, .inr rfl, rfl, ?_, ?_, ?_, fun h => ?_, fun _ _ => ⟨rfl, hosd⟩⟩
    · rw [hvideo]
      rfl
    · rw [hflag, hosd]
      rfl
    · rw [hvideo, hosd]
      rfl
    · rw [hflag] at h
      cases h

theorem countP_cons_toNat (p : Layer → Bool) (l : Layer) (layers : List Layer) :
    (l :: layers).countP p = (p l).toNat + layers.countP p := by
  rw [List.countP_cons, Nat.add_comm]
  cases p l <;> rfl

theorem Turned.cons {i : ℕ} {ctx₀ ctx₁ ctx₂ : Context} {osd₀ osd₁ osd₂ : Option ℕ}
    {l : Layer} {layers : List Layer} (ht : Turned i ctx₀ osd₀ ctx₁ osd₁ l)
    (hl : Looped (i + 1) ctx₁ osd₁ ctx₂ osd₂ layers) :
    Looped i ctx₀ osd₀ ctx₂ osd₂ (l :: layers) where
  fbWidth := hl.fbWidth.trans ht.fbWidth
  fbHeight := hl.fbHeight.trans ht.fbHeight
  marked := List.forall_mem_cons.mpr ⟨ht.marked, hl.marked⟩
  fbLayerCount := by
    rw [hl.fbLayerCount, ht.fbLayerCount, countP_cons_toNat, Nat.add_assoc]
  video := by rw [hl.video, ht.video, countP_cons_toNat, Nat.add_assoc]
  osd := by rw [hl.osd, ht.osd, countP_cons_toNat, Nat.add_assoc]
  overlay := by
    have hcons := hl.overlay
    have hturn := ht.overlay
    rw [countP_cons_toNat, countP_cons_toNat, countP_cons_toNat]
    omega
  kept := fun h => by
    have hflag : ctx₁.osdOverlayFlag = true := by
      have hosd := ht.osd
      rw [h] at hosd
      cases hflag : ctx₁.osdOverlayFlag with
      | true => rfl
      | false =>
          rw [hflag] at hosd
          simp only [Bool.toNat_false, Bool.toNat_true] at hosd
          omega
    rw [hl.kept hflag, ht.kept h]
  found := fun h h' => by
    cases hflag : ctx₁.osdOverlayFlag with
    | true =>
        obtain ⟨hptr, hmark⟩ := ht.found h hflag
        exact ⟨0, l, by rw [hl.kept hflag, hptr, Nat.add_zero], rfl, hmark⟩
    | false =>
        obtain ⟨j, l', hptr, hget, hmark⟩ := hl.found hflag h'
        refine ⟨j + 1, l', ?_, hget, hmark⟩
        rw [hptr, Nat.add_right_comm, Nat.add_assoc]

theorem prepareLoop_cons (b : Build) (n i : ℕ) (ctx : Context) (osd : Option ℕ) (l : Layer)
    (rest : List Layer) :
    prepareLoop b n i ctx osd (l :: rest) =
      ((prepareLoop b n (i + 1) (prepareLayer b n ctx l).1
          (if (prepareLayer b n ctx l).2 = .osd then some i else osd) rest).1,
        (prepareLoop b n (i + 1) (prepareLayer b n ctx l).1
          (if (prepareLayer b n ctx l).2 = .osd then some i else osd) rest).2.1,
        l.mark (prepareLayer b n ctx l).2 ::
          (prepareLoop b n (i + 1) (prepareLayer b n ctx l).1
            (if (prepareLayer b n ctx l).2 = .osd then some i else osd) rest).2.2) := rfl

theorem looped_prepareLoop (b : Build) (n i : ℕ) (ctx : Context) (osd : Option ℕ)
    (layers : List Layer) :
    Looped i ctx osd (prepareLoop b n i ctx osd layers).1
      (prepareLoop b n i ctx osd layers).2.1 (prepareLoop b n i ctx osd layers).2.2 := by
  induction layers generalizing i ctx osd with
  | nil =>
      refine ⟨rfl, rfl, nofun, rfl, rfl, rfl, rfl, fun _ => rfl, fun h h' => ?_⟩
      rw [show (prepareLoop b n i ctx osd []).1 = ctx from rfl, h] at h'
      cases h'
  | cons l rest ih =>
      rw [prepareLoop_cons]
      exact (turned_prepareLayer b n i ctx osd l).cons (ih _ _ _)

/-! ### The geometry -/

theorem prepareLayer_geometry (b : Build) (n : ℕ) (ctx : Context) (l : Layer) :
    (prepareLayer b n ctx l).1.geometry =
      (written ctx.fbWidth ctx.fbHeight l).getD ctx.geometry := by
  rcases prepareLayer_cases b n ctx l with ⟨heq, -⟩ | ⟨heq, -⟩ | ⟨heq, -⟩ <;> rw [heq]

theorem prepareLoop_geometry (b : Build) (n i : ℕ) (ctx : Context) (osd : Option ℕ)
    (layers : List Layer) :
    (prepareLoop b n i ctx osd layers).1.geometry =
      ((layers.filterMap (written ctx.fbWidth ctx.fbHeight)).getLast?).getD ctx.geometry := by
  induction layers generalizing i ctx osd with
  | nil => rfl
  | cons l rest ih =>
      have hturn := turned_prepareLayer b n i ctx osd l
      rw [prepareLoop_cons, ih, hturn.fbWidth, hturn.fbHeight, prepareLayer_geometry,
        List.filterMap_cons]
      cases hw : written ctx.fbWidth ctx.fbHeight l with
      | none => rfl
      | some g =>
          rw [List.getLast?_cons]
          cases (rest.filterMap (written ctx.fbWidth ctx.fbHeight)).getLast? <;> rfl

/-- The video layer has the geometry of the context exactly if no later layer disturbs
it. -/
theorem prepareLoop_video_iff (b : Build) (n i : ℕ) (ctx : Context) (osd : Option ℕ)
    (layers : List Layer) :
    (∀ l ∈ (prepareLoop b n i ctx osd layers).2.2, l.isVideo = true →
        written ctx.fbWidth ctx.fbHeight l =
          some (prepareLoop b n i ctx osd layers).1.geometry) ↔
      (ctx.videoOverlayFlag = false → Undisturbed ctx.fbWidth ctx.fbHeight layers) := by
  induction layers generalizing i ctx osd with
  | nil => exact iff_of_true nofun fun _ => trivial
  | cons l rest ih =>
      have hturn := turned_prepareLayer b n i ctx osd l
      have hrest := ih (i + 1) (prepareLayer b n ctx l).1
        (if (prepareLayer b n ctx l).2 = .osd then some i else osd)
      have hloop := prepareLoop_geometry b n (i + 1) (prepareLayer b n ctx l).1
        (if (prepareLayer b n ctx l).2 = .osd then some i else osd) rest
      rw [hturn.fbWidth, hturn.fbHeight] at hrest hloop
      rw [prepareLoop_cons, List.forall_mem_cons, Undisturbed]
      dsimp only
      rw [written_mark, hrest]
      rcases prepareLayer_cases b n ctx l with ⟨heq, hacc⟩ | ⟨heq, hacc, hflag, hvideo, -⟩ |
        ⟨heq, hacc, -, hvideo, -⟩
      · rw [heq]
        constructor
        · rintro ⟨-, himp⟩ hflag
          rw [if_neg fun hcon => by rw [hacc hcon] at hflag; cases hflag]
          exact himp hflag
        · intro himp
          refine ⟨fun hcon => Bool.noConfusion hcon, fun hflag => ?_⟩
          have hboth := himp hflag
          rwa [if_neg fun hcon => by rw [hacc hcon] at hflag; cases hflag] at hboth
      · obtain ⟨g, hg⟩ : ∃ g, written ctx.fbWidth ctx.fbHeight l = some g := by
          cases hw : written ctx.fbWidth ctx.fbHeight l with
          | none =>
              rw [accepted, hw] at hacc
              cases hacc
          | some g => exact ⟨g, rfl⟩
        rw [hloop, heq, if_pos hacc, hg]
        simp only [hvideo, hflag, true_implies, Option.getD_some, Bool.true_eq_false,
          false_implies, and_true]
        cases (rest.filterMap (written ctx.fbWidth ctx.fbHeight)).getLast? with
        | none => simp
        | some g' => simp
      · rw [heq]
        simp only [hvideo, hacc, Bool.false_eq_true, false_implies, true_and, if_false]

/-! ### The plan -/

/-- The context that the loop of `hwc_prepare` begins with. -/
def Context.cleared (ctx : Context) : Context :=
  { ctx with fbLayerCount := 0, osdOverlayFlag := false, videoOverlayFlag := false }

theorem hwcPrepare_of_kept {b : Build} {ctx : Context} {layers : List Layer}
    {ctx' : Context} {ptr : Option ℕ} {layers' : List Layer}
    (hloop : prepareLoop b layers.length 0 ctx.cleared none layers = (ctx', ptr, layers'))
    (h : ¬ (ctx'.osdOverlayFlag = true ∧ ctx'.videoOverlayFlag = false)) :
    hwcPrepare b ctx layers = ({ ctx' with preFbLayerCount := ctx'.fbLayerCount }, layers') := by
  unfold Context.cleared at hloop
  unfold hwcPrepare
  dsimp only
  rw [hloop]
  dsimp only
  rw [if_neg h]

theorem hwcPrepare_of_abandoned {b : Build} {ctx : Context} {layers : List Layer}
    {ctx' : Context} {i : ℕ} {layers' : List Layer}
    (hloop : prepareLoop b layers.length 0 ctx.cleared none layers = (ctx', some i, layers'))
    (h : ctx'.osdOverlayFlag = true ∧ ctx'.videoOverlayFlag = false) :
    hwcPrepare b ctx layers =
      ({ ctx' with
          osdOverlayFlag := false
          fbLayerCount := ctx'.fbLayerCount + 1
          preFbLayerCount := ctx'.fbLayerCount + 1 },
        layers'.modify i (·.mark .none)) := by
  unfold Context.cleared at hloop
  unfold hwcPrepare
  dsimp only
  rw [hloop]
  dsimp only
  rw [if_pos h]

theorem countP_modify_add (p : Layer → Bool) {layers : List Layer} {i : ℕ} {l : Layer}
    (h : layers[i]? = some l) (f : Layer → Layer) :
    (layers.modify i f).countP p + (p l).toNat = layers.countP p + (p (f l)).toNat := by
  rw [List.modify_eq_set_getElem?, h]
  exact Tokens.countP_set_add p h (f l)

theorem mem_modify {layers : List Layer} {i : ℕ} {f : Layer → Layer} {l : Layer}
    (h : l ∈ layers.modify i f) : l ∈ layers ∨ ∃ k ∈ layers, l = f k := by
  obtain ⟨j, hj⟩ := List.mem_iff_getElem?.mp h
  rw [List.getElem?_modify] at hj
  obtain ⟨k, hk, rfl⟩ := Option.map_eq_some_iff.mp hj
  split
  · exact .inr ⟨k, List.mem_of_getElem? hk, rfl⟩
  · exact .inl (List.mem_of_getElem? hk)

theorem isOsd_iff {l : Layer} : l.isOsd = true ↔
    l.compositionType = .overlay ∧ l.handle.any (·.format = .rgba8888) = true := by
  rw [Layer.isOsd, Bool.and_eq_true, decide_eq_true_iff]

theorem isVideo_of_isOsd {l : Layer} (h : l.isOsd = true) : l.isVideo = false := by
  obtain ⟨hoverlay, hformat⟩ := isOsd_iff.mp h
  unfold Layer.isVideo
  cases hhandle : l.handle with
  | none => simp
  | some p =>
      rw [hhandle, Option.any_some, decide_eq_true_iff] at hformat
      simp [hformat]

/-- The plan is consistent exactly if no layer behind the video layer disturbs its
geometry. -/
theorem consistent_hwcPrepare_iff (b : Build) (ctx : Context) (layers : List Layer) :
    Consistent (hwcPrepare b ctx layers).1 (hwcPrepare b ctx layers).2 ↔
      Undisturbed ctx.fbWidth ctx.fbHeight layers := by
  have hlooped := looped_prepareLoop b layers.length 0 ctx.cleared none layers
  have hgeometry := prepareLoop_video_iff b layers.length 0 ctx.cleared none layers
  generalize hloop : prepareLoop b layers.length 0 ctx.cleared none layers = r
    at hlooped hgeometry
  obtain ⟨ctx', ptr, layers'⟩ := r
  dsimp only at hlooped hgeometry
  have hvideo : ctx'.videoOverlayFlag.toNat = layers'.countP (·.isVideo) := by
    rw [hlooped.video, Context.cleared, Bool.toNat_false, Nat.zero_add]
  have hosd : ctx'.osdOverlayFlag.toNat = layers'.countP (·.isOsd) := by
    rw [hlooped.osd, Context.cleared, Bool.toNat_false, Nat.zero_add]
  have hcount : ctx'.fbLayerCount = layers'.countP (·.isFramebuffer) := by
    rw [hlooped.fbLayerCount, Context.cleared, Nat.zero_add]
  have hiff : (∀ l ∈ layers', l.isVideo = true →
      written ctx'.fbWidth ctx'.fbHeight l = some ctx'.geometry) ↔
      Undisturbed ctx.fbWidth ctx.fbHeight layers := by
    rw [hlooped.fbWidth, hlooped.fbHeight, hgeometry]
    exact ⟨fun h => h rfl, fun h _ => h⟩
  by_cases halone : ctx'.osdOverlayFlag = true ∧ ctx'.videoOverlayFlag = false
  · obtain ⟨j, l, hptr, hget, hmark⟩ := hlooped.found rfl halone.1
    rw [Nat.zero_add] at hptr
    subst hptr
    rw [hwcPrepare_of_abandoned hloop halone]
    have hoverlay := (isOsd_iff.mp hmark).1
    have hnone : layers'.countP (·.isVideo) = 0 := by rw [← hvideo, halone.2, Bool.toNat_false]
    have hone : layers'.countP (·.isOsd) = 1 := by rw [← hosd, halone.1, Bool.toNat_true]
    have hfb' := countP_modify_add (·.isFramebuffer) hget (·.mark .none)
    have hvideo' := countP_modify_add (·.isVideo) hget (·.mark .none)
    have hosd' := countP_modify_add (·.isOsd) hget (·.mark .none)
    have hoverlay' := countP_modify_add (·.compositionType = .overlay) hget (·.mark .none)
    have hall := hlooped.overlay
    rw [Layer.isFramebuffer, hoverlay, isFramebuffer_mark] at hfb'
    rw [isVideo_of_isOsd hmark, isVideo_mark_none] at hvideo'
    rw [hmark, isOsd_mark_none] at hosd'
    rw [hoverlay, Layer.mark] at hoverlay'
    simp only [reduceCtorEq, decide_false, decide_true, Bool.toNat_false, Bool.toNat_true,
      if_true] at hfb' hvideo' hosd' hoverlay'
    have hnone' : (layers'.modify j (·.mark .none)).countP (·.isVideo) = 0 := by omega
    refine iff_of_true ⟨?_, ?_, ?_, ?_, ?_, fun hcon => ?_, ?_⟩ ?_
    · intro k hk
      rcases mem_modify hk with hk | ⟨k', -, rfl⟩
      · exact hlooped.marked k hk
      · exact .inl rfl
    · dsimp only
      omega
    · rw [hnone']
      exact hvideo.trans hnone
    · dsimp only
      rw [Bool.toNat_false]
      omega
    · dsimp only
      omega
    · cases hcon
    · intro k hk hvid
      exact absurd hvid (List.countP_eq_zero.mp hnone' k hk)
    · refine hiff.mp fun k hk hvid => ?_
      exact absurd hvid (List.countP_eq_zero.mp hnone k hk)
  · rw [hwcPrepare_of_kept hloop halone, ← hiff]
    refine ⟨fun h => h.geometry, fun h => ⟨hlooped.marked, hcount, hvideo, hosd,
      hlooped.overlay, fun hflag => ?_, h⟩⟩
    by_contra hcon
    exact halone ⟨hflag, by simpa using hcon⟩

/-- A video layer with an image of `w` by `h`, shown unscaled from line `top` on. -/
def videoLayer (w h top : Int32) : Layer where
  compositionType := .framebuffer
  flags := 0
  handle := some
    { flags := PRIV_FLAGS_USES_PHY, format := .yCbCr420Sp, width := w, height := h,
      phyaddr := 0, base := 0 }
  transform := 0
  blending := HWC_BLENDING_NONE
  sourceCrop := ⟨0, 0, w, h⟩
  displayFrame := ⟨0, top, w, top + h⟩

def screen : Context where
  fbLayerCount := 0
  fbWidth := 480
  fbHeight := 800
  preFbLayerCount := 0
  osdOverlayFlag := false
  videoOverlayFlag := false
  geometry :=
    { imgW := 0, imgH := 0, format := .other 0, srcRect := ⟨0, 0, 0, 0⟩,
      fbRect := ⟨0, 0, 0, 0⟩ }
  overlayPhyAddr := 0x8000000
  overlayBufSize := 0x8d000
  overlayIndex := 0
  overlayPhyAddr2 := 0x9000000
  overlayBufSize2 := 0x177000
  overlayIndex2 := 0
  osdSyncDisplay := false

def sc8825 : Build where
  allocOsdBuf := true
  dmaCopyOsdLayer := true
  supportSyncDisp := true

/-- Of two video layers the first is marked for the overlay, and the context has the
geometry of the second. -/
theorem geometry_of_other_layer :
    let plan := hwcPrepare sc8825 screen [videoLayer 320 240 0, videoLayer 176 144 400]
    plan.2.map (·.compositionType) = [.overlay, .framebuffer] ∧
      some plan.1.geometry = written 480 800 (videoLayer 176 144 400) ∧
      some plan.1.geometry ≠ written 480 800 (videoLayer 320 240 0) := by
  decide +kernel

end Hwc

end Tarako
