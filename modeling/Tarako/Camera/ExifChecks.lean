import Tarako.Camera.ExifRanges

/-!
# What the EXIF writer notices

A call reports that the segment does not fit only where it looks at the write that fails. It
does so for the records, the pointers between the directories and the values that are written
as rationals; but not for a byte or a short of another value, and not for a position behind the
buffer at which a directory or the thumbnail is to begin. `FirstNoticed` says that the first
byte of a layout that is not in the buffer is one that is looked at.
-/

namespace Tarako

namespace Exif

open Prog

variable {α β : Type} {n : ℕ} {s t : Context} {d : Dir} {l r : List (Store Part)}

/-! ## The first byte that is not in the buffer -/

/-- The fields whose values `Jpeg_WriteRationalIFD` writes. -/
def rationalTags : List IfdTag :=
  [.xResolution, .yResolution, .whitePoint, .primaryChromaticities, .yCbCrCoefficients,
    .referenceBlackWhite, .exposureTime, .fNumber, .compressedBitsPerPixel, .shutterSpeedValue,
    .apertureValue, .brightnessValue, .exposureBiasValue, .maxApertureValue, .subjectDistance,
    .focalLength, .subjectArea, .flashEnergy, .focalPlaneXResolution, .focalPlaneYResolution,
    .exposureIndex, .digitalZoomRatio, .gpsLatitude, .gpsLongitude, .gpsAltitude, .gpsTimeStamp,
    .gpsDop, .gpsSpeed, .gpsTrack, .gpsImgDirection, .gpsDestLatitude, .gpsDestLongitude,
    .gpsDestBearing, .gpsDestDistance]

/-- Whether a call fails at a byte behind a buffer of `n` bytes when it has stored all bytes
before it. A directory or the thumbnail has to begin in the buffer or at its end; a value that
is not written as rationals has to begin behind that. -/
def Noticed (n : ℕ) (w : Store Part) : Prop :=
  match w.key with
  | .count _ | .thumbnail => w.addr = n
  | .value _ tag => tag ∈ rationalTags ∨ n < w.addr
  | _ => True

/-- Not all bytes are in the buffer, and the first that is not is noticed. -/
def FirstNoticed (n : ℕ) (l : List (Store Part)) : Prop :=
  ∃ w, l.find? (fun w => decide (n ≤ w.addr)) = some w ∧ Noticed n w

theorem not_firstNoticed_nil : ¬ FirstNoticed n [] := by
  rintro ⟨w, hfind, -⟩
  exact absurd hfind nofun

theorem FirstNoticed.append (h : FirstNoticed n (l ++ r)) :
    FirstNoticed n l ∨ ((∀ w ∈ l, w.addr < n) ∧ FirstNoticed n r) := by
  obtain ⟨w, hfind, hw⟩ := h
  rw [List.find?_append] at hfind
  cases hl : l.find? (fun w => decide (n ≤ w.addr)) with
  | some w' =>
      rw [hl, Option.some_or, Option.some_inj] at hfind
      exact .inl ⟨w', hl, hfind ▸ hw⟩
  | none =>
      rw [hl, Option.none_or] at hfind
      refine .inr ⟨fun w' hw' => ?_, w, hfind, hw⟩
      have hnone := List.find?_eq_none.mp hl w' hw'
      simpa using hnone

theorem FirstNoticed.of_block {part : Part} {a : ℕ} {bytes : List UInt8}
    (h : FirstNoticed n (Store.block part a bytes)) :
    n < a + bytes.length ∧ ∃ byte, Noticed n ⟨part, max a n, byte⟩ := by
  induction bytes generalizing a with
  | nil => exact absurd h not_firstNoticed_nil
  | cons b bytes ih =>
      obtain ⟨w, hfind, hw⟩ := h
      rw [Store.block, List.find?_cons] at hfind
      rw [List.length_cons]
      by_cases hle : n ≤ a
      · rw [decide_eq_true hle, Option.some_inj] at hfind
        refine ⟨by omega, b, ?_⟩
        rw [Nat.max_eq_left hle, hfind]
        exact hw
      · rw [decide_eq_false hle] at hfind
        obtain ⟨hlt, byte, hnoticed⟩ := ih ⟨w, hfind, hw⟩
        rw [show max (a + 1) n = max a n by omega] at hnoticed
        exact ⟨by omega, byte, hnoticed⟩

/-! ## Parts of a directory -/

/-- The run does not succeed. -/
def Fails (m : W α) (s : Context) : Prop := wp (fun _ => True) m (fun _ _ => False) s

theorem Fails.bind {m : W α} (h : Fails m s) (f : α → W β) : Fails (m >>= f) s := by
  rw [Fails, wp_bind]
  exact wp_mono h (fun _ he => he) fun _ _ hfalse => hfalse.elim

theorem fails_bind {m : W α} {f : α → W β} {E : Failure → Prop} {Q : α → Context → Prop}
    (h : wp E m Q s) (hf : ∀ a t, Q a t → Fails (f a) t) : Fails (m >>= f) s := by
  rw [Fails, wp_bind]
  exact wp_mono h (fun _ _ => trivial) hf

theorem fails_of_wp {m : W α} {E : Failure → Prop} {Q : α → Context → Prop} (h : wp E m Q s)
    (hQ : ∀ a t, ¬ Q a t) : Fails m s :=
  wp_mono h (fun _ _ => trivial) hQ

/-- A part of a directory follows its plan, and fails where the first byte that is not in the
buffer is noticed. -/
structure Halts (d : Dir) (m : Cursor → W Cursor) (p : Plan) (tags : List IfdTag) : Prop where
  tracks : Tracks d m p tags
  fails : ∀ (c : Cursor) (s : Context), c.ifdOffset ≤ s.size →
    FirstNoticed s.size (p.place c.ifdOffset c.valueOffset).stores → Fails (m c) s

theorem Tracks.wp_follows {m : Cursor → W Cursor} {p : Plan} {tags : List IfdTag}
    (h : Tracks d m p tags) {c : Cursor} (hle : c.ifdOffset ≤ s.size)
    (hfits : (p.place c.ifdOffset c.valueOffset).Fits s.size) :
    wp (fun _ => True) (m c) (Follows p c s) s := by
  refine wp_mono (h.follows [] c s (fun _ _ => List.not_mem_nil) hle) (fun _ _ => trivial) ?_
  rintro c' t (⟨-, hfollows⟩ | ⟨hfull, -⟩)
  · exact hfollows
  · exact absurd hfits hfull

theorem halts_nil (d : Dir) : Halts d pure .nil [] :=
  ⟨tracks_nil d, fun _ _ _ h => absurd h not_firstNoticed_nil⟩

theorem Halts.seq {m m' : Cursor → W Cursor} {p p' : Plan} {tags tags' : List IfdTag}
    (h : Halts d m p tags) (h' : Halts d m' p' tags') (htags : ∀ tag ∈ tags, tag ∉ tags') :
    Halts d (fun c => m c >>= m') (p.seq p') (tags ++ tags') := by
  refine ⟨h.tracks.seq h'.tracks htags, fun c s hle hfirst => ?_⟩
  obtain hfirst | ⟨hfits, hfirst⟩ := FirstNoticed.append hfirst
  · exact (h.fails c s hle hfirst).bind m'
  · refine fails_bind (h.tracks.wp_follows hle hfits) fun c' t hfollows => ?_
    obtain ⟨-, hifd, hvalue, hsize, -, hinside⟩ := hfollows
    refine h'.fails c' t (hsize ▸ hinside) ?_
    rw [hsize, hifd, hvalue]
    exact hfirst

/-- The field is among `rationalTags` exactly when its writer is that of rationals. -/
def Block.Known (b : Block) : Prop := b.writer = .rational ↔ b.tag ∈ rationalTags

instance (b : Block) : Decidable b.Known :=
  inferInstanceAs (Decidable (b.writer = .rational ↔ b.tag ∈ rationalTags))

theorem halts_field {b : Block} (hb : b.Sound) (hknown : b.Known) :
    Halts d (writeField d b) (b.plan d) [b.tag] := by
  refine ⟨tracks_field hb, fun c s hle hfirst => ?_⟩
  cases hsupplied : b.supplied with
  | false =>
      rw [plan_of_not_supplied hsupplied] at hfirst
      exact absurd hfirst not_firstNoticed_nil
  | true =>
      rw [place_plan hsupplied] at hfirst
      rw [writeField, if_pos hsupplied]
      refine Fails.bind (fails_of_wp (wp_write d b c.ifdOffset c.valueOffset s) ?_) _
      rintro p t ⟨hroom, hcases⟩
      obtain hfirst | ⟨-, hfirst⟩ := FirstNoticed.append hfirst
      · have hlt : s.size < c.ifdOffset + 12 := hfirst.of_block.1
        omega
      rw [Block.value] at hfirst
      obtain ⟨hin, -⟩ | ⟨hout, hfit, -⟩ | ⟨hout, hfull, hlax, hv, -⟩ := hcases
      · rw [hin] at hfirst
        exact absurd hfirst not_firstNoticed_nil
      · rw [hout] at hfirst
        exact absurd hfirst.of_block.1 (Nat.not_lt.mpr hfit)
      · rw [hout] at hfirst
        obtain ⟨-, byte, hrational | hbehind⟩ := hfirst.of_block
        · rw [hknown.mpr hrational] at hlax
          exact absurd hlax (by decide)
        · rw [Nat.max_eq_right hv] at hbehind
          exact absurd hbehind (Nat.lt_irrefl _)

theorem halts_fields (blocks : List Block) (hsound : ∀ b ∈ blocks, b.Sound)
    (hknown : (blocks.all fun b => decide b.Known) = true)
    (hnodup : (blocks.map Block.tag).Nodup) :
    Halts d (writeFields d blocks) (fieldsPlan d blocks) (blocks.map Block.tag) := by
  induction blocks with
  | nil => exact halts_nil d
  | cons b blocks ih =>
      rw [List.map_cons, List.nodup_cons] at hnodup
      rw [List.all_cons, Bool.and_eq_true] at hknown
      refine (halts_field (hsound b List.mem_cons_self) (of_decide_eq_true hknown.1)).seq
        (ih (fun b' hb' => hsound b' (List.mem_cons_of_mem _ hb')) hknown.2 hnodup.2)
        fun tag htag => ?_
      rw [List.mem_singleton.mp htag]
      exact hnodup.1

/-! ## Directories -/

/-- A directory follows its layout, and fails where the first byte that is not in the buffer
is noticed. -/
structure HaltsDir (d : Dir) (write : ℕ → W ℕ) (sub : ℕ → Placed) : Prop where
  tracks : TracksDir d write sub
  fails : ∀ (b : ℕ) (s : Context), s.pos ≤ s.size → FirstNoticed s.size (sub b).stores →
    Fails (write b) s

theorem halts_pointer {d' : Dir} {tag : IfdTag} {write : ℕ → W ℕ} {sub : ℕ → Placed}
    (h : HaltsDir d' write sub) :
    Halts d (writePointer d tag write) (pointerPlan d tag sub) [tag] := by
  refine ⟨tracks_pointer h.tracks, fun c s hle hfirst => ?_⟩
  rw [writePointer]
  refine fails_bind (wp_writeLongIFD d tag c.ifdOffset (align4 c.valueOffset) _ s) ?_
  rintro p t ⟨hroom, rfl, rfl⟩
  obtain hfirst | ⟨-, hfirst⟩ := FirstNoticed.append hfirst
  · have hlt : s.size < c.ifdOffset + 12 := hfirst.of_block.1
    omega
  · have hbegin : ((s.seek c.ifdOffset).put (.record d tag)
        (pointerRecord tag (align4 c.valueOffset - IFH))).pos ≤ s.size := hroom
    exact (h.fails _ _ hbegin hfirst).bind _

theorem halts_optional (d : Dir) (tag : IfdTag) {d' : Dir} {write : α → ℕ → W ℕ}
    {sub : α → ℕ → Placed} (h : ∀ info, HaltsDir d' (write info) (sub info)) (info : Option α) :
    Halts d (writeOptional d tag write info) (optionalPlan d tag sub info) [tag] := by
  cases info with
  | none =>
      exact ⟨tracks_optional d tag (fun info => (h info).tracks) none,
        fun _ _ _ hfirst => absurd hfirst not_firstNoticed_nil⟩
  | some info => exact halts_pointer (h info)

/-- The number of records is noticed where its position is in the buffer or at its end. -/
theorem FirstNoticed.of_count {b x : ℕ} (h : FirstNoticed n (Store.block (.count d) b (be16 x))) :
    n < b + 2 ∧ b ≤ n := by
  obtain ⟨hlt, byte, haddr⟩ := h.of_block
  have haddr' : max b n = n := haddr
  exact ⟨hlt, by omega⟩

/-- Where the first byte of a directory that is not in the buffer may be: in the number of
records, in the entries or in the pointer to the next directory. -/
theorem firstNoticed_directoryLayout {reserved : ℕ} {p : Plan} {next : ℕ → ℕ} {b : ℕ}
    (h : FirstNoticed n (directoryLayout d reserved p next b).stores) :
    (n < b + 2 ∧ b ≤ n) ∨ (b + 2 ≤ n ∧
      (FirstNoticed n (p.place (b + 2) (align4 (b + 2 + reserved * IFD_HEAD_LENGTH + 4))).stores ∨
        ((p.place (b + 2) (align4 (b + 2 + reserved * IFD_HEAD_LENGTH + 4))).Fits n ∧
          n < b + 2 + 12 * p.entries + 4))) := by
  have hroom : ∀ {x : ℕ}, (∀ w ∈ Store.block (Part.count d) b (be16 x), w.addr < n) → b + 2 ≤ n :=
    fun {x} hall => (@fits_block (.count d) b (be16 x) (List.cons_ne_nil _ _) n 0).mp hall
  obtain h | ⟨hall, h⟩ := h.append
  · obtain h | ⟨hall, h⟩ := h.append
    · obtain h | ⟨hcount, h⟩ := h.append
      · exact .inl h.of_count
      · exact .inr ⟨hroom hcount, .inl h⟩
    · have hcount := hroom fun w hw => hall w (List.mem_append_left _ hw)
      have hfits : (p.place (b + 2) (align4 (b + 2 + reserved * IFD_HEAD_LENGTH + 4))).Fits n :=
        fun w hw => hall w (List.mem_append_right _ hw)
      exact .inr ⟨hcount, .inr ⟨hfits, h.of_block.1⟩⟩
  · have hcount := hroom fun w hw =>
      hall w (List.mem_append_left _ (List.mem_append_left _ hw))
    exact absurd h.of_count.1 (Nat.not_lt.mpr hcount)

theorem haltsDir_directory {reserved : ℕ} {body : Cursor → W Cursor} {p : Plan}
    {tags : List IfdTag} (h : Halts d body p tags) (next : ℕ → ℕ) :
    HaltsDir d (writeDirectory d reserved body next) (directoryLayout d reserved p next) := by
  refine ⟨tracksDir_directory h.tracks next, fun b s hpos hfirst => ?_⟩
  change Fails (setWritePos b >>= fun _ => must (writeW (.count d) reserved) >>= fun _ =>
    getWritePos >>= fun o => body ⟨0, o, align4 (o + reserved * IFD_HEAD_LENGTH + 4)⟩ >>=
      writeFinish d next b) s
  have hfirst' := firstNoticed_directoryLayout hfirst
  have hb : b ≤ s.size := by
    obtain hcount | hrest := hfirst'
    · exact hcount.2
    · omega
  rw [Fails, wp_bind, wp_setWritePos]
  refine ⟨fun hfull => absurd hb (Nat.not_le.mpr hfull), fun _ => ?_⟩
  rw [wp_bind, (puts_writeW (.count d) reserved).must _ _ _ hb]
  refine ⟨fun hroom => ?_, fun _ => trivial⟩
  have hroom' : b + 2 ≤ s.size := hroom
  rw [wp_bind, wp_getWritePos]
  let c : Cursor := ⟨0, b + 2, align4 (b + 2 + reserved * IFD_HEAD_LENGTH + 4)⟩
  let u := (s.seek b).put (.count d) (be16 reserved)
  change Fails (body c >>= writeFinish d next b) u
  obtain ⟨hlt, -⟩ | ⟨-, hfirst | ⟨hfits, hlt⟩⟩ := hfirst'
  · omega
  · exact (h.fails c u hroom hfirst).bind _
  · refine fails_bind (h.tracks.wp_follows (c := c) (s := u) hroom hfits) fun c' t hfollows => ?_
    obtain ⟨-, hifd, -, hsize, -, hinside⟩ := hfollows
    have hsize' : t.size = s.size := hsize
    have hifd' : c'.ifdOffset = b + 2 + 12 * p.entries := hifd
    have hinside' : c'.ifdOffset ≤ t.size := hsize ▸ hinside
    refine fails_of_wp (wp_writeFinish d next (hsize'.symm ▸ hroom') hinside') ?_
    rintro e v ⟨hlast, -⟩
    omega

theorem haltsDir_inter (inter : InteroperabilityInfo) :
    HaltsDir .interop (writeExifInteroperabilityInfo inter) (interLayout inter) :=
  haltsDir_directory (halts_fields _ (sound_interFields inter) rfl (of_decide_eq_true rfl)) _

theorem haltsDir_gps (gps : GpsInfo) : HaltsDir .gps (writeExifGPSInfo gps) (gpsLayout gps) :=
  haltsDir_directory (halts_fields _ (sound_gpsFields gps) rfl (of_decide_eq_true rfl)) _

theorem haltsDir_spec (inter : Option InteroperabilityInfo) (spec : SpecificInfo) :
    HaltsDir .exif (writeExifSpecInfo inter spec) (specLayout inter spec) := by
  have hfields := halts_fields (d := .exif) _ (sound_specFields spec) rfl (of_decide_eq_true rfl)
  have hfields' := halts_fields (d := .exif) _ (sound_specFields' spec) rfl
    (of_decide_eq_true rfl)
  have hinter := halts_optional .exif .interoperabilityIfdPointer haltsDir_inter inter
  exact haltsDir_directory
    (hfields.seq (hinter.seq hfields' (of_decide_eq_true rfl)) (of_decide_eq_true rfl)) _

theorem haltsDir_ifd0 (info : ExifInfo) (isNextIfdExist : Bool) :
    HaltsDir .ifd0 (writeExifIFD .ifd0 info.primary info.spec info.gps info.inter []
        isNextIfdExist)
      (directoryLayout .ifd0 24 (ifd0Plan info) fun v =>
        if isNextIfdExist then v - IFH else 0) := by
  have hfields := halts_fields (d := .ifd0) _ (sound_primaryFields info.primary) rfl
    (of_decide_eq_true rfl)
  have hfields' := halts_fields (d := .ifd0) _ (sound_primaryFields' info.primary) rfl
    (of_decide_eq_true rfl)
  have hspec := halts_optional .ifd0 .exifIfdPointer (haltsDir_spec info.inter) info.spec
  have hgps := halts_optional .ifd0 .gpsIfdPointer haltsDir_gps info.gps
  have hbody := hfields.seq (hfields'.seq (hspec.seq hgps (of_decide_eq_true rfl))
    (of_decide_eq_true rfl)) (of_decide_eq_true rfl)
  have hnone : ∀ c, writeFields .ifd0 (thumbnailFields []) c = pure c := fun _ => rfl
  have hthumbnail : ∀ o c, writeThumbnail .ifd0 [] o c = pure c := fun _ _ => rfl
  rw [writeExifIFD]
  simp only [hnone, hthumbnail, pure_bind, bind_pure]
  exact haltsDir_directory hbody _

/-! ## The thumbnail -/

theorem halts_thumbnail {thumbnail : List UInt8} (hthumbnail : thumbnail ≠ []) :
    Halts .ifd1 (writeThumbnailEntries thumbnail) (thumbnailPlan thumbnail)
      ((thumbnailFields thumbnail).map Block.tag ++
        (primaryFields' ifd1Primary).map Block.tag) := by
  have hentries := (halts_fields (d := .ifd1) _ (sound_thumbnailFields thumbnail) rfl
    (of_decide_eq_true rfl)).seq (halts_fields (d := .ifd1) _ (sound_primaryFields' ifd1Primary)
      rfl (of_decide_eq_true rfl)) (of_decide_eq_true rfl)
  refine ⟨tracks_thumbnail hthumbnail, fun c s hle hfirst => ?_⟩
  let placed := ((fieldsPlan .ifd1 (thumbnailFields thumbnail)).seq
    (fieldsPlan .ifd1 (primaryFields' ifd1Primary))).place c.ifdOffset c.valueOffset
  have hfirst' : FirstNoticed s.size placed.stores ∨ (placed.Fits s.size ∧
      (s.size < placed.stop + thumbnail.length ∧ placed.stop ≤ s.size ∨
        s.size < c.ifdOffset + 12)) := by
    obtain hfirst | ⟨hall, hfirst⟩ := FirstNoticed.append hfirst
    · obtain hfirst | ⟨hfits, hfirst⟩ := hfirst.append
      · exact .inl hfirst
      · obtain ⟨hlt, byte, haddr⟩ := hfirst.of_block
        have haddr' : max placed.stop s.size = s.size := haddr
        exact .inr ⟨hfits, .inl ⟨hlt, by omega⟩⟩
    · have hfits : placed.Fits s.size := fun w hw => hall w (List.mem_append_left _ hw)
      exact .inr ⟨hfits, .inr hfirst.of_block.1⟩
  rw [writeThumbnailEntries]
  obtain hfirst | ⟨hfits, hlast⟩ := hfirst'
  · exact (hentries.fails c s hle hfirst).bind _
  have hrun := wp_and (hentries.tracks.wp_follows hle hfits) (wp_thumbnailEntries_pos c s)
  refine fails_bind hrun ?_
  rintro c₁ t ⟨⟨-, hifd, hvalue, hsize, -, hinside⟩, hpos⟩
  have hvalue' : c₁.valueOffset = placed.stop := hvalue
  rw [entries_thumbnailPlan hthumbnail] at hifd
  refine fails_of_wp (wp_writeThumbnail (d := .ifd1) hthumbnail hpos (hsize ▸ hinside)
    (show c.ifdOffset + 12 ≤ c₁.ifdOffset by omega)) ?_
  rintro c₂ u (⟨hroom, -⟩ | ⟨hfull, -⟩)
  · omega
  · omega

theorem haltsDir_ifd1 {thumbnail : List UInt8} (hthumbnail : thumbnail ≠ []) :
    HaltsDir .ifd1 (writeExifIFD .ifd1 ifd1Primary none none none thumbnail false)
      (ifd1Layout thumbnail) := by
  have hfields := halts_fields (d := .ifd1) _ (sound_primaryFields ifd1Primary) rfl
    (of_decide_eq_true rfl)
  have hbody := hfields.seq (halts_thumbnail hthumbnail) (of_decide_eq_true rfl)
  rw [writeExifIFD_ifd1]
  exact haltsDir_directory hbody _

/-! ## The segment -/

theorem fails_writeIFDs {info : ExifInfo} {thumbnail : List UInt8} (hsize : 10 ≤ s.size)
    (hfirst : s.size < 18 ∨ FirstNoticed s.size (ifdsLayout info thumbnail).stores) :
    Fails (writeIFDs info thumbnail) s := by
  rw [writeIFDs]
  refine fails_bind (wp_writeIFH hsize) ?_
  rintro _ t ⟨hroom, rfl, rfl⟩
  have hroom' : 18 ≤ s.size := hroom
  obtain hfull | hfirst := hfirst
  · omega
  let t := (s.seek IFH).put .ifh (be16 0x4d4d ++ be16 0x002a ++ be32 8)
  have hifd0 := haltsDir_ifd0 info (!thumbnail.isEmpty)
  have hfollows := hifd0.tracks.follows 18 t hroom
  by_cases hthumbnail : thumbnail = []
  · rw [ifdsLayout, if_pos (List.isEmpty_iff.mpr hthumbnail)] at hfirst
    exact (hifd0.fails 18 t hroom hfirst).bind _
  · have hnonempty : ¬ thumbnail.isEmpty = true := fun h => hthumbnail (List.isEmpty_iff.mp h)
    rw [ifdsLayout, if_neg hnonempty] at hfirst
    obtain hfirst | ⟨hfits, hfirst⟩ := hfirst.append
    · exact (hifd0.fails 18 t hroom hfirst).bind _
    refine fails_bind hfollows fun e u hu => ?_
    obtain ⟨-, rfl, hsize', hpos, -⟩ | ⟨hfull, -⟩ := hu
    · rw [if_neg hnonempty]
      have hsize'' : u.size = s.size := hsize'
      obtain ⟨w, hw, haddr, -⟩ := exists_record_ifd0Layout info thumbnail 18
      have hlt : w.addr < s.size := hfits w hw
      refine (haltsDir_ifd1 hthumbnail).fails _ u (by omega) ?_
      rw [hsize'']
      exact hfirst
    · exact absurd hfits hfull

/-! ## The calls that report -/

/-- The segment does not fit in the target buffer, or its length not in 16 bits. -/
def Oversized (info : ExifInfo) (thumbnail : List UInt8) (size : ℕ) : Prop :=
  size < (layout info thumbnail).stop ∨ 65535 < (layout info thumbnail).stop - 2

/-- A call does not succeed when the segment is too large. -/
def Reports (info : ExifInfo) (thumbnail : List UInt8) (size : ℕ) : Prop :=
  Oversized info thumbnail size → ∀ out, writeAPP1 (some size) (some info) thumbnail ≠ .ok out

/-- The segment is not too large, or the first byte of it that is not in the buffer is
noticed. -/
def Checked (info : ExifInfo) (thumbnail : List UInt8) (size : ℕ) : Prop :=
  ¬ Oversized info thumbnail size ∨ FirstNoticed size (layout info thumbnail).stores

theorem fails_writeSegment {info : ExifInfo} {thumbnail : List UInt8} {size : ℕ}
    (hsize : 10 ≤ size) (hfirst : FirstNoticed size (layout info thumbnail).stores) :
    Fails (writeSegment info thumbnail) ⟨size, 0, []⟩ := by
  refine Fails.bind (fails_writeIFDs hsize ?_) _
  obtain hfirst | ⟨-, hfirst⟩ := FirstNoticed.append hfirst
  · obtain hfirst | ⟨-, hfirst⟩ := hfirst.append
    · exact .inl hfirst.of_block.1
    · exact .inr hfirst
  · exact absurd hfirst.of_block.1 (Nat.not_lt.mpr hsize)

theorem writeAPP1_ne_ok {info : ExifInfo} {thumbnail : List UInt8} {size : ℕ}
    (hfirst : FirstNoticed size (layout info thumbnail).stores) (out : Output) :
    writeAPP1 (some size) (some info) thumbnail ≠ .ok out := by
  intro hrun
  rw [writeAPP1] at hrun
  by_cases hsize : size < 10
  · rw [if_pos hsize] at hrun
    cases hrun
  · rw [if_neg hsize] at hrun
    have hfails := fails_writeSegment (Nat.not_lt.mp hsize) hfirst
    rw [Fails, wp] at hfails
    cases hsegment : writeSegment info thumbnail ⟨size, 0, []⟩ with
    | error e =>
        rw [hsegment] at hrun
        cases hrun
    | ok p =>
        rw [hsegment] at hfails
        exact hfails

/-- A call reports that the segment is too large when the first byte of it that is not in the
buffer is noticed; and where all bytes are in the buffer, which does not say that the padding
behind them is or that the length fits, only when the segment is not too large. -/
theorem reports_of_checked (info : ExifInfo) (thumbnail : List UInt8) (size : ℕ) :
    (Checked info thumbnail size → Reports info thumbnail size) ∧
      ((layout info thumbnail).Fits size → Reports info thumbnail size →
        Checked info thumbnail size) := by
  constructor
  · rintro (hsmall | hfirst) hover out
    · exact absurd hover hsmall
    · exact writeAPP1_ne_ok hfirst out
  · intro hfits hreports
    exact .inl fun hover => hreports hover _ (writeAPP1_of_fits hfits)

theorem not_reports_copyrightInfo : ¬ ∀ (info : ExifInfo) (thumbnail : List UInt8) (size : ℕ),
    10 ≤ size → Reports info thumbnail size := by
  intro hall
  have hover : Oversized copyrightInfo [] 330 := .inl (by decide +kernel)
  have hend : (writeAPP1 (some 330) (some copyrightInfo) []).toOption.map Output.endOffset =
      some 328 := by decide +kernel
  cases hrun : writeAPP1 (some 330) (some copyrightInfo) [] with
  | error e =>
      rw [hrun] at hend
      exact absurd hend nofun
  | ok out => exact hall copyrightInfo [] 330 (by decide) hover out hrun

end Exif

end Tarako
