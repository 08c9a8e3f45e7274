import Tarako.Camera.ExifTrack

/-!
# The run of the EXIF writer

The directories of the segment follow their layouts, and so does the whole call: it stores
what `layout` says when that lies in the target buffer, and when it does not, a call that
succeeds has stored some byte for two parts.
-/

namespace Tarako

namespace Exif

open Prog

variable {s t : Context} {d : Dir}

/-! ## The tables -/

theorem Block.sound_of_pos {b : Block} (h : b.supplied = true → 0 < b.count) : b.Sound := by
  intro hsupplied _
  obtain ⟨n, hn⟩ := Nat.exists_eq_succ_of_ne_zero (Nat.ne_of_gt (h hsupplied))
  rw [Block.elements, Writer.elements, hn, List.range_succ_eq_map, List.flatMap_cons]
  cases b.writer <;> exact List.cons_ne_nil _ _

theorem sound_of_forall_pos {blocks : List Block}
    (h : ∀ b ∈ blocks, b.supplied = true → 0 < b.count) : ∀ b ∈ blocks, b.Sound :=
  fun b hb => Block.sound_of_pos (h b hb)

theorem sound_primaryFields (primary : PrimaryInfo) : ∀ b ∈ primaryFields primary, b.Sound :=
  sound_of_forall_pos (by
    simp [primaryFields, Field.rational, Field.rationalArray, Field.short, Field.shortArray,
      Field.ascii, Field.asciiArray])

theorem sound_thumbnailFields (thumbnail : List UInt8) :
    ∀ b ∈ thumbnailFields thumbnail, b.Sound :=
  sound_of_forall_pos (by simp [thumbnailFields])

theorem sound_primaryFields' (primary : PrimaryInfo) : ∀ b ∈ primaryFields' primary, b.Sound :=
  sound_of_forall_pos (by
    simp [primaryFields', Field.short, Field.rationalArray, Field.ascii])

theorem sound_specFields (spec : SpecificInfo) : ∀ b ∈ specFields spec, b.Sound :=
  sound_of_forall_pos (by
    simp [specFields, Field.rational, Field.srational, Field.short, Field.long, Field.ascii,
      Field.asciiArray, Field.undefinedArray, Field.custom, UInt32.lt_iff_toNat_lt])

theorem sound_specFields' (spec : SpecificInfo) : ∀ b ∈ specFields' spec, b.Sound :=
  sound_of_forall_pos (by
    simp [specFields', Field.rational, Field.short, Field.shortArray, Field.asciiArray,
      Field.undefined, Field.custom, UInt32.lt_iff_toNat_lt])

theorem sound_gpsFields (gps : GpsInfo) : ∀ b ∈ gpsFields gps, b.Sound :=
  sound_of_forall_pos (by
    simp [gpsFields, Field.rational, Field.rationalArray, Field.short, Field.ascii,
      Field.asciiArray, Field.byte, Field.byteArray, Field.custom, UInt32.lt_iff_toNat_lt])

theorem sound_interFields (inter : InteroperabilityInfo) : ∀ b ∈ interFields inter, b.Sound :=
  sound_of_forall_pos (by simp [interFields, Field.custom, UInt32.lt_iff_toNat_lt])

/-! ## The directories -/

theorem tracksDir_inter (inter : InteroperabilityInfo) :
    TracksDir .interop (writeExifInteroperabilityInfo inter) (interLayout inter) :=
  tracksDir_directory (tracks_fields _ (sound_interFields inter) (of_decide_eq_true rfl)) _

theorem tracksDir_gps (gps : GpsInfo) : TracksDir .gps (writeExifGPSInfo gps) (gpsLayout gps) :=
  tracksDir_directory (tracks_fields _ (sound_gpsFields gps) (of_decide_eq_true rfl)) _

theorem tracksDir_spec (inter : Option InteroperabilityInfo) (spec : SpecificInfo) :
    TracksDir .exif (writeExifSpecInfo inter spec) (specLayout inter spec) := by
  have hfields := tracks_fields (d := .exif) _ (sound_specFields spec) (of_decide_eq_true rfl)
  have hfields' := tracks_fields (d := .exif) _ (sound_specFields' spec) (of_decide_eq_true rfl)
  have hinter := tracks_optional .exif .interoperabilityIfdPointer tracksDir_inter inter
  exact tracksDir_directory
    (hfields.seq (hinter.seq hfields' (of_decide_eq_true rfl)) (of_decide_eq_true rfl)) _

theorem tracksDir_ifd0 (info : ExifInfo) (isNextIfdExist : Bool) :
    TracksDir .ifd0 (writeExifIFD .ifd0 info.primary info.spec info.gps info.inter []
        isNextIfdExist)
      (directoryLayout .ifd0 24 (ifd0Plan info) fun v =>
        if isNextIfdExist then v - IFH else 0) := by
  have hfields := tracks_fields (d := .ifd0) _ (sound_primaryFields info.primary)
    (of_decide_eq_true rfl)
  have hfields' := tracks_fields (d := .ifd0) _ (sound_primaryFields' info.primary)
    (of_decide_eq_true rfl)
  have hspec := tracks_optional .ifd0 .exifIfdPointer (tracksDir_spec info.inter) info.spec
  have hgps := tracks_optional .ifd0 .gpsIfdPointer tracksDir_gps info.gps
  have hbody := hfields.seq (hfields'.seq (hspec.seq hgps (of_decide_eq_true rfl))
    (of_decide_eq_true rfl)) (of_decide_eq_true rfl)
  have hnone : ∀ c, writeFields .ifd0 (thumbnailFields []) c = pure c := fun _ => rfl
  have hthumbnail : ∀ o c, writeThumbnail .ifd0 [] o c = pure c := fun _ _ => rfl
  rw [writeExifIFD]
  simp only [hnone, hthumbnail, pure_bind, bind_pure]
  exact tracksDir_directory hbody _

/-! ## The thumbnail -/

theorem grows_writeThumbnail (d : Dir) (thumbnail : List UInt8) (o : ℕ) (c : Cursor) :
    Keeps Grows (writeThumbnail d thumbnail o c) :=
  keeps_ite (grows_pure c)
    (grows_bind (grows_setWritePos _) fun _ =>
      grows_bind (grows_must (grows_writeEach (fun _ => grows_writeC _ _) _ _)) fun _ =>
        grows_bind grows_getWritePos fun _ => grows_bind (grows_setWritePos o) fun _ =>
          grows_bind (Writer.grows_write .long d _ _ _) fun _ => grows_pure _)

/-- The thumbnail leaves the position of the next record as it is. -/
theorem wp_writeThumbnail_ifdOffset (d : Dir) (thumbnail : List UInt8) (o : ℕ) (c : Cursor)
    (s : Context) : wp (fun _ => True) (writeThumbnail d thumbnail o c)
      (fun c' t => c'.ifdOffset = c.ifdOffset ∧ Grows s t) s := by
  have hifd : wp (fun _ => True) (writeThumbnail d thumbnail o c)
      (fun c' _ => c'.ifdOffset = c.ifdOffset) s := by
    rw [writeThumbnail, wp_ite]
    refine ⟨fun _ => rfl, fun _ => ?_⟩
    rw [wp_bind]
    refine wp_mono (wp_true _ s) (fun _ he => he) fun _ t₁ _ => ?_
    rw [wp_bind]
    refine wp_mono (wp_true _ t₁) (fun _ he => he) fun _ t₂ _ => ?_
    rw [wp_bind, wp_getWritePos, wp_bind]
    refine wp_mono (wp_true _ t₂) (fun _ he => he) fun _ t₃ _ => ?_
    rw [wp_bind]
    exact wp_mono (wp_true _ t₃) (fun _ he => he) fun _ _ _ => rfl
  have hgrows := keeps_iff_wp.mp (grows_writeThumbnail d thumbnail o c) s
  exact wp_mono (wp_and hifd hgrows) (fun _ _ => trivial) fun _ _ h => h

/-- The outcomes of the thumbnail: it is stored at its place, or it does not fit there, and
the writer fails or puts it where the next record goes. -/
theorem wp_writeThumbnail {thumbnail : List UInt8} (hthumbnail : thumbnail ≠ []) {o : ℕ}
    {c : Cursor} (hpos : s.pos = c.ifdOffset) (hle : c.ifdOffset ≤ s.size)
    (ho : o + 12 ≤ c.ifdOffset) :
    wp (fun _ => s.size < c.valueOffset + thumbnail.length)
      (writeThumbnail d thumbnail o c)
      (fun c' t => (c.valueOffset + thumbnail.length ≤ s.size ∧
          c' = { c with valueOffset := c.valueOffset + thumbnail.length } ∧
          t = (((s.seek c.valueOffset).put .thumbnail thumbnail).seek o).put
            (.record d .jpegInterchangeFormat)
            (pointerRecord .jpegInterchangeFormat (c.valueOffset - IFH))) ∨
        (s.size < c.valueOffset ∧ c.ifdOffset < s.size ∧
          Grows (s.put .thumbnail thumbnail) t)) s := by
  have hlength := List.length_pos_of_ne_nil hthumbnail
  have hputs := (puts_writeBlock .thumbnail thumbnail).must
  rw [writeThumbnail, if_neg (by simpa using hthumbnail), wp_bind, wp_setWritePos]
  constructor
  · -- the position of the thumbnail could not be set
    intro hfull
    rw [wp_bind, hputs _ _ s (hpos ▸ hle)]
    refine ⟨fun hroom => ?_, fun _ => by omega⟩
    have hrest := fun v => grows_bind (grows_setWritePos o) fun _ =>
      grows_bind (Writer.grows_write .long d ⟨.jpegInterchangeFormat, .long, 1,
        .ofLong (c.valueOffset - IFH), longs [UInt32.ofNat (c.valueOffset - IFH)]⟩ o v) fun p =>
          grows_pure ({ c with valueOffset := p.2 } : Cursor)
    refine wp_mono (keeps_iff_wp.mp (grows_bind grows_getWritePos hrest) _)
      (fun _ _ => Nat.lt_add_right _ hfull) fun c' t ht => .inr ⟨hfull, ?_, ht⟩
    omega
  · intro hv
    rw [wp_bind, hputs _ _ (s.seek c.valueOffset) hv]
    refine ⟨fun hroom => ?_, fun hfull => hfull⟩
    rw [wp_bind, wp_getWritePos, wp_bind, wp_setWritePos]
    refine ⟨fun hfull => ?_, fun _ => ?_⟩
    · have hfull' : s.size < o := hfull
      omega
    rw [wp_bind]
    refine wp_mono (wp_writeLongIFD d .jpegInterchangeFormat o _ _ _) (fun _ he => ?_) ?_
    · have hfull : s.size < o + 12 := he
      omega
    rintro p t ⟨-, rfl, rfl⟩
    exact .inl ⟨hroom, rfl, rfl⟩

/-- Behind a field whose value is in its record the position is that of the next record. -/
theorem wp_writeField_pos {b : Block} (hsupplied : b.supplied = true)
    (hout : b.writer.outside b.count = false) (c : Cursor) (s : Context) :
    wp (fun _ => True) (writeField d b c) (fun c' t => t.pos = c'.ifdOffset) s := by
  rw [writeField, if_pos hsupplied, wp_bind]
  refine wp_mono (wp_write d b c.ifdOffset c.valueOffset s) (fun _ _ => trivial) ?_
  rintro p t ⟨-, ⟨-, rfl, rfl⟩ | ⟨hout', -⟩ | ⟨hout', -⟩⟩
  · rfl
  · exact absurd (hout.symm.trans hout') Bool.false_ne_true
  · exact absurd (hout.symm.trans hout') Bool.false_ne_true

/-- The last field of `IFD1` is the height, whose value is in its record. -/
theorem wp_ifd1Fields_pos (c : Cursor) (s : Context) :
    wp (fun _ => True) (writeFields .ifd1 (primaryFields' ifd1Primary) c)
      (fun c' t => t.pos = c'.ifdOffset) s := by
  have hfields : writeFields .ifd1 (primaryFields' ifd1Primary) c =
      (writeField .ifd1 ((always 1).short .yCbCrPosition) c >>= fun c =>
        writeField .ifd1 ⟨true, .imageWidth, .long, 1, longs [0], .short⟩ c >>= fun c =>
          writeField .ifd1 ⟨true, .imageLength, .long, 1, longs [0], .short⟩ c >>= pure) := rfl
  rw [hfields, wp_bind]
  refine wp_mono (wp_true _ s) (fun _ he => he) fun c₁ t₁ _ => ?_
  rw [wp_bind]
  refine wp_mono (wp_true _ t₁) (fun _ he => he) fun c₂ t₂ _ => ?_
  rw [wp_bind]
  exact wp_writeField_pos rfl rfl c₂ t₂

theorem wp_thumbnailEntries_pos {thumbnail : List UInt8} (c : Cursor) (s : Context) :
    wp (fun _ => True) (writeFields .ifd1 (thumbnailFields thumbnail) c >>=
      writeFields .ifd1 (primaryFields' ifd1Primary)) (fun c' t => t.pos = c'.ifdOffset) s := by
  rw [wp_bind]
  exact wp_mono (wp_true _ s) (fun _ he => he) fun c₁ t₁ _ => wp_ifd1Fields_pos c₁ t₁

/-- The entries of `IFD1` from those of the thumbnail on, and the thumbnail. -/
def writeThumbnailEntries (thumbnail : List UInt8) (c : Cursor) : W Cursor :=
  (writeFields .ifd1 (thumbnailFields thumbnail) c >>=
    writeFields .ifd1 (primaryFields' ifd1Primary)) >>=
      writeThumbnail .ifd1 thumbnail c.ifdOffset

theorem fits_thumbnailPlan {thumbnail : List UInt8} (hthumbnail : thumbnail ≠ []) (o v n : ℕ) :
    let placed := ((fieldsPlan .ifd1 (thumbnailFields thumbnail)).seq
      (fieldsPlan .ifd1 (primaryFields' ifd1Primary))).place o v
    ((thumbnailPlan thumbnail).place o v).Fits n ↔
      placed.Fits n ∧ placed.stop + thumbnail.length ≤ n ∧ o + 12 ≤ n := by
  intro placed
  refine (fits_append (b := 0) (c := 0)).trans ?_
  refine (and_congr ((fits_append (b := placed.stop) (c := 0)).trans
    (and_congr Iff.rfl (fits_block hthumbnail))) (fits_block (List.cons_ne_nil _ _))).trans ?_
  exact and_assoc

theorem entries_thumbnailPlan {thumbnail : List UInt8} (hthumbnail : thumbnail ≠ []) :
    ((fieldsPlan .ifd1 (thumbnailFields thumbnail)).seq
      (fieldsPlan .ifd1 (primaryFields' ifd1Primary))).entries = 5 := by
  obtain ⟨b, bytes, rfl⟩ := List.exists_cons_of_ne_nil hthumbnail
  rfl

theorem tracks_thumbnail {thumbnail : List UInt8} (hthumbnail : thumbnail ≠ []) :
    Tracks .ifd1 (writeThumbnailEntries thumbnail) (thumbnailPlan thumbnail)
      ((thumbnailFields thumbnail).map Block.tag ++
        (primaryFields' ifd1Primary).map Block.tag) := by
  have hentries := (tracks_fields (d := .ifd1) _ (sound_thumbnailFields thumbnail)
    (of_decide_eq_true rfl)).seq (tracks_fields (d := .ifd1) _ (sound_primaryFields' ifd1Primary)
      (of_decide_eq_true rfl)) (of_decide_eq_true rfl)
  have hoff : ∀ (rest : List IfdTag) (o : ℕ) (c : Cursor) (s : Context),
      Off .ifd1 rest c.ifdOffset s ∨ Clash s →
        wp (fun _ => True) (writeThumbnail .ifd1 thumbnail o c)
          (fun c' t => Off .ifd1 rest c'.ifdOffset t ∨ Clash t) s := by
    intro rest o c s h
    refine wp_mono (wp_writeThumbnail_ifdOffset .ifd1 thumbnail o c s) (fun _ he => he) ?_
    rintro c' t ⟨hifd, hgrows⟩
    rw [hifd]
    exact h.imp (fun h => h.of_grows hgrows) fun h => h.of_grows hgrows
  refine ⟨fun c => grows_bind (hentries.grows c) (grows_writeThumbnail _ _ _),
    fun rest c s hrest hle => ?_, fun rest c s hrest hstart => ?_⟩
  · let placed := ((fieldsPlan .ifd1 (thumbnailFields thumbnail)).seq
      (fieldsPlan .ifd1 (primaryFields' ifd1Primary))).place c.ifdOffset c.valueOffset
    have hfits := fits_thumbnailPlan hthumbnail c.ifdOffset c.valueOffset s.size
    rw [writeThumbnailEntries, wp_bind]
    refine wp_mono (wp_and (hentries.follows rest c s hrest hle) (wp_thumbnailEntries_pos c s))
      (fun _ he hall => he.1 (hfits.mp hall).1) ?_
    rintro c₁ t ⟨⟨hplaced, hfollows⟩ | ⟨hfull, hoff₁⟩, hpos₁⟩
    · obtain ⟨hcount, hifd, hvalue, hsize, hstores, hinside⟩ := hfollows
      have hvalue' : c₁.valueOffset = placed.stop := hvalue
      have hlast : c.ifdOffset + 12 ≤ c₁.ifdOffset := by
        rw [hifd, entries_thumbnailPlan hthumbnail]
        omega
      have hthumb := wp_and (wp_writeThumbnail (d := .ifd1) hthumbnail hpos₁ (hsize ▸ hinside)
        hlast) (wp_writeThumbnail_ifdOffset .ifd1 thumbnail c.ifdOffset c₁ t)
      rw [hsize, hvalue'] at hthumb
      refine wp_mono hthumb (fun _ he hall => ?_) ?_
      · have hroom := (hfits.mp hall).2.1
        exact absurd hroom (Nat.not_le.mpr he.1)
      rintro c₂ u ⟨⟨hroom, rfl, rfl⟩ | ⟨hfull, hlt, hgrows⟩, hifd₂, -⟩
      · refine .inl ⟨hfits.mpr ⟨hplaced, hroom, by omega⟩, hcount, hifd, rfl, hsize, ?_, hinside⟩
        rw [stores_put, stores_seek, stores_put, stores_seek, hstores, List.append_assoc,
          List.append_assoc, ← List.append_assoc placed.stores]
        rfl
      · have hover := Nat.not_le.mpr (Nat.lt_add_right thumbnail.length hfull)
        refine .inr ⟨fun hall => absurd (hfits.mp hall).2.1 hover, .inl ?_⟩
        -- the thumbnail is where the next record goes
        obtain ⟨b, bytes, rfl⟩ := List.exists_cons_of_ne_nil hthumbnail
        have hmem : (⟨.thumbnail, c₁.ifdOffset, b⟩ : Store Part) ∈
            (t.put .thumbnail (b :: bytes)).stores := by
          rw [stores_put, hpos₁]
          exact List.mem_append_right _ List.mem_cons_self
        rw [hifd₂]
        refine ⟨_, hgrows.stores.subset hmem, rfl, ?_, nofun, fun _ _ => nofun⟩
        rw [hgrows.size, size_put, hsize]
        exact hlt
    · have hnot : ¬ ((thumbnailPlan thumbnail).place c.ifdOffset c.valueOffset).Fits s.size :=
        fun hall => hfull (hfits.mp hall).1
      exact wp_mono (hoff rest c.ifdOffset c₁ t hoff₁) (fun _ _ => hnot) fun _ _ h => .inr ⟨hnot, h⟩
  · rw [writeThumbnailEntries, wp_bind]
    exact wp_mono (hentries.off rest c s hrest hstart) (fun _ he => he) fun c₁ t ht =>
      hoff rest c.ifdOffset c₁ t ht

theorem writeExifIFD_ifd1 (thumbnail : List UInt8) :
    writeExifIFD .ifd1 ifd1Primary none none none thumbnail false =
      writeDirectory .ifd1 24 (fun c => writeFields .ifd1 (primaryFields ifd1Primary) c >>=
        writeThumbnailEntries thumbnail) fun _ => 0 := by
  have hentries : writeThumbnailEntries thumbnail = fun c =>
      writeFields .ifd1 (thumbnailFields thumbnail) c >>= fun c₁ =>
        writeFields .ifd1 (primaryFields' ifd1Primary) c₁ >>=
          writeThumbnail .ifd1 thumbnail c.ifdOffset := by
    funext c
    exact bind_assoc _ _ _
  rw [writeExifIFD, hentries]
  simp only [writeOptional, pure_bind]
  rfl

theorem tracksDir_ifd1 {thumbnail : List UInt8} (hthumbnail : thumbnail ≠ []) :
    TracksDir .ifd1 (writeExifIFD .ifd1 ifd1Primary none none none thumbnail false)
      (ifd1Layout thumbnail) := by
  have hfields := tracks_fields (d := .ifd1) _ (sound_primaryFields ifd1Primary)
    (of_decide_eq_true rfl)
  have hbody := hfields.seq (tracks_thumbnail hthumbnail) (of_decide_eq_true rfl)
  rw [writeExifIFD_ifd1]
  exact tracksDir_directory hbody _

/-! ## The segment -/

theorem wp_writeIFH {b : ℕ} (hb : b ≤ s.size) :
    wp (fun _ => s.size < b + 8) (writeIFH b)
      (fun e t => b + 8 ≤ s.size ∧ e = b + 8 ∧
        t = (s.seek b).put .ifh (be16 0x4d4d ++ be16 0x002a ++ be32 8)) s := by
  have horder := (puts_writeW .ifh 0x4d4d).must
  have hmagic := (puts_writeW .ifh 0x002a).must
  have hoffset := (puts_writeL .ifh 8).must
  have hall := horder.bind (hmagic.bind hoffset)
  have hwrite : writeIFH b = (setWritePos b >>= fun _ =>
      (must (writeW .ifh 0x4d4d) >>= fun _ => must (writeW .ifh 0x002a) >>= fun _ =>
        must (writeL .ifh 8)) >>= fun _ => getWritePos) := by
    simp only [bind_assoc]
    rfl
  rw [hwrite, wp_bind, wp_setWritePos]
  refine ⟨fun hfull => absurd hb (Nat.not_le.mpr hfull), fun _ => ?_⟩
  rw [wp_bind, hall _ _ (s.seek b) hb]
  exact ⟨fun hroom => ⟨hroom, rfl, rfl⟩, fun hfull => hfull⟩

theorem wp_writeAPP1Header (length : ℕ) (hroom : 10 ≤ s.size) {E : Failure → Prop} :
    wp E (writeAPP1Header 0 length)
      (fun _ t => t = (s.seek 0).put .header (headerBytes length)) s := by
  have hmarker := (puts_writeC .header 0xff).must
  have hmarker' := (puts_writeC .header 0xe1).must
  have hlength := (puts_writeW .header length).must
  have hexif := (puts_writeBlock .header [0x45, 0x78, 0x69, 0x66, 0, 0]).must
  have hall := hmarker.bind (hmarker'.bind (hlength.bind hexif))
  rw [writeAPP1Header, wp_bind, wp_setWritePos]
  refine ⟨fun hfull => absurd hfull (Nat.not_lt_zero _), fun _ => ?_⟩
  have hrun := (hall False (fun _ t => t = (s.seek 0).put .header (headerBytes length)) (s.seek 0)
    (Nat.zero_le _)).mpr ⟨fun _ => rfl, fun hfull => absurd hroom (Nat.not_le.mpr hfull)⟩
  exact wp_mono hrun (fun _ he => he.elim) fun _ _ ht => ht

/-- The first record of a part of a directory is at the position where the records begin. -/
theorem exists_record_fieldsPlan {blocks : List Block} (h : ∃ b ∈ blocks, b.supplied = true)
    (d : Dir) (o v : ℕ) :
    ∃ w ∈ ((fieldsPlan d blocks).place o v).stores, w.addr = o ∧ ∃ tag, w.key = .record d tag := by
  induction blocks generalizing v with
  | nil =>
      obtain ⟨b, hb, -⟩ := h
      exact absurd hb List.not_mem_nil
  | cons b blocks ih =>
      cases hsupplied : b.supplied with
      | true =>
          refine ⟨⟨.record d b.tag, o, byteOf b.tag.code 1⟩, ?_, rfl, b.tag, rfl⟩
          refine List.mem_append_left _ ?_
          rw [place_plan hsupplied, record_eq_cons]
          exact List.mem_append_left _ List.mem_cons_self
      | false =>
          have hplan := plan_of_not_supplied (d := d) hsupplied
          have hrest : ∃ b' ∈ blocks, b'.supplied = true := by
            obtain ⟨b', hb', hsupplied'⟩ := h
            obtain rfl | hb' := List.mem_cons.mp hb'
            · exact absurd (hsupplied.symm.trans hsupplied') Bool.false_ne_true
            · exact ⟨b', hb', hsupplied'⟩
          obtain ⟨w, hw, haddr, hkey⟩ := ih hrest v
          refine ⟨w, ?_, haddr, hkey⟩
          rw [fieldsPlan, hplan]
          exact hw

theorem exists_record_ifd0Layout (info : ExifInfo) (thumbnail : List UInt8) (b : ℕ) :
    ∃ w ∈ (ifd0Layout info thumbnail b).stores, w.addr = b + 2 ∧
      ∃ tag, w.key = .record .ifd0 tag := by
  have hfirst : ∃ b ∈ primaryFields info.primary, b.supplied = true :=
    ⟨(always info.primary.basic.xResolution).rational .xResolution, by simp [primaryFields], rfl⟩
  obtain ⟨w, hw, haddr, hkey⟩ := exists_record_fieldsPlan hfirst .ifd0 (b + 2)
    (align4 (b + 2 + 24 * IFD_HEAD_LENGTH + 4))
  refine ⟨w, ?_, haddr, hkey⟩
  exact List.mem_append_left _ (List.mem_append_left _
    (List.mem_append_right _ (List.mem_append_left _ hw)))

/-- What becomes of a layout `p` in the state `s`: it is stored, or it does not fit and there
is a clash. -/
def Stored (p : Placed) (s : Context) (e : ℕ) (t : Context) : Prop :=
  t.size = s.size ∧ ((p.Fits s.size ∧ e = p.stop ∧ t.stores = s.stores ++ p.stores) ∨
    (¬ p.Fits s.size ∧ Clash t))

theorem wp_ifd0 (info : ExifInfo) (thumbnail : List UInt8) {b : ℕ} (hpos : s.pos = b)
    (hb : b ≤ s.size) :
    wp (fun _ => ¬ (ifd0Layout info thumbnail b).Fits s.size)
      (writeExifIFD .ifd0 info.primary info.spec info.gps info.inter [] (!thumbnail.isEmpty) b)
      (fun e t => Stored (ifd0Layout info thumbnail b) s e t ∧
        ((ifd0Layout info thumbnail b).Fits s.size → t.pos = b + 2)) s := by
  have h := tracksDir_ifd0 info (!thumbnail.isEmpty)
  refine wp_mono (wp_and (h.follows b s (hpos ▸ hb)) (keeps_iff_wp.mp (h.grows b) s))
    (fun _ he => he.1) ?_
  rintro e t ⟨⟨hfits, he, -, hpos', hstores⟩ | ⟨hfull, hclash | ⟨hlt, -⟩⟩, hgrows⟩
  · exact ⟨⟨hgrows.size, .inl ⟨hfits, he, hstores⟩⟩, fun _ => hpos'⟩
  · exact ⟨⟨hgrows.size, .inr ⟨hfull, hclash⟩⟩, fun hfits => absurd hfits hfull⟩
  · exact absurd hb (Nat.not_le.mpr hlt)

theorem wp_ifd1 {thumbnail : List UInt8} (hthumbnail : thumbnail ≠ []) {b : ℕ}
    (hpos : s.pos ≤ s.size)
    (hrecord : ∃ w ∈ s.stores, w.addr = s.pos ∧ ∃ tag, w.key = .record .ifd0 tag) :
    wp (fun _ => ¬ (ifd1Layout thumbnail b).Fits s.size)
      (writeExifIFD .ifd1 ifd1Primary none none none thumbnail false b)
      (Stored (ifd1Layout thumbnail b) s) s := by
  have h := tracksDir_ifd1 hthumbnail
  refine wp_mono (wp_and (h.follows b s hpos) (keeps_iff_wp.mp (h.grows b) s))
    (fun _ he => he.1) ?_
  rintro e t ⟨⟨hfits, he, -, -, hstores⟩ | ⟨hfull, hclash | ⟨-, w, hw, haddr, -, hkey⟩⟩, hgrows⟩
  · exact ⟨hgrows.size, .inl ⟨hfits, he, hstores⟩⟩
  · exact ⟨hgrows.size, .inr ⟨hfull, hclash⟩⟩
  · -- the directory begins where the first record of `IFD0` is
    obtain ⟨w', hw', haddr', tag, hkey'⟩ := hrecord
    refine ⟨hgrows.size, .inr ⟨hfull, ?_⟩⟩
    refine Store.not_separate_of_mem (hgrows.stores.subset hw') hw (haddr'.trans haddr.symm) ?_
    rw [hkey, hkey']
    nofun

theorem wp_writeIFDs (info : ExifInfo) (thumbnail : List UInt8) (hsize : 10 ≤ s.size) :
    wp (fun _ => s.size < 18 ∨ ¬ (ifdsLayout info thumbnail).Fits s.size)
      (writeIFDs info thumbnail)
      (fun e t => 18 ≤ s.size ∧ Stored (ifdsLayout info thumbnail)
        ((s.seek 10).put .ifh (be16 0x4d4d ++ be16 0x002a ++ be32 8)) e t) s := by
  rw [writeIFDs, wp_bind]
  refine wp_mono (wp_writeIFH hsize) (fun _ he => .inl he) ?_
  rintro _ t ⟨hroom, rfl, rfl⟩
  rw [wp_bind]
  by_cases hthumbnail : thumbnail = []
  · have hlayout : ifdsLayout info thumbnail = ifd0Layout info thumbnail 18 := by
      rw [ifdsLayout, hthumbnail]
      rfl
    rw [hlayout]
    refine wp_mono (wp_ifd0 info thumbnail rfl hroom) (fun _ he => .inr he) fun e t ht => ?_
    rw [if_pos (List.isEmpty_iff.mpr hthumbnail), wp_pure]
    exact ⟨hroom, ht.1⟩
  · have hnonempty : ¬ thumbnail.isEmpty = true := fun h => hthumbnail (List.isEmpty_iff.mp h)
    have hlayout : ifdsLayout info thumbnail =
        ⟨(ifd0Layout info thumbnail 18).stores ++
            (ifd1Layout thumbnail (ifd0Layout info thumbnail 18).stop).stores,
          (ifd1Layout thumbnail (ifd0Layout info thumbnail 18).stop).stop⟩ := by
      rw [ifdsLayout, if_neg hnonempty]
    have hfits : (ifdsLayout info thumbnail).Fits s.size ↔
        (ifd0Layout info thumbnail 18).Fits s.size ∧
          (ifd1Layout thumbnail (ifd0Layout info thumbnail 18).stop).Fits s.size := by
      rw [hlayout]
      exact fits_append
    refine wp_mono (wp_ifd0 info thumbnail rfl hroom) (fun _ he => .inr fun hall =>
      he (hfits.mp hall).1) ?_
    rintro e t ⟨⟨hsize', ⟨hfits₀, rfl, hstores⟩ | ⟨hfull, hclash⟩⟩, hpos⟩
    · rw [if_neg hnonempty]
      have hpos' : t.pos = 20 := hpos hfits₀
      have hsize'' : t.size = s.size := hsize'
      obtain ⟨w, hw, haddr, hkey⟩ := exists_record_ifd0Layout info thumbnail 18
      refine wp_mono (wp_ifd1 hthumbnail ?_ ⟨w, ?_, haddr.trans hpos'.symm, hkey⟩)
        (fun _ he => .inr fun hall => he (hsize'' ▸ (hfits.mp hall).2)) ?_
      · have hlt : w.addr < s.size := hfits₀ w hw
        omega
      · rw [hstores]
        exact List.mem_append_right _ hw
      · rintro e u ⟨hsize₁, ⟨hfits₁, he, hstores₁⟩ | ⟨hfull, hclash⟩⟩
        · refine ⟨hroom, hsize₁.trans hsize', .inl ⟨hfits.mpr ⟨hfits₀, hsize'' ▸ hfits₁⟩, ?_, ?_⟩⟩
          · exact he.trans (congrArg Placed.stop hlayout).symm
          · rw [hstores₁, hstores, hlayout, List.append_assoc]
            rfl
        · exact ⟨hroom, hsize₁.trans hsize', .inr ⟨fun hall =>
            hfull (hsize'' ▸ (hfits.mp hall).2), hclash⟩⟩
    · rw [if_neg hnonempty]
      have hgrows := (tracksDir_ifd1 hthumbnail).grows e
      refine wp_mono (wp_and (wp_clash hgrows hclash) (keeps_iff_wp.mp hgrows t))
        (fun _ _ => .inr fun hall => hfull (hfits.mp hall).1) ?_
      rintro e u ⟨hclash', hgrows'⟩
      exact ⟨hroom, hgrows'.size.trans hsize', .inr ⟨fun hall => hfull (hfits.mp hall).1, hclash'⟩⟩

theorem fits_layout {info : ExifInfo} {thumbnail : List UInt8} {size : ℕ} :
    (layout info thumbnail).Fits size ↔
      18 ≤ size ∧ (ifdsLayout info thumbnail).Fits size := by
  refine (fits_append (b := 0) (c := 0)).trans ?_
  refine (and_congr ((fits_append (b := 0) (c := 0)).trans
    (and_congr (fits_block (List.cons_ne_nil _ _)) Iff.rfl))
      (fits_block (List.cons_ne_nil _ _))).trans ?_
  constructor
  · exact fun h => h.1
  · intro h
    have hheader : 10 ≤ size := Nat.le_trans (by decide) h.1
    exact ⟨h, hheader⟩

theorem wp_writeSegment (info : ExifInfo) (thumbnail : List UInt8) {size : ℕ}
    (hsize : 10 ≤ size) :
    wp (fun _ => ¬ (layout info thumbnail).Fits size) (writeSegment info thumbnail)
      (fun e t => ((layout info thumbnail).Fits size ∧ e = (layout info thumbnail).stop ∧
          t.stores = (layout info thumbnail).stores) ∨
        (¬ (layout info thumbnail).Fits size ∧ Clash t)) ⟨size, 0, []⟩ := by
  rw [writeSegment, wp_bind, fits_layout]
  refine wp_mono (wp_writeIFDs info thumbnail hsize) (fun _ he => ?_) ?_
  · obtain hfull | hfull := he
    · exact fun hall => absurd hall.1 (Nat.not_le.mpr hfull)
    · exact fun hall => hfull hall.2
  rintro e t ⟨hroom, hsize', hstored⟩
  have hheader : 10 ≤ t.size := hsize' ▸ hsize
  rw [wp_bind]
  refine wp_mono (wp_writeAPP1Header (app1Length e) hheader) (fun _ he => he) ?_
  rintro _ u rfl
  rw [wp_pure]
  obtain ⟨hfits, rfl, hstores⟩ | ⟨hfull, hclash⟩ := hstored
  · refine .inl ⟨⟨hroom, hfits⟩, rfl, ?_⟩
    rw [stores_put, stores_seek, hstores]
    rfl
  · exact .inr ⟨fun hall => hfull hall.2, hclash.of_grows ⟨rfl, List.prefix_append _ _⟩⟩

/-- A call with a buffer that the layout fits into does what the layout says. -/
theorem writeAPP1_of_fits {info : ExifInfo} {thumbnail : List UInt8} {size : ℕ}
    (hfits : (layout info thumbnail).Fits size) :
    writeAPP1 (some size) (some info) thumbnail =
      .ok ⟨(layout info thumbnail).stores, (layout info thumbnail).stop⟩ := by
  have hsize : 18 ≤ size := (fits_layout.mp hfits).1
  have hsegment := wp_writeSegment info thumbnail (show 10 ≤ size by omega)
  rw [writeAPP1, if_neg (by omega)]
  rw [wp] at hsegment
  cases hrun : writeSegment info thumbnail ⟨size, 0, []⟩ with
  | error e =>
      rw [hrun] at hsegment
      exact absurd hfits hsegment
  | ok p =>
      rw [hrun] at hsegment
      obtain ⟨-, hstop, hstores⟩ | ⟨hfull, -⟩ := hsegment
      · rw [← hstop, ← hstores]
        rfl
      · exact absurd hfits hfull

/-- A call that succeeds although the layout does not fit has stored a byte twice. -/
theorem clash_of_writeAPP1 {info : ExifInfo} {thumbnail : List UInt8} {size : ℕ} {out : Output}
    (hrun : writeAPP1 (some size) (some info) thumbnail = .ok out)
    (hfull : ¬ (layout info thumbnail).Fits size) : ¬ Store.Separate Again out.stores := by
  by_cases hsize : size < 10
  · rw [writeAPP1, if_pos hsize] at hrun
    exact absurd hrun nofun
  · have hsegment := wp_writeSegment info thumbnail (Nat.not_lt.mp hsize)
    rw [writeAPP1, if_neg hsize] at hrun
    rw [wp] at hsegment
    cases hrun' : writeSegment info thumbnail ⟨size, 0, []⟩ with
    | error e =>
        rw [hrun'] at hrun
        exact absurd hrun nofun
    | ok p =>
        rw [hrun'] at hrun hsegment
        obtain ⟨hfits, -⟩ | ⟨-, hclash⟩ := hsegment
        · exact absurd hfits hfull
        · cases hrun
          exact hclash

end Exif

end Tarako
