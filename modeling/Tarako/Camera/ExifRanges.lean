import Tarako.Camera.ExifRun

/-!
# The ranges of the EXIF segment

The records of a directory lie one behind the other from its first position on and its
values behind the room that is reserved for records; a directory that is nested lies between
two values. So no byte of a layout is stored for two parts, and none is stored in the room
that the records leave.
-/

namespace Tarako

namespace Exif

open Store

variable {d : Dir} {thumbnail : List UInt8}

/-! ## Parts of a directory -/

/-- The records are stored from `o` on, all of them, and the values from `v` on. -/
structure Plan.Ranged (p : Plan) : Prop where
  le_stop : ∀ o v, v ≤ (p.place o v).stop
  within : ∀ o v, ∀ w ∈ (p.place o v).stores,
    (o ≤ w.addr ∧ w.addr < o + 12 * p.entries) ∨ (v ≤ w.addr ∧ w.addr < (p.place o v).stop)
  covers : ∀ o v a, o ≤ a → a < o + 12 * p.entries → Covers (p.place o v).stores a
  separate : ∀ o v, o + 12 * p.entries ≤ v → Separate Again (p.place o v).stores

/-- What is stored from `b` on lies behind it. -/
structure Lies (b : ℕ) (p : Placed) : Prop where
  le_stop : b ≤ p.stop
  within : Within b p.stop p.stores
  separate : Separate Again p.stores

theorem le_align4 (x : ℕ) : x ≤ align4 x := by
  rw [align4]
  omega

theorem ranged_nil : Plan.nil.Ranged where
  le_stop _ v := Nat.le_refl v
  within _ _ _ hw := absurd hw List.not_mem_nil
  covers _ _ _ hle hlt := absurd (Nat.lt_of_le_of_lt hle hlt) (Nat.lt_irrefl _)
  separate _ _ _ := List.Pairwise.nil

theorem Plan.Ranged.seq {p q : Plan} (hp : p.Ranged) (hq : q.Ranged) : (p.seq q).Ranged where
  le_stop o v := Nat.le_trans (hp.le_stop o v) (hq.le_stop _ _)
  within o v w hw := by
    have hstop := hp.le_stop o v
    have hstop' := hq.le_stop (o + 12 * p.entries) (p.place o v).stop
    change (_ ∧ w.addr < o + 12 * (p.entries + q.entries)) ∨ (_ ∧ w.addr < (q.place _ _).stop)
    obtain hw | hw := List.mem_append.mp hw
    · have hin := hp.within o v w hw
      omega
    · have hin := hq.within (o + 12 * p.entries) (p.place o v).stop w hw
      omega
  covers o v a hle hlt := by
    have hlt' : a < o + 12 * (p.entries + q.entries) := hlt
    rw [Plan.seq, covers_append]
    by_cases hfirst : a < o + 12 * p.entries
    · exact .inl (hp.covers o v a hle hfirst)
    · exact .inr (hq.covers _ _ a (by omega) (by omega))
  separate o v hle := by
    have hle' : o + 12 * (p.entries + q.entries) ≤ v := hle
    have hstop := hp.le_stop o v
    refine separate_append (hp.separate o v (by omega)) (hq.separate _ _ (by omega)) ?_
    rintro a ⟨w, hw, rfl⟩ ⟨w', hw', haddr⟩
    have hin := hp.within o v w hw
    have hin' := hq.within _ _ w' hw'
    omega

theorem length_block_record (b : Block) (v : ℕ) : (b.record v).length = 12 := rfl

theorem Block.value_within (d : Dir) (b : Block) (v : ℕ) :
    v ≤ (b.value d v).stop ∧ Within v (b.value d v).stop (b.value d v).stores := by
  rw [Block.value]
  split
  · have hstop := le_align4 (v + b.elements.length)
    exact ⟨Nat.le_trans (Nat.le_add_right _ _) hstop,
      (within_block _ v b.elements).mono (Nat.le_refl v) hstop⟩
  · exact ⟨Nat.le_refl v, within_nil⟩

theorem ranged_plan (d : Dir) (b : Block) : (b.plan d).Ranged := by
  rw [Block.plan]
  split
  · have hvalue := fun v => b.value_within d v
    refine ⟨fun o v => (hvalue v).1, fun o v w hw => ?_, fun o v a hle hlt => ?_,
      fun o v hle => ?_⟩
    · obtain hw | hw := List.mem_append.mp hw
      · exact .inl (within_block _ o (b.record v) w hw)
      · exact .inr ((hvalue v).2 w hw)
    · exact covers_append.mpr (.inl (covers_block _ hle hlt))
    · have hseparate : Separate Again (b.value d v).stores := by
        rw [Block.value]
        split
        · exact separate_block _ _ _ _
        · exact List.Pairwise.nil
      refine separate_append (separate_block _ _ _ _) hseparate ?_
      rintro a ⟨w, hw, rfl⟩ ⟨w', hw', haddr⟩
      have hin := within_block _ o (b.record v) w hw
      have hin' := (hvalue v).2 w' hw'
      have hle' : o + 12 ≤ v := hle
      rw [length_block_record] at hin
      omega
  · exact ranged_nil

theorem ranged_fieldsPlan (d : Dir) (blocks : List Block) : (fieldsPlan d blocks).Ranged := by
  induction blocks with
  | nil => exact ranged_nil
  | cons b blocks ih => exact (ranged_plan d b).seq ih

theorem entries_fieldsPlan_le (d : Dir) (blocks : List Block) :
    (fieldsPlan d blocks).entries ≤ blocks.length := by
  induction blocks with
  | nil => exact Nat.le_refl _
  | cons b blocks ih =>
      have hb : (b.plan d).entries ≤ 1 := by
        rw [Block.plan]
        split
        · exact Nat.le_refl _
        · exact Nat.zero_le 1
      rw [List.length_cons, Nat.add_comm blocks.length]
      exact Nat.add_le_add hb ih

theorem ranged_pointerPlan (d : Dir) (tag : IfdTag) {sub : ℕ → Placed}
    (h : ∀ b, Lies b (sub b)) : (pointerPlan d tag sub).Ranged where
  le_stop _ v := Nat.le_trans (le_align4 v) (h (align4 v)).le_stop
  within o v w hw := by
    obtain hw | hw := List.mem_append.mp hw
    · exact .inl (within_block _ o (pointerRecord tag _) w hw)
    · exact .inr ((h (align4 v)).within.mono (le_align4 v) (Nat.le_refl _) w hw)
  covers o v a hle hlt := covers_append.mpr (.inl (covers_block _ hle hlt))
  separate o v hle := by
    refine separate_append (separate_block _ _ _ _) (h (align4 v)).separate ?_
    rintro a ⟨w, hw, rfl⟩ ⟨w', hw', haddr⟩
    have hin : w.addr < o + 12 := (within_block _ o (pointerRecord tag _) w hw).2
    have hin' := (h (align4 v)).within w' hw'
    have hle' : o + 12 ≤ v := hle
    have halign := le_align4 v
    omega

theorem ranged_optionalPlan {α : Type} (d : Dir) (tag : IfdTag) {sub : α → ℕ → Placed}
    (h : ∀ info b, Lies b (sub info b)) (info : Option α) :
    (optionalPlan d tag sub info).Ranged := by
  cases info with
  | none => exact ranged_nil
  | some info => exact ranged_pointerPlan d tag (h info)

theorem entries_optionalPlan_le {α : Type} (d : Dir) (tag : IfdTag) (sub : α → ℕ → Placed)
    (info : Option α) : (optionalPlan d tag sub info).entries ≤ 1 := by
  cases info with
  | none => exact Nat.zero_le 1
  | some info => exact Nat.le_refl _

/-! ## Directories -/

/-- Where the values of a directory begin, whatever records it has. -/
theorem lies_directoryLayout (d : Dir) {reserved : ℕ} {body : Plan} (hbody : body.Ranged)
    (hentries : body.entries ≤ reserved) (next : ℕ → ℕ) (b : ℕ) :
    Lies b (directoryLayout d reserved body next b) := by
  let v := align4 (b + 2 + reserved * IFD_HEAD_LENGTH + 4)
  have hv : b + 2 + 12 * body.entries + 4 ≤ v := by
    have halign := le_align4 (b + 2 + reserved * IFD_HEAD_LENGTH + 4)
    have hlength : reserved * IFD_HEAD_LENGTH = 12 * reserved := Nat.mul_comm _ _
    omega
  have hstop := hbody.le_stop (b + 2) v
  have hcount : ∀ n, Within b (b + 2) (block (Part.count d) b (be16 n)) := fun n =>
    within_block _ b (be16 n)
  have hnext : ∀ n, Within (b + 2 + 12 * body.entries) (b + 2 + 12 * body.entries + 4)
      (block (Part.next d) (b + 2 + 12 * body.entries) (be32 n)) := fun n =>
    within_block _ _ (be32 n)
  have hwithin := hbody.within (b + 2) v
  refine ⟨?_, ?_, ?_⟩
  · change b ≤ (body.place (b + 2) v).stop
    omega
  · change Within b (body.place (b + 2) v).stop _
    refine within_append.mpr ⟨within_append.mpr ⟨within_append.mpr ⟨?_, fun w hw => ?_⟩, ?_⟩, ?_⟩
    · exact (hcount reserved).mono (Nat.le_refl _) (by omega)
    · have hin := hwithin w hw
      omega
    · exact (hnext _).mono (by omega) (by omega)
    · exact (hcount body.entries).mono (Nat.le_refl _) (by omega)
  · refine separate_append_block ?_ (show Again (.count d) from trivial) ?_
    · refine separate_append (separate_append (separate_block _ _ _ _)
        (hbody.separate (b + 2) v (by omega)) ?_) (separate_block _ _ _ _) ?_
      · rintro a ⟨w, hw, rfl⟩ ⟨w', hw', haddr⟩
        have hin := hcount reserved w hw
        have hin' := hwithin w' hw'
        omega
      · rintro a ⟨w, hw, rfl⟩ ⟨w', hw', haddr⟩
        have hin' := hnext _ w' hw'
        obtain hw | hw := List.mem_append.mp hw
        · have hin := hcount reserved w hw
          omega
        · have hin := hwithin w hw
          omega
    · -- the number of records is the only part that is there twice
      intro w hw hle hlt
      have hlt' : w.addr < b + 2 := hlt
      obtain hw | hw := List.mem_append.mp hw
      · obtain hw | hw := List.mem_append.mp hw
        · exact (mem_block.mp hw).1
        · have hin := hwithin w hw
          omega
      · have hin := hnext _ w hw
        omega

theorem lies_interLayout (inter : InteroperabilityInfo) (b : ℕ) :
    Lies b (interLayout inter b) := by
  have hentries : (fieldsPlan .interop (interFields inter)).entries ≤ 1 :=
    entries_fieldsPlan_le .interop _
  exact lies_directoryLayout .interop (ranged_fieldsPlan _ _) hentries _ b

theorem lies_gpsLayout (gps : GpsInfo) (b : ℕ) : Lies b (gpsLayout gps b) := by
  have hentries : (fieldsPlan .gps (gpsFields gps)).entries ≤ 31 := entries_fieldsPlan_le .gps _
  exact lies_directoryLayout .gps (ranged_fieldsPlan _ _) hentries _ b

theorem ranged_specPlan (inter : Option InteroperabilityInfo) (spec : SpecificInfo) :
    (specPlan inter spec).Ranged :=
  (ranged_fieldsPlan _ _).seq
    ((ranged_optionalPlan _ _ lies_interLayout inter).seq (ranged_fieldsPlan _ _))

theorem entries_specPlan_le (inter : Option InteroperabilityInfo) (spec : SpecificInfo) :
    (specPlan inter spec).entries ≤ 57 := by
  have hfields := entries_fieldsPlan_le .exif (specFields spec)
  have hinter := entries_optionalPlan_le .exif .interoperabilityIfdPointer interLayout inter
  have hfields' := entries_fieldsPlan_le .exif (specFields' spec)
  exact Nat.add_le_add hfields (Nat.add_le_add hinter hfields')

theorem lies_specLayout (inter : Option InteroperabilityInfo) (spec : SpecificInfo) (b : ℕ) :
    Lies b (specLayout inter spec b) :=
  lies_directoryLayout .exif (ranged_specPlan inter spec) (entries_specPlan_le inter spec) _ b

theorem ranged_ifd0Plan (info : ExifInfo) : (ifd0Plan info).Ranged :=
  (ranged_fieldsPlan _ _).seq ((ranged_fieldsPlan _ _).seq
    ((ranged_optionalPlan _ _ (lies_specLayout info.inter) info.spec).seq
      (ranged_optionalPlan _ _ lies_gpsLayout info.gps)))

theorem entries_ifd0Plan_le (info : ExifInfo) : (ifd0Plan info).entries ≤ 22 := by
  have hfields := entries_fieldsPlan_le .ifd0 (primaryFields info.primary)
  have hfields' := entries_fieldsPlan_le .ifd0 (primaryFields' info.primary)
  have hspec := entries_optionalPlan_le .ifd0 .exifIfdPointer (specLayout info.inter) info.spec
  have hgps := entries_optionalPlan_le .ifd0 .gpsIfdPointer gpsLayout info.gps
  exact Nat.add_le_add hfields (Nat.add_le_add hfields' (Nat.add_le_add hspec hgps))

theorem lies_ifd0Layout (info : ExifInfo) (thumbnail : List UInt8) (b : ℕ) :
    Lies b (ifd0Layout info thumbnail b) :=
  lies_directoryLayout .ifd0 (ranged_ifd0Plan info)
    (Nat.le_trans (entries_ifd0Plan_le info) (by decide)) _ b

theorem key_thumbnailEntries {o v : ℕ} (hthumbnail : thumbnail ≠ []) (hle : o + 12 ≤ v)
    {w : Store Part}
    (hw : w ∈ (((fieldsPlan .ifd1 (thumbnailFields thumbnail)).seq
      (fieldsPlan .ifd1 (primaryFields' ifd1Primary))).place o v).stores)
    (hlt : w.addr < o + 12) : w.key = .record .ifd1 .jpegInterchangeFormat := by
  obtain ⟨c, bytes, rfl⟩ := List.exists_cons_of_ne_nil hthumbnail
  let length : Block := ⟨true, .jpegInterchangeFormatLength, .long, 1,
    longs [UInt32.ofNat (c :: bytes).length], .long⟩
  obtain hw | hw := List.mem_append.mp hw
  · obtain hw | hw := List.mem_append.mp hw
    · -- the offset itself
      obtain hw | hw := List.mem_append.mp hw
      · exact (mem_block.mp hw).1
      · exact absurd hw List.not_mem_nil
    · have hin := (ranged_fieldsPlan .ifd1 [length]).within (o + 12) v w hw
      omega
  · have hin := (ranged_fieldsPlan .ifd1 (primaryFields' ifd1Primary)).within (o + 24) v w hw
    omega

theorem ranged_thumbnailPlan (hthumbnail : thumbnail ≠ []) : (thumbnailPlan thumbnail).Ranged := by
  let entries : Plan := (fieldsPlan .ifd1 (thumbnailFields thumbnail)).seq
    (fieldsPlan .ifd1 (primaryFields' ifd1Primary))
  have hranged : entries.Ranged := (ranged_fieldsPlan _ _).seq (ranged_fieldsPlan _ _)
  have hfirst : 1 ≤ entries.entries := by
    obtain ⟨c, bytes, rfl⟩ := List.exists_cons_of_ne_nil hthumbnail
    exact Nat.le_add_left 1 4
  have hoffset : ∀ o v, Within o (o + 12)
      (block (Part.record .ifd1 .jpegInterchangeFormat) o
        (pointerRecord .jpegInterchangeFormat ((entries.place o v).stop - IFH))) := fun o v =>
    within_block _ o (pointerRecord _ _)
  refine ⟨fun o v => Nat.le_trans (hranged.le_stop o v) (Nat.le_add_right _ _),
    fun o v w hw => ?_, fun o v a hle hlt => ?_, fun o v hle => ?_⟩
  · have hstop := hranged.le_stop o v
    change (_ ∧ w.addr < o + 12 * entries.entries) ∨
      (_ ∧ w.addr < (entries.place o v).stop + thumbnail.length)
    obtain hw | hw := List.mem_append.mp hw
    · obtain hw | hw := List.mem_append.mp hw
      · have hin := hranged.within o v w hw
        omega
      · have hin := within_block _ (entries.place o v).stop thumbnail w hw
        omega
    · have hin := hoffset o v w hw
      omega
  · exact covers_append.mpr (.inl (covers_append.mpr (.inl (hranged.covers o v a hle hlt))))
  · have hle' : o + 12 * entries.entries ≤ v := hle
    have hstop := hranged.le_stop o v
    refine separate_append_block (separate_append (hranged.separate o v hle)
      (separate_block _ _ _ _) ?_) (show Again (.record .ifd1 .jpegInterchangeFormat) from trivial)
        fun w hw hle hlt => ?_
    · rintro a ⟨w, hw, rfl⟩ ⟨w', hw', haddr⟩
      have hin := hranged.within o v w hw
      have hin' := within_block _ (entries.place o v).stop thumbnail w' hw'
      omega
    · have hlt' : w.addr < o + 12 := hlt
      obtain hw | hw := List.mem_append.mp hw
      · exact key_thumbnailEntries hthumbnail (by omega) hw hlt'
      · have hin := within_block _ (entries.place o v).stop thumbnail w hw
        omega

theorem entries_ifd1Plan_le (thumbnail : List UInt8) : (ifd1Plan thumbnail).entries ≤ 24 := by
  have hfields := entries_fieldsPlan_le .ifd1 (primaryFields ifd1Primary)
  have hthumb := entries_fieldsPlan_le .ifd1 (thumbnailFields thumbnail)
  have hfields' := entries_fieldsPlan_le .ifd1 (primaryFields' ifd1Primary)
  have hentries : (ifd1Plan thumbnail).entries ≤ 14 + (2 + 6) :=
    Nat.add_le_add hfields (Nat.add_le_add hthumb hfields')
  exact Nat.le_trans hentries (by decide)

theorem lies_ifd1Layout (hthumbnail : thumbnail ≠ []) (b : ℕ) :
    Lies b (ifd1Layout thumbnail b) :=
  lies_directoryLayout .ifd1 ((ranged_fieldsPlan _ _).seq (ranged_thumbnailPlan hthumbnail))
    (entries_ifd1Plan_le thumbnail) _ b

/-! ## The segment -/

theorem lies_ifdsLayout (info : ExifInfo) (thumbnail : List UInt8) :
    Lies 18 (ifdsLayout info thumbnail) := by
  have hifd0 := lies_ifd0Layout info thumbnail 18
  rw [ifdsLayout]
  split
  · exact hifd0
  · rename_i hthumbnail
    have hifd1 := lies_ifd1Layout (fun h => hthumbnail (List.isEmpty_iff.mpr h))
      (ifd0Layout info thumbnail 18).stop
    refine ⟨Nat.le_trans hifd0.le_stop hifd1.le_stop, within_append.mpr ⟨?_, ?_⟩,
      separate_append hifd0.separate hifd1.separate ?_⟩
    · exact hifd0.within.mono (Nat.le_refl _) hifd1.le_stop
    · exact hifd1.within.mono hifd0.le_stop (Nat.le_refl _)
    · rintro a ⟨w, hw, rfl⟩ ⟨w', hw', haddr⟩
      have hin := hifd0.within w hw
      have hin' := hifd1.within w' hw'
      omega

theorem lies_layout (info : ExifInfo) (thumbnail : List UInt8) :
    Lies 0 (layout info thumbnail) := by
  have hifds := lies_ifdsLayout info thumbnail
  have hle := hifds.le_stop
  have hifh : Within 10 18 (block Part.ifh 10 (be16 0x4d4d ++ be16 0x002a ++ be32 8)) :=
    within_block _ _ _
  have hheader : Within 0 10
      (block Part.header 0 (headerBytes (app1Length (ifdsLayout info thumbnail).stop))) :=
    within_block _ _ (headerBytes _)
  refine ⟨Nat.zero_le _, within_append.mpr ⟨within_append.mpr ⟨?_, ?_⟩, ?_⟩, ?_⟩
  · exact hifh.mono (Nat.zero_le _) hle
  · exact hifds.within.mono (Nat.zero_le _) (Nat.le_refl _)
  · exact hheader.mono (Nat.le_refl _) (Nat.le_trans (by decide) hle)
  · refine separate_append (separate_append (separate_block _ _ _ _) hifds.separate ?_)
      (separate_block _ _ _ _) ?_
    · rintro a ⟨w, hw, rfl⟩ ⟨w', hw', haddr⟩
      have hin := hifh w hw
      have hin' := hifds.within w' hw'
      omega
    · rintro a ⟨w, hw, rfl⟩ ⟨w', hw', haddr⟩
      have hin' := hheader w' hw'
      obtain hw | hw := List.mem_append.mp hw
      · have hin := hifh w hw
        omega
      · have hin := hifds.within w hw
        omega

/-! ## Disjoint ranges -/

theorem app1Size_of_lt {e : ℕ} (h : 2 ≤ e) (h' : e < 65536) : app1Size e = e := by
  rw [app1Size, app1Length]
  omega

/-- Nothing is stored over another part, and everything in the segment and the buffer. -/
def Output.Laid (out : Output) (size : ℕ) : Prop :=
  Separate Again out.stores ∧ ∀ w ∈ out.stores, w.addr < out.app1Size ∧ w.addr < size

/-- The ranges of a call that succeeds are disjoint, in the segment and in the buffer when the
layout lies in the buffer, and only then. -/
theorem laid_iff {info : ExifInfo} {size : ℕ} {out : Output}
    (hrun : writeAPP1 (some size) (some info) thumbnail = .ok out)
    (hend : out.endOffset < 65536) :
    out.Laid size ↔ (layout info thumbnail).Fits size := by
  constructor
  · intro hlaid
    by_contra hfull
    exact clash_of_writeAPP1 hrun hfull hlaid.1
  · intro hfits
    have hlies := lies_layout info thumbnail
    have hifds := (lies_ifdsLayout info thumbnail).le_stop
    rw [writeAPP1_of_fits hfits] at hrun
    cases hrun
    have hsize : app1Size (layout info thumbnail).stop = (layout info thumbnail).stop :=
      app1Size_of_lt (Nat.le_trans (by decide) hifds) hend
    refine ⟨hlies.separate, fun w hw => ⟨?_, hfits w hw⟩⟩
    rw [Output.app1Size, hsize]
    exact (hlies.within w hw).2

def plainInfo : ExifInfo where
  primary :=
    { basic :=
        { yCbCrPositioning := 1
          xResolution := ⟨72, 1⟩
          yResolution := ⟨72, 1⟩
          resolutionUnit := 2
          imageWidth := 640
          imageLength := 480 }
      dataStruct := none
      dataChar := none
      imgDesc := none }
  spec := none
  gps := none
  inter := none

def copyrightInfo : ExifInfo :=
  { plainInfo with
    primary :=
      { plainInfo.primary with
        imgDesc := some
          { (default : PriDesc) with copyright := ⟨true, [97, 98, 99, 100, 101, 102]⟩ } } }

instance (p : Placed) (size : ℕ) : Decidable (p.Fits size) :=
  inferInstanceAs (Decidable (∀ w ∈ p.stores, w.addr < size))

theorem laid_iff_plainInfo :
    (⟨(layout plainInfo []).stores, (layout plainInfo []).stop⟩ : Output).Laid 400 :=
  have hfits : (layout plainInfo []).Fits 400 := by decide +kernel
  (laid_iff (writeAPP1_of_fits hfits) (by decide +kernel)).mpr hfits

/-- The buffer ends within the copyright, whose record is stored over. -/
theorem copyrightInfo_not_laid : ∃ out, writeAPP1 (some 330) (some copyrightInfo) [] = .ok out ∧
    out.endOffset < 65536 ∧ ¬ out.Laid 330 := by
  have hend : (writeAPP1 (some 330) (some copyrightInfo) []).toOption.map Output.endOffset =
      some 328 := by decide +kernel
  have hfull : ¬ (layout copyrightInfo []).Fits 330 := by decide +kernel
  cases hrun : writeAPP1 (some 330) (some copyrightInfo) [] with
  | error e =>
      rw [hrun] at hend
      exact absurd hend nofun
  | ok out =>
      rw [hrun] at hend
      have hend' : out.endOffset = 328 := Option.some.inj hend
      exact ⟨out, rfl, by omega, fun hlaid => clash_of_writeAPP1 hrun hfull hlaid.1⟩

/-! ## The room that the records leave -/

/-- What `IFD0` stores before its values: the number of records, the records and the pointer
behind them. -/
theorem covers_ifd0Layout {info : ExifInfo} {b a : ℕ} (hle : b ≤ a)
    (hlt : a < b + 6 + 12 * (ifd0Plan info).entries) :
    Covers (ifd0Layout info thumbnail b).stores a := by
  refine covers_append.mpr (.inl ?_)
  by_cases hcount : a < b + 2
  · exact covers_append.mpr (.inl (covers_append.mpr (.inl (covers_block _ hle hcount))))
  by_cases hrecords : a < b + 2 + 12 * (ifd0Plan info).entries
  · exact covers_append.mpr (.inl (covers_append.mpr (.inr
      ((ranged_ifd0Plan info).covers _ _ a (Nat.not_lt.mp hcount) hrecords))))
  · have hnext : a < b + 2 + 12 * (ifd0Plan info).entries + 4 := by omega
    exact covers_append.mpr (.inr (covers_block _ (Nat.not_lt.mp hrecords) hnext))

theorem not_covers_ifd0Layout {info : ExifInfo} {b a : ℕ}
    (hle : b + 6 + 12 * (ifd0Plan info).entries ≤ a)
    (hlt : a < align4 (b + 2 + 24 * IFD_HEAD_LENGTH + 4)) :
    ¬ Covers (ifd0Layout info thumbnail b).stores a := by
  have hplan : ¬ Covers ((ifd0Plan info).place (b + 2)
      (align4 (b + 2 + 24 * IFD_HEAD_LENGTH + 4))).stores a := by
    rintro ⟨w, hw, rfl⟩
    have hin := (ranged_ifd0Plan info).within (b + 2) _ w hw
    omega
  have hcount : ∀ n, ¬ Covers (block (Part.count .ifd0) b (be16 n)) a := fun n =>
    (within_block _ b (be16 n)).not_covers (.inr (Nat.le_trans (Nat.le_add_right _ _)
      (show b + 2 + (4 + 12 * (ifd0Plan info).entries) ≤ a by omega)))
  have hnext : ∀ n, ¬ Covers (block (Part.next .ifd0) (b + 2 + 12 * (ifd0Plan info).entries)
      (be32 n)) a := fun n =>
    (within_block _ _ (be32 n)).not_covers (.inr
      (show b + 2 + 12 * (ifd0Plan info).entries + 4 ≤ a by omega))
  intro hcovers
  rw [ifd0Layout, directoryLayout, covers_append, covers_append, covers_append] at hcovers
  obtain ((hcovers | hcovers) | hcovers) | hcovers := hcovers
  · exact hcount _ hcovers
  · exact hplan hcovers
  · exact hnext _ hcovers
  · exact hcount _ hcovers

/-- The directories store what `IFD0` stores, and the rest behind it. -/
theorem covers_ifdsLayout {info : ExifInfo} {a : ℕ}
    (hlt : a < (ifd0Layout info thumbnail 18).stop) :
    Covers (ifdsLayout info thumbnail).stores a ↔
      Covers (ifd0Layout info thumbnail 18).stores a := by
  rw [ifdsLayout]
  split
  · exact Iff.rfl
  · rename_i hthumbnail
    have hifd1 := lies_ifd1Layout (fun h => hthumbnail (List.isEmpty_iff.mpr h))
      (ifd0Layout info thumbnail 18).stop
    rw [covers_append]
    exact or_iff_left (hifd1.within.not_covers (.inl hlt))

theorem le_stop_ifd0Layout (info : ExifInfo) (thumbnail : List UInt8) :
    312 ≤ (ifd0Layout info thumbnail 18).stop :=
  (ranged_ifd0Plan info).le_stop 20 312

/-- Of the first 312 bytes those are stored that come before the end of the records. -/
theorem covers_layout {info : ExifInfo} {a : ℕ} (h : a < 312) :
    Covers (layout info thumbnail).stores a ↔ a < 24 + 12 * (ifd0Plan info).entries := by
  have hstop := le_stop_ifd0Layout info thumbnail
  rw [layout, covers_append, covers_append, covers_ifdsLayout (by omega)]
  constructor
  · intro hcovers
    by_contra hle
    obtain (hcovers | hcovers) | hcovers := hcovers
    · refine (within_block _ 10 (be16 0x4d4d ++ be16 0x002a ++ be32 8)).not_covers
        (.inr ?_) hcovers
      exact Nat.le_trans (show 18 ≤ 24 + 12 * (ifd0Plan info).entries by omega)
        (Nat.not_lt.mp hle)
    · exact not_covers_ifd0Layout (by omega) h hcovers
    · refine (within_block _ 0 (headerBytes _)).not_covers (.inr ?_) hcovers
      exact Nat.le_trans (show 10 ≤ 24 + 12 * (ifd0Plan info).entries by omega)
        (Nat.not_lt.mp hle)
  · intro hlt
    by_cases hheader : a < 10
    · exact .inr (covers_block _ (Nat.zero_le a) hheader)
    by_cases hifh : a < 18
    · exact .inl (.inl (covers_block _ (Nat.not_lt.mp hheader) hifh))
    · exact .inl (.inr (covers_ifd0Layout (Nat.not_lt.mp hifh) (by omega)))

theorem exists_place_of_mem {blocks : List Block} {b : Block} (hb : b ∈ blocks) (d : Dir)
    (o v : ℕ) : ∃ o' v', v ≤ v' ∧ ∀ w ∈ ((b.plan d).place o' v').stores,
      w ∈ ((fieldsPlan d blocks).place o v).stores := by
  induction blocks generalizing o v with
  | nil => exact absurd hb List.not_mem_nil
  | cons b' blocks ih =>
      obtain rfl | hb := List.mem_cons.mp hb
      · exact ⟨o, v, Nat.le_refl v, fun w hw => List.mem_append_left _ hw⟩
      · obtain ⟨o', v', hle, hmem⟩ := ih hb (o + 12 * (b'.plan d).entries)
          ((b'.plan d).place o v).stop
        exact ⟨o', v', Nat.le_trans ((ranged_plan d b').le_stop o v) hle, fun w hw =>
          List.mem_append_right _ (hmem w hw)⟩

/-- The horizontal resolution is stored behind the room for the records. -/
theorem exists_value_ifd0Layout (info : ExifInfo) (thumbnail : List UInt8) :
    ∃ w ∈ (ifd0Layout info thumbnail 18).stores, 312 ≤ w.addr := by
  let b : Block := (always info.primary.basic.xResolution).rational .xResolution
  have hb : b ∈ primaryFields info.primary := by simp [b, primaryFields]
  obtain ⟨o, v, hle, hmem⟩ := exists_place_of_mem hb .ifd0 20 312
  have hvalue : ∃ w ∈ ((b.plan .ifd0).place o v).stores, w.addr = v :=
    ⟨_, List.mem_append_right _ List.mem_cons_self, rfl⟩
  obtain ⟨w, hw, haddr⟩ := hvalue
  refine ⟨w, ?_, haddr ▸ hle⟩
  exact List.mem_append_left _ (List.mem_append_left _ (List.mem_append_right _
    (List.mem_append_left _ (hmem w hw))))

theorem lt_size_of_fits {info : ExifInfo} {size : ℕ}
    (hfits : (layout info thumbnail).Fits size) : 312 < size := by
  obtain ⟨w, hw, hle⟩ := exists_value_ifd0Layout info thumbnail
  refine Nat.lt_of_le_of_lt hle (hfits w ?_)
  refine List.mem_append_left _ (List.mem_append_right _ ?_)
  rw [ifdsLayout]
  split
  · exact hw
  · exact List.mem_append_left _ hw

/-- The segment does not depend on what the buffer held before. -/
def Output.Leakless (out : Output) (size : ℕ) : Prop :=
  ∀ m m' : Memory, (∀ i, size ≤ i → m i = m' i) →
    ∀ i < out.app1Size, image out.stores m i = image out.stores m' i

theorem leakless_layout_iff {info : ExifInfo} {size : ℕ}
    (hfits : (layout info thumbnail).Fits size) :
    (⟨(layout info thumbnail).stores, (layout info thumbnail).stop⟩ : Output).Leakless size ↔
      app1Size (layout info thumbnail).stop ≤ 24 + 12 * (ifd0Plan info).entries := by
  have hentries := entries_ifd0Plan_le info
  have hsize := lt_size_of_fits hfits
  constructor
  · intro hleakless
    by_contra hlt
    let i := 24 + 12 * (ifd0Plan info).entries
    have hi : i < 312 := by omega
    have hnot : ¬ Covers (layout info thumbnail).stores i := fun hcovers =>
      absurd ((covers_layout hi).mp hcovers) (Nat.lt_irrefl i)
    have hbehind : ∀ j, size ≤ j → j ≠ i := fun j hj => by omega
    let zeros : Memory := fun _ => 0
    have hsame := hleakless zeros (Function.update zeros i 1)
      (fun j hj => (Function.update_of_ne (hbehind j hj) 1 zeros).symm) i (Nat.not_le.mp hlt)
    rw [image_of_not_covers hnot, image_of_not_covers hnot, Function.update_self] at hsame
    exact absurd hsame (by decide)
  · intro hle m m' _ i hi
    have hi' : i < 24 + 12 * (ifd0Plan info).entries := Nat.lt_of_lt_of_le hi hle
    exact image_of_covers ((covers_layout (by omega)).mpr hi') m m'

/-- When the layout lies in the buffer, the segment holds nothing of what was there before
only if its length, of 16 bits, has come round to an end within the records of `IFD0`. -/
theorem leakless_iff {info : ExifInfo} {size : ℕ} {out : Output}
    (hrun : writeAPP1 (some size) (some info) thumbnail = .ok out)
    (hfits : (layout info thumbnail).Fits size) :
    out.Leakless size ↔
      app1Size (layout info thumbnail).stop ≤ 24 + 12 * (ifd0Plan info).entries := by
  rw [writeAPP1_of_fits hfits] at hrun
  cases hrun
  exact leakless_layout_iff hfits

theorem leakless_iff_plainInfo :
    (⟨(layout plainInfo []).stores, (layout plainInfo []).stop⟩ : Output).Leakless 400 ↔
      app1Size (layout plainInfo []).stop ≤ 24 + 12 * (ifd0Plan plainInfo).entries :=
  have hfits : (layout plainInfo []).Fits 400 := by decide +kernel
  leakless_iff (writeAPP1_of_fits hfits) hfits

theorem plainInfo_leaks : ∃ out, writeAPP1 (some 400) (some plainInfo) [] = .ok out ∧
    ¬ out.Leakless 400 := by
  have hfits : (layout plainInfo []).Fits 400 := by decide +kernel
  have hsize : ¬ app1Size (layout plainInfo []).stop ≤
      24 + 12 * (ifd0Plan plainInfo).entries := by decide +kernel
  exact ⟨_, writeAPP1_of_fits hfits, fun h => hsize ((leakless_layout_iff hfits).mp h)⟩

end Exif

end Tarako
