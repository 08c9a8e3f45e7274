import Tarako.Camera.ExifFields

/-!
# The directories of the EXIF segment

The slots that a reader finds of each directory of a layout, where the pointers of a directory
lead, and the thumbnail.
-/

namespace Tarako

namespace Exif

open Store

variable {m : Memory} {info : ExifInfo} {thumbnail : List UInt8}

/-! ## Slots of pointers -/

def pointerSlot {α : Type} (info : Option α) (tag : IfdTag) (offset : ℕ) :
    ℕ × Option Tiff.Entry := (tag.code, info.map fun _ => pointerEntry tag offset)

theorem reads_optionalPlan {α : Type} (d : Dir) (tag : IfdTag) {sub : α → ℕ → Placed}
    (hsub : ∀ info b, Lies b (sub info b)) (info : Option α) :
    (optionalPlan d tag sub info).Reads m fun _ v =>
      Tiff.Slots.entries [pointerSlot info tag (align4 v - IFH)] := by
  cases info with
  | none => exact reads_nil
  | some info => exact fun o v hle _ _ h => (shows_pointerPlan (hsub info) hle h).1

theorem shows_optionalPlan {α : Type} {d : Dir} {tag : IfdTag} {sub : α → ℕ → Placed}
    (hsub : ∀ info b, Lies b (sub info b)) {info : α} {o v : ℕ} (hle : o + 12 ≤ v)
    (h : Shows m ((optionalPlan d tag sub (some info)).place o v).stores) :
    Shows m (sub info (align4 v)).stores :=
  (shows_pointerPlan (hsub info) hle h).2

/-! ## The directories -/

/-- Where the values of a directory at `b` begin. -/
def valuesOf (reserved b : ℕ) : ℕ := align4 (b + 2 + reserved * IFD_HEAD_LENGTH + 4)

theorem stop_directoryLayout (d : Dir) (reserved : ℕ) (body : Plan) (next : ℕ → ℕ) (b : ℕ) :
    (directoryLayout d reserved body next b).stop =
      (body.place (b + 2) (valuesOf reserved b)).stop := rfl

theorem stop_seq (p q : Plan) (o v : ℕ) : ((p.seq q).place o v).stop =
    (q.place (o + 12 * p.entries) (p.place o v).stop).stop := rfl

theorem le_valuesOf {reserved b n : ℕ} (h : n ≤ reserved) :
    b + 2 + 12 * n ≤ valuesOf reserved b := by
  have halign := le_align4 (b + 2 + reserved * IFD_HEAD_LENGTH + 4)
  have hlength : reserved * IFD_HEAD_LENGTH = 12 * reserved := Nat.mul_comm _ _
  rw [valuesOf]
  omega

theorem directory_of_reads {d : Dir} {reserved b : ℕ} {body : Plan} {next : ℕ → ℕ}
    {found : ℕ → ℕ → List Tiff.Entry} (hbody : body.Ranged) (hreads : body.Reads m found)
    (hentries : body.entries ≤ reserved) (hreserved : reserved < 65536) (hb : IFH ≤ b)
    (hstop : (directoryLayout d reserved body next b).stop < 65536)
    (h : Shows m (directoryLayout d reserved body next b).stores) :
    Tiff.directory m IFH (b - IFH) = found (b + 2) (valuesOf reserved b) := by
  obtain ⟨hdirectory, -, hplaced⟩ := directory_of_shows hbody hentries hreserved hb h
  have hle := le_valuesOf (b := b) hentries
  exact hdirectory.trans (hreads _ _ hle (by omega) hstop hplaced)

theorem outside_of_regular {blocks : List Block} (h : ∀ b ∈ blocks, b.Regular) :
    ∀ b ∈ blocks, b.supplied = true → b.Outside := fun b hb _ => Block.outside_of_regular (h b hb)

theorem inter_of_shows {inter : InteroperabilityInfo} {b : ℕ} (hb : IFH ≤ b)
    (hstop : (interLayout inter b).stop < 65536) (h : Shows m (interLayout inter b).stores) :
    Tiff.directory m IFH (b - IFH) = Tiff.Slots.entries ((interFields inter).map Block.field) := by
  have hregular := regular_interFields inter
  have hentries : (fieldsPlan .interop (interFields inter)).entries ≤ 1 :=
    entries_fieldsPlan_le .interop _
  rw [directory_of_reads (ranged_fieldsPlan _ _)
    (reads_fieldsPlan .interop (outside_of_regular hregular)) hentries (by decide) hb hstop h,
    slots_of_regular hregular]

theorem gps_of_shows {gps : GpsInfo} {b : ℕ} (hb : IFH ≤ b)
    (hstop : (gpsLayout gps b).stop < 65536) (h : Shows m (gpsLayout gps b).stores) :
    Tiff.directory m IFH (b - IFH) = Tiff.Slots.entries ((gpsFields gps).map Block.field) := by
  have hregular := regular_gpsFields gps
  have hentries : (fieldsPlan .gps (gpsFields gps)).entries ≤ 31 := entries_fieldsPlan_le .gps _
  rw [directory_of_reads (ranged_fieldsPlan _ _)
    (reads_fieldsPlan .gps (outside_of_regular hregular)) hentries (by decide) hb hstop h,
    slots_of_regular hregular]

/-! ### The Exif directory -/

/-- The slots of the Exif directory whose values begin at `v`. -/
def exifSlots (inter : Option InteroperabilityInfo) (spec : SpecificInfo) (v : ℕ) : Tiff.Slots :=
  slots (specFields spec) v ++
    (pointerSlot inter .interoperabilityIfdPointer (align4 (stops (specFields spec) v) - IFH) ::
      (specFields' spec).map Block.field)

/-- The writer of rationals leaves every value behind the directory. -/
theorem Block.outside_of_rational {b : Block} (h : b.writer = .rational) : b.Outside := by
  intro _
  have htype : Tiff.typeSize b.type.code ≤ 8 := by cases b.type <;> decide
  refine ⟨?_, ?_⟩
  · rw [h]
    rfl
  · rw [Block.elements, Writer.length_elements, h]
    exact Nat.mul_le_mul_right b.count htype

theorem outside_specFields (spec : SpecificInfo) :
    ∀ b ∈ specFields spec, b.supplied = true → b.Outside := by
  have hall : ((specFields spec).all fun b =>
      decide (b.Regular ∨ b.writer = .rational)) = true := rfl
  intro b hb _
  exact (of_decide_eq_true (List.all_eq_true.mp hall b hb)).elim Block.outside_of_regular
    Block.outside_of_rational

theorem reads_specPlan (inter : Option InteroperabilityInfo) (spec : SpecificInfo) :
    (specPlan inter spec).Reads m fun _ v => (exifSlots inter spec v).entries := by
  have hregular := regular_specFields' spec
  have hinter := ranged_optionalPlan .exif .interoperabilityIfdPointer lies_interLayout inter
  have hrest := (reads_optionalPlan .exif .interoperabilityIfdPointer lies_interLayout inter).seq
    hinter (ranged_fieldsPlan .exif (specFields' spec))
    (reads_fieldsPlan (m := m) .exif (outside_of_regular hregular))
  have hall := (reads_fieldsPlan .exif (outside_specFields spec)).seq (ranged_fieldsPlan _ _)
    (hinter.seq (ranged_fieldsPlan _ _)) hrest
  intro o v hle hv hstop hshows
  refine (hall o v hle hv hstop hshows).trans ?_
  simp only [stop_fieldsPlan, slots_of_regular hregular, exifSlots, Tiff.Slots.entries,
    ← List.filterMap_append]
  rfl

theorem spec_of_shows {inter : Option InteroperabilityInfo} {spec : SpecificInfo} {b : ℕ}
    (hb : IFH ≤ b) (hstop : (specLayout inter spec b).stop < 65536)
    (h : Shows m (specLayout inter spec b).stores) :
    Tiff.directory m IFH (b - IFH) = (exifSlots inter spec (valuesOf 57 b)).entries :=
  directory_of_reads (ranged_specPlan inter spec) (reads_specPlan inter spec)
    (entries_specPlan_le inter spec) (by decide) hb hstop h

theorem le_stops (d : Dir) (blocks : List Block) (v : ℕ) : v ≤ stops blocks v := by
  rw [← stop_fieldsPlan d blocks 0]
  exact (ranged_fieldsPlan d blocks).le_stop 0 v

/-- The directory of the interoperability index lies in the Exif directory. -/
theorem shows_inter {inter : InteroperabilityInfo} {spec : SpecificInfo} {b : ℕ} (hb : IFH ≤ b)
    (h : Shows m (specLayout (some inter) spec b).stores) :
    let b' := align4 (stops (specFields spec) (valuesOf 57 b))
    IFH ≤ b' ∧ (interLayout inter b').stop ≤ (specLayout (some inter) spec b).stop ∧
      Shows m (interLayout inter b').stores := by
  have hentries := entries_specPlan_le (some inter) spec
  have hfields := ranged_fieldsPlan .exif (specFields spec)
  have hinter := ranged_optionalPlan .exif .interoperabilityIfdPointer lies_interLayout (some inter)
  have hfields' := ranged_fieldsPlan .exif (specFields' spec)
  have hle := le_valuesOf (b := b) hentries
  have hfirst := le_stops .exif (specFields spec) (valuesOf 57 b)
  have hstop := stop_fieldsPlan .exif (specFields spec) (b + 2) (valuesOf 57 b)
  have halign := le_align4 (stops (specFields spec) (valuesOf 57 b))
  obtain ⟨-, -, hplaced⟩ := directory_of_shows (ranged_specPlan (some inter) spec) hentries
    (by decide) hb h
  obtain ⟨-, hrest⟩ := hfields.shows_seq (hinter.seq hfields') hle hplaced
  rw [hstop] at hrest
  have hcount : (specPlan (some inter) spec).entries =
      (fieldsPlan .exif (specFields spec)).entries +
        (1 + (fieldsPlan .exif (specFields' spec)).entries) := rfl
  have hle' : b + 2 + 12 * (fieldsPlan .exif (specFields spec)).entries +
      12 * (1 + (fieldsPlan .exif (specFields' spec)).entries) ≤
        stops (specFields spec) (valuesOf 57 b) := by omega
  obtain ⟨hpointer, -⟩ := hinter.shows_seq hfields' hle' hrest
  refine ⟨by omega, ?_, shows_optionalPlan lies_interLayout (by omega) hpointer⟩
  have hlast := hfields'.le_stop (b + 2 + 12 * (fieldsPlan .exif (specFields spec)).entries + 12)
    (interLayout inter (align4 (stops (specFields spec) (valuesOf 57 b)))).stop
  refine Nat.le_trans hlast (Nat.le_of_eq ?_)
  rw [← hstop]
  rfl

/-! ### The directory of the picture -/

theorem outside_primaryFields' (primary : PrimaryInfo) :
    ∀ b ∈ primaryFields' primary, b.supplied = true → b.Outside := by
  have hall : ((primaryFields' primary).all fun b =>
      decide (b.Regular ∨ b.size ≤ 4)) = true := rfl
  intro b hb _
  obtain hregular | hsize := of_decide_eq_true (List.all_eq_true.mp hall b hb)
  · exact Block.outside_of_regular hregular
  · exact fun hlt => absurd hlt (Nat.not_lt.mpr hsize)

def primaryStop (primary : PrimaryInfo) : ℕ :=
  stops (primaryFields' primary) (stops (primaryFields primary) 312)

def exifStop (info : ExifInfo) : ℕ :=
  info.spec.elim (primaryStop info.primary) fun spec =>
    (specLayout info.inter spec (align4 (primaryStop info.primary))).stop

def ifd0Slots (info : ExifInfo) : Tiff.Slots :=
  slots (primaryFields info.primary) 312 ++
    (slots (primaryFields' info.primary) (stops (primaryFields info.primary) 312) ++
      [pointerSlot info.spec .exifIfdPointer (align4 (primaryStop info.primary) - IFH),
        pointerSlot info.gps .gpsIfdPointer (align4 (exifStop info) - IFH)])

theorem stop_exif (info : ExifInfo) (o : ℕ) :
    ((optionalPlan .ifd0 .exifIfdPointer (specLayout info.inter) info.spec).place o
      (primaryStop info.primary)).stop = exifStop info := by
  rw [exifStop]
  cases info.spec <;> rfl

theorem reads_ifd0Plan (info : ExifInfo) {o : ℕ} (hle : o + 12 * (ifd0Plan info).entries ≤ 312)
    (hstop : ((ifd0Plan info).place o 312).stop < 65536)
    (h : Shows m ((ifd0Plan info).place o 312).stores) :
    Tiff.entries m IFH (ifd0Plan info).entries o = (ifd0Slots info).entries := by
  have hspec := ranged_optionalPlan .ifd0 .exifIfdPointer (lies_specLayout info.inter) info.spec
  have hgps := ranged_optionalPlan .ifd0 .gpsIfdPointer lies_gpsLayout info.gps
  have hpointers := (reads_optionalPlan (m := m) .ifd0 .exifIfdPointer (lies_specLayout info.inter)
    info.spec).seq hspec hgps (reads_optionalPlan .ifd0 .gpsIfdPointer lies_gpsLayout info.gps)
  have hrest := (reads_fieldsPlan .ifd0 (outside_primaryFields' info.primary)).seq
    (ranged_fieldsPlan _ _) (hspec.seq hgps) hpointers
  have hall := (reads_fieldsPlan .ifd0 (outside_of_regular (regular_primaryFields
    info.primary))).seq (ranged_fieldsPlan _ _) ((ranged_fieldsPlan _ _).seq (hspec.seq hgps))
      hrest
  refine (hall o 312 hle (by decide) hstop h).trans ?_
  simp only [stop_fieldsPlan]
  change _ ++ (_ ++ (_ ++ Tiff.Slots.entries [pointerSlot info.gps .gpsIfdPointer
    (align4 ((optionalPlan .ifd0 .exifIfdPointer (specLayout info.inter) info.spec).place _
      (primaryStop info.primary)).stop - IFH)])) = _
  rw [stop_exif, ifd0Slots]
  simp only [Tiff.Slots.entries, ← List.filterMap_append]
  rfl

theorem shows_pointers {o : ℕ} (hle : o + 12 * (ifd0Plan info).entries ≤ 312)
    (h : Shows m ((ifd0Plan info).place o 312).stores) :
    let exif := optionalPlan .ifd0 .exifIfdPointer (specLayout info.inter) info.spec
    let gps := optionalPlan .ifd0 .gpsIfdPointer gpsLayout info.gps
    ∃ o, o + 12 * (exif.entries + gps.entries) ≤ primaryStop info.primary ∧
      Shows m (exif.place o (primaryStop info.primary)).stores ∧
      Shows m (gps.place (o + 12 * exif.entries) (exifStop info)).stores := by
  intro exif gps
  have hexif : exif.Ranged :=
    ranged_optionalPlan .ifd0 .exifIfdPointer (lies_specLayout info.inter) info.spec
  have hgps : gps.Ranged := ranged_optionalPlan .ifd0 .gpsIfdPointer lies_gpsLayout info.gps
  have hfields := ranged_fieldsPlan .ifd0 (primaryFields info.primary)
  have hfields' := ranged_fieldsPlan .ifd0 (primaryFields' info.primary)
  obtain ⟨-, hrest⟩ := hfields.shows_seq (hfields'.seq (hexif.seq hgps)) hle h
  rw [stop_fieldsPlan] at hrest
  have hstops := le_stops .ifd0 (primaryFields info.primary) 312
  have hstops' := le_stops .ifd0 (primaryFields' info.primary)
    (stops (primaryFields info.primary) 312)
  have hcount : (ifd0Plan info).entries = (fieldsPlan .ifd0 (primaryFields info.primary)).entries +
      ((fieldsPlan .ifd0 (primaryFields' info.primary)).entries +
        (exif.entries + gps.entries)) := rfl
  have hle' : o + 12 * (fieldsPlan .ifd0 (primaryFields info.primary)).entries +
      12 * ((fieldsPlan .ifd0 (primaryFields' info.primary)).entries +
        (exif.entries + gps.entries)) ≤ stops (primaryFields info.primary) 312 := by omega
  obtain ⟨-, hpointers⟩ := hfields'.shows_seq (hexif.seq hgps) hle' hrest
  rw [stop_fieldsPlan] at hpointers
  have hle'' : o + 12 * (fieldsPlan .ifd0 (primaryFields info.primary)).entries +
      12 * (fieldsPlan .ifd0 (primaryFields' info.primary)).entries +
        12 * (exif.entries + gps.entries) ≤ primaryStop info.primary := by
    rw [primaryStop]
    omega
  obtain ⟨hshows, hshows'⟩ := hexif.shows_seq hgps hle'' hpointers
  exact ⟨_, hle'', hshows, stop_exif info _ ▸ hshows'⟩

theorem le_primaryStop (primary : PrimaryInfo) : 312 ≤ primaryStop primary :=
  Nat.le_trans (le_stops .ifd0 _ _) (le_stops .ifd0 _ _)

theorem le_exifStop (info : ExifInfo) : primaryStop info.primary ≤ exifStop info := by
  rw [← stop_exif info 0]
  exact (ranged_optionalPlan _ _ (lies_specLayout info.inter) info.spec).le_stop 0 _

theorem stop_ifd0Layout (info : ExifInfo) (thumbnail : List UInt8) :
    (ifd0Layout info thumbnail 18).stop = info.gps.elim (exifStop info) fun gps =>
      (gpsLayout gps (align4 (exifStop info))).stop := by
  have hstop : (ifd0Layout info thumbnail 18).stop = ((optionalPlan .ifd0 .gpsIfdPointer gpsLayout
      info.gps).place 0 (exifStop info)).stop := by
    have hgps : ∀ o o' v, ((optionalPlan .ifd0 .gpsIfdPointer gpsLayout info.gps).place o v).stop =
        ((optionalPlan .ifd0 .gpsIfdPointer gpsLayout info.gps).place o' v).stop := by
      intro o o' v
      cases info.gps <;> rfl
    change ((ifd0Plan info).place 20 312).stop = _
    simp only [ifd0Plan, Plan.seq, stop_fieldsPlan]
    change ((optionalPlan .ifd0 .gpsIfdPointer gpsLayout info.gps).place _
      ((optionalPlan .ifd0 .exifIfdPointer (specLayout info.inter) info.spec).place _
        (primaryStop info.primary)).stop).stop = _
    rw [stop_exif]
    exact hgps _ _ _
  rw [hstop]
  cases info.gps <;> rfl

theorem exifStop_le (info : ExifInfo) (thumbnail : List UInt8) :
    exifStop info ≤ (ifd0Layout info thumbnail 18).stop := by
  rw [stop_ifd0Layout]
  cases info.gps with
  | none => exact Nat.le_refl _
  | some gps => exact Nat.le_trans (le_align4 _) (lies_gpsLayout gps _).le_stop

theorem ifd0_of_shows (hstop : (ifd0Layout info thumbnail 18).stop < 65536)
    (h : Shows m (ifd0Layout info thumbnail 18).stores) :
    Tiff.directory m IFH 8 = (ifd0Slots info).entries ∧
      Tiff.next m IFH 8 =
        (if !thumbnail.isEmpty then (ifd0Layout info thumbnail 18).stop - IFH else 0) := by
  have hentries := Nat.le_trans (entries_ifd0Plan_le info) (show 22 ≤ 24 by decide)
  obtain ⟨hdirectory, hnext, hplaced⟩ := directory_of_shows (ranged_ifd0Plan info) hentries
    (by decide) (show IFH ≤ 18 by decide) h
  have hle : 20 + 12 * (ifd0Plan info).entries ≤ 312 := by omega
  refine ⟨hdirectory.trans (reads_ifd0Plan info hle hstop hplaced), hnext.trans ?_⟩
  have hstop' : ((ifd0Plan info).place 20 312).stop < 65536 := hstop
  change (if _ then ((ifd0Plan info).place 20 312).stop - IFH else 0) % 4294967296 =
    if _ then ((ifd0Plan info).place 20 312).stop - IFH else 0
  split
  · exact Nat.mod_eq_of_lt (Nat.lt_of_le_of_lt (Nat.sub_le _ _)
      (Nat.lt_trans hstop' (by decide)))
  · rfl

theorem shows_spec {spec : SpecificInfo} (hspec : info.spec = some spec)
    (h : Shows m (ifd0Layout info thumbnail 18).stores) :
    Shows m (specLayout info.inter spec (align4 (primaryStop info.primary))).stores := by
  have hentries := Nat.le_trans (entries_ifd0Plan_le info) (show 22 ≤ 24 by decide)
  obtain ⟨-, -, hplaced⟩ := directory_of_shows (ranged_ifd0Plan info) hentries
    (by decide) (show IFH ≤ 18 by decide) h
  obtain ⟨o, hle, hshows, -⟩ := shows_pointers (o := 20) (by omega) hplaced
  rw [hspec] at hle hshows
  have hle' : o + 12 * (1 + _) ≤ primaryStop info.primary := hle
  exact shows_optionalPlan (lies_specLayout info.inter) (by omega) hshows

theorem shows_gps {gps : GpsInfo} (hgps : info.gps = some gps)
    (h : Shows m (ifd0Layout info thumbnail 18).stores) :
    Shows m (gpsLayout gps (align4 (exifStop info))).stores := by
  have hentries := Nat.le_trans (entries_ifd0Plan_le info) (show 22 ≤ 24 by decide)
  have hexif := le_exifStop info
  obtain ⟨-, -, hplaced⟩ := directory_of_shows (ranged_ifd0Plan info) hentries
    (by decide) (show IFH ≤ 18 by decide) h
  obtain ⟨o, hle, -, hshows⟩ := shows_pointers (o := 20) (by omega) hplaced
  rw [hgps] at hle hshows
  have hle' : o + 12 * (_ + 1) ≤ primaryStop info.primary := hle
  exact shows_optionalPlan lies_gpsLayout (by omega) hshows

/-! ### The directory of the thumbnail -/

/-- The thumbnail that the entries of a directory tell. -/
def Designates (m : Memory) (l : List Tiff.Entry) (thumbnail : List UInt8) : Prop :=
  ∃ offset,
    Tiff.find l IfdTag.jpegInterchangeFormat.code =
      some ⟨IfdTag.jpegInterchangeFormat.code, IfdType.long.code, 1, be32 offset⟩ ∧
    Tiff.find l IfdTag.jpegInterchangeFormatLength.code =
      some ⟨IfdTag.jpegInterchangeFormatLength.code, IfdType.long.code, 1,
        be32 thumbnail.length⟩ ∧
    Tiff.bytes m (IFH + offset) thumbnail.length = thumbnail

def lengthBlock (thumbnail : List UInt8) : Block :=
  ⟨true, .jpegInterchangeFormatLength, .long, 1, longs [UInt32.ofNat thumbnail.length], .long⟩

def thumbnailRest (thumbnail : List UInt8) : Plan :=
  (fieldsPlan .ifd1 [lengthBlock thumbnail]).seq (fieldsPlan .ifd1 (primaryFields' ifd1Primary))

def thumbnailSlots (thumbnail : List UInt8) (offset v : ℕ) : Tiff.Slots :=
  (IfdTag.jpegInterchangeFormat.code, some (pointerEntry .jpegInterchangeFormat offset)) ::
    slots (lengthBlock thumbnail :: primaryFields' ifd1Primary) v

theorem ranged_thumbnailRest (thumbnail : List UInt8) : (thumbnailRest thumbnail).Ranged :=
  (ranged_fieldsPlan _ _).seq (ranged_fieldsPlan _ _)

theorem reads_thumbnailRest (thumbnail : List UInt8) : (thumbnailRest thumbnail).Reads m fun _ v =>
    (slots (lengthBlock thumbnail :: primaryFields' ifd1Primary) v).entries := by
  have hlength : ∀ b ∈ [lengthBlock thumbnail], b.supplied = true → b.Outside :=
    outside_of_regular (regular_of_all rfl)
  have hseq := (reads_fieldsPlan (m := m) .ifd1 hlength).seq (ranged_fieldsPlan _ _)
    (ranged_fieldsPlan _ _) (reads_fieldsPlan .ifd1 (outside_primaryFields' ifd1Primary))
  intro o v hle hv hstop h
  refine (hseq o v hle hv hstop h).trans ?_
  simp only [stop_fieldsPlan, Tiff.Slots.entries, ← List.filterMap_append]
  rfl

theorem thumbnail_of_shows (hthumbnail : thumbnail ≠ []) {o v : ℕ}
    (hle : o + 12 * (thumbnailPlan thumbnail).entries ≤ v) (hv : IFH ≤ v)
    (hstop : ((thumbnailPlan thumbnail).place o v).stop < 65536)
    (h : Shows m ((thumbnailPlan thumbnail).place o v).stores) :
    ∃ offset, Tiff.entries m IFH (thumbnailPlan thumbnail).entries o =
        (thumbnailSlots thumbnail offset v).entries ∧
      Tiff.bytes m (IFH + offset) thumbnail.length = thumbnail := by
  obtain ⟨c, bytes, rfl⟩ := List.exists_cons_of_ne_nil hthumbnail
  let rest := thumbnailRest (c :: bytes)
  have hrest : rest.Ranged := ranged_thumbnailRest _
  have hcount : (thumbnailPlan (c :: bytes)).entries = 1 + rest.entries := rfl
  let stop := (rest.place (o + 12) v).stop
  have hle' : o + 12 * (1 + rest.entries) ≤ v := hle
  have hv' : v ≤ stop := hrest.le_stop (o + 12) v
  have hwithin := hrest.within (o + 12) v
  let first := block (Part.record .ifd1 .jpegInterchangeFormat) o
    ((⟨true, .jpegInterchangeFormat, .long, 1, longs [0], .long⟩ : Block).record v)
  let picture := block Part.thumbnail stop (c :: bytes)
  let record := block (Part.record .ifd1 .jpegInterchangeFormat) o
    (pointerRecord .jpegInterchangeFormat (stop - IFH))
  have hpicture := within_block Part.thumbnail stop (c :: bytes)
  have hrecord : Within o (o + 12) record := within_block _ o (pointerRecord _ _)
  have hstores : Shows m (first ++ (rest.place (o + 12) v).stores ++ (picture ++ record)) := by
    have hshows : Shows m ((((first ++ []) ++ ((fieldsPlan .ifd1 [lengthBlock (c :: bytes)]).place
        (o + 12) v).stores) ++ ((fieldsPlan .ifd1 (primaryFields' ifd1Primary)).place (o + 12 + 12)
          ((fieldsPlan .ifd1 [lengthBlock (c :: bytes)]).place (o + 12) v).stop).stores) ++
            picture ++ record) := h
    rw [List.append_nil, List.append_assoc first, List.append_assoc _ picture] at hshows
    exact hshows
  refine ⟨stop - IFH, ?_, ?_⟩
  · have hshows : Shows m (rest.place (o + 12) v).stores := by
      refine hstores.infix fun a ⟨w, hw, haddr⟩ ⟨w', hw', haddr'⟩ => ?_
      have hin := hwithin w hw
      obtain hw' | hw' := List.mem_append.mp hw'
      · have hin' := hpicture w' hw'
        omega
      · have hin' := hrecord w' hw'
        omega
    have hentry := entry_pointer hstores.right.right
    have hbehind : o + 12 + 12 * rest.entries ≤ v := by omega
    have hreads := reads_thumbnailRest (c :: bytes) (o + 12) v hbehind hv
      (Nat.lt_of_le_of_lt (Nat.le_add_right _ _) hstop) hshows
    rw [hcount, Tiff.entries_add]
    exact congrArg₂ (fun e l => e :: l) hentry hreads
  · have hshows : Shows m picture := by
      refine hstores.right.left fun a ⟨w, hw, haddr⟩ ⟨w', hw', haddr'⟩ => ?_
      have hin := hpicture w hw
      have hin' := hrecord w' hw'
      omega
    have hbegin : IFH + (stop - IFH) = stop := Nat.add_sub_cancel' (Nat.le_trans hv hv')
    rw [hbegin]
    exact bytes_of_shows hshows

theorem slot_lengthBlock (hlt : thumbnail.length < 65536) (v : ℕ) :
    (lengthBlock thumbnail).slot v = (IfdTag.jpegInterchangeFormatLength.code,
      some ⟨IfdTag.jpegInterchangeFormatLength.code, IfdType.long.code, 1,
        be32 thumbnail.length⟩) := by
  have helements := elements_longs [UInt32.ofNat thumbnail.length]
  have hlength : (UInt32.ofNat thumbnail.length).toNat = thumbnail.length := by
    rw [UInt32.toNat_ofNat']
    omega
  rw [slot_of_regular (show (lengthBlock thumbnail).Regular from rfl), Block.field]
  change (_, some (⟨_, _, _, Writer.long.elements (longs [UInt32.ofNat thumbnail.length])
    [UInt32.ofNat thumbnail.length].length⟩ : Tiff.Entry)) = _
  rw [helements, List.map_singleton, hlength]
  rfl

theorem ifd1_of_shows (hthumbnail : thumbnail ≠ []) {b : ℕ} (hb : IFH ≤ b)
    (hstop : (ifd1Layout thumbnail b).stop < 65536)
    (h : Shows m (ifd1Layout thumbnail b).stores) :
    Designates m (Tiff.directory m IFH (b - IFH)) thumbnail := by
  have hfields := ranged_fieldsPlan .ifd1 (primaryFields ifd1Primary)
  have hthumb := ranged_thumbnailPlan hthumbnail
  have hentries := entries_ifd1Plan_le thumbnail
  obtain ⟨hdirectory, -, hplaced⟩ := directory_of_shows (hfields.seq hthumb) hentries (by decide)
    hb h
  have hle := le_valuesOf (b := b) hentries
  obtain ⟨hshows, hshows'⟩ := hfields.shows_seq hthumb hle hplaced
  rw [stop_fieldsPlan] at hshows'
  have hstops := le_stops .ifd1 (primaryFields ifd1Primary) (valuesOf 24 b)
  have hcount : (ifd1Plan thumbnail).entries = (fieldsPlan .ifd1 (primaryFields
      ifd1Primary)).entries + (thumbnailPlan thumbnail).entries := rfl
  have hstop' : ((thumbnailPlan thumbnail).place
      (b + 2 + 12 * (fieldsPlan .ifd1 (primaryFields ifd1Primary)).entries)
      (stops (primaryFields ifd1Primary) (valuesOf 24 b))).stop < 65536 := by
    rw [← stop_fieldsPlan .ifd1 (primaryFields ifd1Primary) (b + 2)]
    exact hstop
  have hbegin := hthumb.le_stop
    (b + 2 + 12 * (fieldsPlan .ifd1 (primaryFields ifd1Primary)).entries)
    (stops (primaryFields ifd1Primary) (valuesOf 24 b))
  obtain ⟨offset, hrest, hbytes⟩ := thumbnail_of_shows hthumbnail (by omega) (by omega) hstop'
    hshows'
  have hfound := reads_fieldsPlan .ifd1 (outside_of_regular (regular_primaryFields ifd1Primary))
    (b + 2) (valuesOf 24 b) (by omega) (by omega)
    (by rw [stop_fieldsPlan]; omega) hshows
  have hall : Tiff.directory m IFH (b - IFH) =
      Tiff.Slots.entries (slots (primaryFields ifd1Primary) (valuesOf 24 b) ++
        thumbnailSlots thumbnail offset (stops (primaryFields ifd1Primary) (valuesOf 24 b))) := by
    refine hdirectory.trans ?_
    rw [Tiff.Slots.entries, List.filterMap_append]
    exact (Tiff.entries_add m IFH _ _ _).trans (congrArg₂ (· ++ ·) hfound hrest)
  have hlt : thumbnail.length < 65536 := Nat.lt_of_le_of_lt (Nat.le_add_left _ _) hstop'
  have htagged : (slots (primaryFields ifd1Primary) (valuesOf 24 b) ++ thumbnailSlots thumbnail
      offset (stops (primaryFields ifd1Primary) (valuesOf 24 b))).Tagged := by
    refine (tagged_slots _ _).append (.cons (fun e he => ?_) (tagged_slots _ _))
    exact Option.some.inj he ▸ rfl
  have hnodup : ((slots (primaryFields ifd1Primary) (valuesOf 24 b) ++ thumbnailSlots thumbnail
      offset (stops (primaryFields ifd1Primary) (valuesOf 24 b))).map Prod.fst).Nodup := by
    rw [thumbnailSlots, List.map_append, List.map_cons, map_fst_slots, map_fst_slots]
    exact of_decide_eq_true rfl
  rw [hall]
  refine ⟨offset, Tiff.Slots.find_of_mem htagged hnodup ?_,
    Tiff.Slots.find_of_mem htagged hnodup ?_, hbytes⟩
  · exact List.mem_append_right _ List.mem_cons_self
  · rw [← slot_lengthBlock hlt (stops (primaryFields ifd1Primary) (valuesOf 24 b))]
    exact List.mem_append_right _ (List.mem_cons_of_mem _ List.mem_cons_self)

/-! ### The segment -/

theorem layout_of_shows (h : Shows m (layout info thumbnail).stores) :
    Tiff.bytes m IFH 4 = [0x4d, 0x4d, 0x00, 0x2a] ∧ Tiff.first m IFH = 8 ∧
      Shows m (ifdsLayout info thumbnail).stores := by
  have hifds := lies_ifdsLayout info thumbnail
  have hifh := within_block Part.ifh 10 (be16 0x4d4d ++ be16 0x002a ++ be32 8)
  have hheader := within_block Part.header 0
    (headerBytes (app1Length (ifdsLayout info thumbnail).stop))
  have hbefore : Shows m (block Part.ifh 10 (be16 0x4d4d ++ be16 0x002a ++ be32 8) ++
      (ifdsLayout info thumbnail).stores) := by
    refine Shows.left h fun a ⟨w, hw, haddr⟩ ⟨w', hw', haddr'⟩ => ?_
    have hin' : w'.addr < 0 + 10 := (hheader w' hw').2
    obtain hw | hw := List.mem_append.mp hw
    · have hin := hifh w hw
      omega
    · have hin := hifds.within w hw
      omega
  have hbytes : Tiff.bytes m IFH 8 = be16 0x4d4d ++ be16 0x002a ++ be32 8 := by
    refine bytes_of_shows (hbefore.left fun a ⟨w, hw, haddr⟩ ⟨w', hw', haddr'⟩ => ?_)
    have hin : w.addr < 10 + 8 := (hifh w hw).2
    have hin' := hifds.within w' hw'
    omega
  rw [Tiff.bytes_add m IFH 4 4] at hbytes
  obtain ⟨hmagic, hfirst⟩ := List.append_inj' hbytes rfl
  refine ⟨hmagic, ?_, hbefore.right⟩
  rw [Tiff.first, Tiff.word32, hfirst]
  rfl

theorem ifds_of_shows (h : Shows m (ifdsLayout info thumbnail).stores) :
    Shows m (ifd0Layout info thumbnail 18).stores ∧
      (ifd0Layout info thumbnail 18).stop ≤ (ifdsLayout info thumbnail).stop ∧
      (thumbnail ≠ [] → ifdsLayout info thumbnail =
          ⟨(ifd0Layout info thumbnail 18).stores ++
              (ifd1Layout thumbnail (ifd0Layout info thumbnail 18).stop).stores,
            (ifd1Layout thumbnail (ifd0Layout info thumbnail 18).stop).stop⟩) := by
  by_cases hthumbnail : thumbnail = []
  · have hlayout : ifdsLayout info thumbnail = ifd0Layout info thumbnail 18 := by
      rw [ifdsLayout, hthumbnail]
      rfl
    exact ⟨hlayout ▸ h, Nat.le_of_eq (congrArg Placed.stop hlayout.symm),
      fun hne => absurd hthumbnail hne⟩
  · have hlayout : ifdsLayout info thumbnail =
        ⟨(ifd0Layout info thumbnail 18).stores ++
            (ifd1Layout thumbnail (ifd0Layout info thumbnail 18).stop).stores,
          (ifd1Layout thumbnail (ifd0Layout info thumbnail 18).stop).stop⟩ := by
      rw [ifdsLayout, if_neg fun hempty => hthumbnail (List.isEmpty_iff.mp hempty)]
    have hifd0 := lies_ifd0Layout info thumbnail 18
    have hifd1 := lies_ifd1Layout hthumbnail (ifd0Layout info thumbnail 18).stop
    rw [hlayout] at h ⊢
    refine ⟨h.left ?_, hifd1.le_stop, fun _ => rfl⟩
    rintro a ⟨w, hw, haddr⟩ ⟨w', hw', haddr'⟩
    have hin := hifd0.within w hw
    have hin' := hifd1.within w' hw'
    omega

end Exif

end Tarako
