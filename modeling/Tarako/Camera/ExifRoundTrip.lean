import Mathlib.Algebra.GroupWithZero.Nat
import Tarako.Camera.ExifDirectories

/-!
# The round trip of the EXIF segment

The segment read as a TIFF stream. A call whose layout lies in the buffer gives back the
fields that are supplied just when none of the fields that the writer treats otherwise than
the rest is in the way, which is `ExifInfo.Faithful`.
-/

namespace Tarako

namespace Exif

open Store

variable {m : Memory} {info : ExifInfo} {thumbnail : List UInt8}

/-! ## What is read -/

/-- Apart from the pointers to other directories the entries are those of the fields that are
supplied, and no tag is there twice. -/
def Holds (l : List Tiff.Entry) (pointers : List IfdTag) (fields : Tiff.Slots) : Prop :=
  (l.map Tiff.Entry.tag).Nodup ∧
    (l.filter fun e => !(pointers.map IfdTag.code).contains e.tag).Perm fields.entries

/-- What is read of a segment is what it has been written from. -/
structure ReadsBack (info : ExifInfo) (thumbnail : List UInt8) (m : Memory) : Prop where
  header : Tiff.bytes m IFH 4 = [0x4d, 0x4d, 0x00, 0x2a]
  ifd0 : Holds (Tiff.directory m IFH (Tiff.first m IFH)) [.exifIfdPointer, .gpsIfdPointer]
    (primarySlots info.primary)
  exif : Holds (Tiff.sub m IFH (Tiff.directory m IFH (Tiff.first m IFH))
      IfdTag.exifIfdPointer.code) [.interoperabilityIfdPointer] (info.spec.elim [] specSlots)
  gps : Holds (Tiff.sub m IFH (Tiff.directory m IFH (Tiff.first m IFH))
      IfdTag.gpsIfdPointer.code) [] (info.gps.elim [] gpsSlots)
  interop : Holds (Tiff.sub m IFH (Tiff.sub m IFH (Tiff.directory m IFH (Tiff.first m IFH))
      IfdTag.exifIfdPointer.code) IfdTag.interoperabilityIfdPointer.code) []
    (info.inter.elim [] interSlots)
  ifd1 : Tiff.next m IFH (Tiff.first m IFH) ≠ 0 ↔ thumbnail ≠ []
  thumbnail : thumbnail ≠ [] →
    Designates m (Tiff.directory m IFH (Tiff.next m IFH (Tiff.first m IFH))) thumbnail

/-! ## The offset of the subject area -/

/-- The room that the value of a block takes behind the directory. -/
def Block.room (b : Block) : ℕ :=
  if b.supplied ∧ b.writer.outside b.count = true then align4 b.elements.length else 0

/-- The blocks of the Exif directory before the subject area, the area itself, and those behind
it. -/
def areaBefore (spec : SpecificInfo) : List Block := (specFields spec).take 21

/-- Where the value of the subject area is: behind the records of two directories and the values
before it. -/
def areaOffset (primary : PrimaryInfo) (spec : SpecificInfo) : ℕ :=
  994 + ((primaryFields primary ++ primaryFields' primary ++ areaBefore spec).map
    Block.room).sum

/-- The fields that are not written as the others are do not matter. -/
structure ExifInfo.Faithful (info : ExifInfo) : Prop where
  imageWidth : info.primary.basic.imageWidth.toNat < 65536
  imageLength : info.primary.basic.imageLength.toNat < 65536
  subjectArea : ∀ spec, info.spec = some spec →
    (spec.picTakingCond.getD default).subjectArea.valid = true →
    AreaKept (spec.picTakingCond.getD default).subjectArea.value (areaOffset info.primary spec)
  makerNote : ∀ spec, info.spec = some spec →
    0 < (spec.user.getD default).makerNote.value.count →
    (spec.user.getD default).makerNote.valid = true
  userComment : ∀ spec, info.spec = some spec →
    0 < (spec.user.getD default).userComment.value.count →
    (spec.user.getD default).userComment.valid = true
  gpsDestLongitude : ∀ gps, info.gps = some gps →
    gps.gpsDestLongitude.valid = gps.gpsDestLatitude.valid
  interoperabilityIndex : info.spec = none → ∀ inter, info.inter = some inter →
    inter.interoperabilityIndex.valid = true → inter.interoperabilityIndex.value.count = 0

theorem align4_of_dvd {x : ℕ} (h : 4 ∣ x) : align4 x = x := by
  rw [align4]
  omega

theorem Block.stop_of_dvd {b : Block} {v : ℕ} (h : 4 ∣ v) : b.stop v = v + b.room := by
  rw [stop, room]
  split
  · rw [align4, align4]
    omega
  · rfl

theorem Block.dvd_room (b : Block) : 4 ∣ b.room := by
  rw [room]
  split
  · exact ⟨_, Nat.mul_comm _ _⟩
  · exact Nat.dvd_zero 4

theorem stops_of_dvd (blocks : List Block) {v : ℕ} (h : 4 ∣ v) :
    stops blocks v = v + (blocks.map Block.room).sum ∧ 4 ∣ stops blocks v := by
  induction blocks generalizing v with
  | nil => exact ⟨rfl, h⟩
  | cons b blocks ih =>
      have hb : 4 ∣ b.stop v := by
        rw [Block.stop_of_dvd h]
        exact Nat.dvd_add h b.dvd_room
      obtain ⟨hstops, hdvd⟩ := ih hb
      refine ⟨?_, hdvd⟩
      change stops blocks (b.stop v) = _
      rw [hstops, Block.stop_of_dvd h, List.map_cons, List.sum_cons, Nat.add_assoc]

/-! ## The fields compared -/

theorem tagged_fields (blocks : List Block) : Tiff.Slots.Tagged (blocks.map Block.field) := by
  intro p hp e he
  obtain ⟨b, -, rfl⟩ := List.mem_map.mp hp
  rw [Block.field] at he
  simp only at he
  split at he
  · exact Option.some.inj he ▸ rfl
  · exact absurd he.symm (Option.some_ne_none _)

/-- A directory holds the fields when its slots, but for the pointers, are those of the
fields. -/
theorem holds_iff {A fields : Tiff.Slots} {pointers : List IfdTag} (hA : A.Tagged)
    (hnodup : (A.map Prod.fst).Nodup) (hfields : fields.Tagged)
    (htags : (A.filter fun s => !(pointers.map IfdTag.code).contains s.1).map Prod.fst =
      fields.map Prod.fst) :
    Holds A.entries pointers fields ↔
      (A.filter fun s => !(pointers.map IfdTag.code).contains s.1) = fields := by
  rw [Holds, Tiff.Slots.filter_entries hA fun tag => !(pointers.map IfdTag.code).contains tag]
  have hfilter : Tiff.Slots.Tagged
      (A.filter fun s => !(pointers.map IfdTag.code).contains s.1) := fun p hp =>
    hA p (List.mem_of_mem_filter hp)
  have hnodup' := hnodup.sublist (List.Sublist.map Prod.fst (List.filter_sublist
    (p := fun s : ℕ × Option Tiff.Entry => !(pointers.map IfdTag.code).contains s.1) (l := A)))
  rw [Tiff.Slots.perm_entries_iff htags hnodup' hfilter hfields]
  exact and_iff_right (Tiff.Slots.nodup_tags hA hnodup)

theorem filter_of_all {A : Tiff.Slots} {p : ℕ → Bool} (h : (A.map Prod.fst).all p = true) :
    (A.filter fun s => p s.1) = A :=
  List.filter_eq_self.mpr fun _ hs => List.all_eq_true.mp h _ (List.mem_map_of_mem hs)

theorem tagged_pointer {α : Type} (info : Option α) (tag : IfdTag) (offset : ℕ) (e : Tiff.Entry)
    (he : (pointerSlot info tag offset).2 = some e) : e.tag = (pointerSlot info tag offset).1 := by
  cases info with
  | none => exact absurd he.symm (Option.some_ne_none _)
  | some info => exact Option.some.inj he ▸ rfl

def commentBehind (spec : SpecificInfo) : List Block := (specFields spec).drop 24

theorem specSlots_eq (spec : SpecificInfo) : specSlots spec =
    (areaBefore spec).map Block.field ++
      (spec.picTakingCond.getD default).subjectArea.slot .subjectArea .short ::
      (spec.user.getD default).makerNote.slot .makerNote .undefined ::
      (spec.user.getD default).userComment.slot .userComment .undefined ::
      ((commentBehind spec).map Block.field ++ (specFields' spec).map Block.field) := by
  simp only [areaBefore, commentBehind, specFields, specFields', List.take_succ_cons,
    List.take_zero, List.drop_succ_cons, List.drop_zero, List.map_cons, List.map_nil,
    Field.field_rational,
    Field.field_srational, Field.field_short, Field.field_shortArray, Field.field_long,
    Field.field_ascii, Field.field_asciiArray, Field.field_undefined, Field.field_undefinedArray,
    Field.field_custom_short, Field.field_custom_byte, ne_eq, reduceCtorEq, not_false_eq_true]
  rfl

/-- The slots that are found of the Exif directory, but for the pointer. -/
theorem slots_specFields (spec : SpecificInfo) (v : ℕ) : slots (specFields spec) v =
    (areaBefore spec).map Block.field ++
      ((spec.picTakingCond.getD default).subjectArea.custom .subjectArea .short .rational).slot
        (stops (areaBefore spec) v) ::
      (Field.mk true (spec.user.getD default).makerNote.value).slot .makerNote .undefined ::
      (Field.mk true (spec.user.getD default).userComment.value).slot .userComment .undefined ::
      (commentBehind spec).map Block.field := by
  let area := (spec.picTakingCond.getD default).subjectArea.custom .subjectArea .short .rational
  let maker := (Field.mk true (spec.user.getD default).makerNote.value).custom .makerNote .undefined
    .byte
  let comment := (Field.mk true (spec.user.getD default).userComment.value).custom .userComment
    .undefined .byte
  have hfields : specFields spec =
      areaBefore spec ++ area :: ([maker, comment] ++ commentBehind spec) := rfl
  have hbefore : ∀ b ∈ areaBefore spec, b.Regular := regular_of_all rfl
  have hbehind : ∀ b ∈ [maker, comment] ++ commentBehind spec, b.Regular := regular_of_all rfl
  rw [hfields, slots_append, slots_of_regular hbefore, slots, slots_of_regular hbehind,
    List.map_append, List.map_cons, List.map_singleton, Field.field_custom_byte _ _ (by decide),
    Field.field_custom_byte _ _ (by decide)]
  rfl

theorem filter_exifSlots (inter : Option InteroperabilityInfo) (spec : SpecificInfo) (v : ℕ) :
    ((exifSlots inter spec v).filter fun s =>
        !([IfdTag.interoperabilityIfdPointer].map IfdTag.code).contains s.1) =
      slots (specFields spec) v ++ (specFields' spec).map Block.field := by
  have hfields : ((slots (specFields spec) v).map Prod.fst).all
      (fun tag => !([IfdTag.interoperabilityIfdPointer].map IfdTag.code).contains tag) = true := by
    rw [map_fst_slots]
    rfl
  have hfields' : (((specFields' spec).map Block.field).map Prod.fst).all
      (fun tag => !([IfdTag.interoperabilityIfdPointer].map IfdTag.code).contains tag) = true := rfl
  rw [exifSlots, List.filter_append, filter_of_all hfields]
  exact congrArg (slots (specFields spec) v ++ ·)
    ((List.filter_cons_of_neg Bool.false_ne_true).trans (filter_of_all hfields'))

theorem tagged_exifSlots (inter : Option InteroperabilityInfo) (spec : SpecificInfo) (v : ℕ) :
    (exifSlots inter spec v).Tagged :=
  (tagged_slots _ _).append (.cons (tagged_pointer inter _ _) (tagged_fields _))

theorem nodup_exifSlots (inter : Option InteroperabilityInfo) (spec : SpecificInfo) (v : ℕ) :
    ((exifSlots inter spec v).map Prod.fst).Nodup := by
  rw [exifSlots, List.map_append, map_fst_slots]
  exact of_decide_eq_true rfl

theorem tagged_specSlots (spec : SpecificInfo) : (specSlots spec).Tagged := by
  rw [specSlots_eq]
  exact (tagged_fields _).append (.cons (Field.tag_slot _ _ _) (.cons (Field.tag_slot _ _ _)
    (.cons (Field.tag_slot _ _ _) ((tagged_fields _).append (tagged_fields _)))))

theorem holds_exif (inter : Option InteroperabilityInfo) (spec : SpecificInfo) {v : ℕ}
    (hv : stops (areaBefore spec) v < 65536) :
    Holds (exifSlots inter spec v).entries [.interoperabilityIfdPointer] (specSlots spec) ↔
      ((spec.picTakingCond.getD default).subjectArea.valid = true →
          AreaKept (spec.picTakingCond.getD default).subjectArea.value
            (stops (areaBefore spec) v - IFH)) ∧
        (0 < (spec.user.getD default).makerNote.value.count →
          (spec.user.getD default).makerNote.valid = true) ∧
        (0 < (spec.user.getD default).userComment.value.count →
          (spec.user.getD default).userComment.valid = true) := by
  have htags : ((exifSlots inter spec v).filter fun s =>
      !([IfdTag.interoperabilityIfdPointer].map IfdTag.code).contains s.1).map Prod.fst =
        (specSlots spec).map Prod.fst := by
    rw [filter_exifSlots, List.map_append, map_fst_slots]
    rfl
  rw [holds_iff (tagged_exifSlots inter spec v) (nodup_exifSlots inter spec v)
    (tagged_specSlots spec) htags, filter_exifSlots, specSlots_eq, slots_specFields]
  simp only [List.append_assoc, List.cons_append, List.append_cancel_left_eq, List.cons.injEq]
  rw [slot_area_iff _ _ hv, Field.slot_eq_iff, Field.slot_eq_iff]
  have hpresent : ∀ c : Custom, Value.present c = true ↔ 0 < c.count := fun c =>
    decide_eq_true_iff
  simp only [hpresent, and_true]

/-- The picture's own fields, with the two longs that the writer of shorts writes. -/
theorem slots_primaryFields (primary : PrimaryInfo) (v : ℕ) :
    slots (primaryFields primary) v ++
        slots (primaryFields' primary) (stops (primaryFields primary) v) =
      primarySlots primary ↔
    primary.basic.imageWidth.toNat < 65536 ∧ primary.basic.imageLength.toNat < 65536 := by
  let dataChar := primary.dataChar.getD default
  let imgDesc := primary.imgDesc.getD default
  let before := [dataChar.yCbCrCoefficients.rationalArray .yCbCrCoefficients,
    (always primary.basic.yCbCrPositioning).short .yCbCrPosition]
  let width : Block := ⟨true, .imageWidth, .long, 1, longs [primary.basic.imageWidth], .short⟩
  let length : Block := ⟨true, .imageLength, .long, 1, longs [primary.basic.imageLength], .short⟩
  let behind := [dataChar.referenceBlackWhite.rationalArray .referenceBlackWhite,
    imgDesc.copyright.ascii .copyright]
  have hfields : primaryFields' primary = before ++ width :: length :: behind := rfl
  have hbefore : ∀ b ∈ before, b.Regular := regular_of_all rfl
  have hbehind : ∀ b ∈ behind, b.Regular := regular_of_all rfl
  have hslots : primarySlots primary = (primaryFields primary).map Block.field ++
      (before.map Block.field ++ (always primary.basic.imageWidth).slot .imageWidth .long ::
        (always primary.basic.imageLength).slot .imageLength .long :: behind.map Block.field) := by
    simp only [before, behind, primaryFields, List.map_cons, List.map_nil, Field.field_rational,
      Field.field_rationalArray, Field.field_short, Field.field_shortArray, Field.field_ascii,
      Field.field_asciiArray]
    rfl
  rw [slots_of_regular (regular_primaryFields primary), hfields, slots_append,
    slots_of_regular hbefore, slots, slots, slots_of_regular hbehind, hslots]
  simp only [List.append_cancel_left_eq, List.cons.injEq, and_true]
  exact and_congr (slot_long_short_iff _ _ _) (slot_long_short_iff _ _ _)

theorem tagged_primarySlots (primary : PrimaryInfo) : (primarySlots primary).Tagged := by
  simp only [primarySlots]
  repeat refine .cons (Field.tag_slot _ _ _) ?_
  exact fun _ hp => absurd hp List.not_mem_nil

theorem tagged_ifd0Slots (info : ExifInfo) : (ifd0Slots info).Tagged :=
  (tagged_slots _ _).append ((tagged_slots _ _).append (.cons (tagged_pointer _ _ _)
    (.cons (tagged_pointer _ _ _) fun _ hp => absurd hp List.not_mem_nil)))

theorem nodup_ifd0Slots (info : ExifInfo) : ((ifd0Slots info).map Prod.fst).Nodup := by
  rw [ifd0Slots, List.map_append, List.map_append, map_fst_slots, map_fst_slots]
  exact of_decide_eq_true rfl

theorem holds_ifd0 (info : ExifInfo) :
    Holds (ifd0Slots info).entries [.exifIfdPointer, .gpsIfdPointer] (primarySlots info.primary) ↔
      info.primary.basic.imageWidth.toNat < 65536 ∧
        info.primary.basic.imageLength.toNat < 65536 := by
  let own := slots (primaryFields info.primary) 312 ++
    slots (primaryFields' info.primary) (stops (primaryFields info.primary) 312)
  have hown : (own.map Prod.fst).all (fun tag =>
      !([IfdTag.exifIfdPointer, .gpsIfdPointer].map IfdTag.code).contains tag) = true := by
    rw [List.map_append, map_fst_slots, map_fst_slots]
    rfl
  have hfilter : ((ifd0Slots info).filter fun s =>
      !([IfdTag.exifIfdPointer, .gpsIfdPointer].map IfdTag.code).contains s.1) = own := by
    rw [ifd0Slots, ← List.append_assoc, List.filter_append, filter_of_all hown]
    exact List.append_nil own
  have htags : own.map Prod.fst = (primarySlots info.primary).map Prod.fst := by
    rw [List.map_append, map_fst_slots, map_fst_slots]
    rfl
  rw [holds_iff (tagged_ifd0Slots info) (nodup_ifd0Slots info)
    (tagged_primarySlots info.primary) (hfilter ▸ htags), hfilter]
  exact slots_primaryFields info.primary 312

theorem holds_gps (gps : GpsInfo) :
    Holds (Tiff.Slots.entries ((gpsFields gps).map Block.field)) [] (gpsSlots gps) ↔
      gps.gpsDestLongitude.valid = gps.gpsDestLatitude.valid := by
  let before := (gpsFields gps).take 22
  let longitude := (Field.mk gps.gpsDestLatitude.valid gps.gpsDestLongitude.value).rationalArray
    .gpsDestLongitude
  let behind := (gpsFields gps).drop 23
  have hslots : gpsSlots gps = before.map Block.field ++
      gps.gpsDestLongitude.slot .gpsDestLongitude .rational :: behind.map Block.field := by
    simp only [before, behind, gpsFields, List.take_succ_cons, List.take_zero, List.drop_succ_cons,
      List.drop_zero, List.map_cons, List.map_nil, Field.field_rational, Field.field_rationalArray,
      Field.field_short, Field.field_ascii, Field.field_asciiArray, Field.field_byte,
      Field.field_byteArray, Field.field_custom_byte, ne_eq, reduceCtorEq, not_false_eq_true]
    rfl
  have hfields : (gpsFields gps).map Block.field = before.map Block.field ++
      (Field.mk gps.gpsDestLatitude.valid gps.gpsDestLongitude.value).slot .gpsDestLongitude
        .rational :: behind.map Block.field := by
    rw [← Field.field_rationalArray]
    rfl
  have htagged : (gpsSlots gps).Tagged := by
    rw [hslots]
    exact (tagged_fields _).append (.cons (Field.tag_slot _ _ _) (tagged_fields _))
  have hall : (((gpsFields gps).map Block.field).filter fun s =>
      !(([] : List IfdTag).map IfdTag.code).contains s.1) = (gpsFields gps).map Block.field :=
    List.filter_eq_self.mpr fun _ _ => rfl
  rw [holds_iff (tagged_fields _) (of_decide_eq_true rfl) htagged (by rw [hall]; rfl), hall,
    hslots, hfields]
  simp only [List.append_cancel_left_eq, List.cons.injEq, and_true]
  exact Field.slot_eq_iff.trans (forall_prop_of_true rfl)

theorem holds_inter (inter : InteroperabilityInfo) :
    Holds (Tiff.Slots.entries ((interFields inter).map Block.field)) [] (interSlots inter) := by
  have hslots : (interFields inter).map Block.field = interSlots inter := by
    rw [interFields, List.map_singleton, Field.field_custom_byte _ _ (by decide)]
    rfl
  have hall : (((interFields inter).map Block.field).filter fun s =>
      !(([] : List IfdTag).map IfdTag.code).contains s.1) = (interFields inter).map Block.field :=
    List.filter_eq_self.mpr fun _ _ => rfl
  rw [holds_iff (tagged_fields _) (of_decide_eq_true rfl) (hslots ▸ tagged_fields _)
    (by rw [hall, hslots]), hall, hslots]

theorem holds_nil_iff (pointers : List IfdTag) (fields : Tiff.Slots) :
    Holds [] pointers fields ↔ fields.entries = [] := by
  rw [Holds]
  simp

theorem holds_nil (pointers : List IfdTag) : Holds [] pointers [] :=
  (holds_nil_iff pointers []).mpr rfl

/-- The index is not held by a directory that is not there, unless it is not supplied. -/
theorem holds_nil_inter_iff (inter : InteroperabilityInfo) : Holds [] [] (interSlots inter) ↔
    (inter.interoperabilityIndex.valid = true → inter.interoperabilityIndex.value.count = 0) := by
  have hpresent : Value.present inter.interoperabilityIndex.value =
      decide (0 < inter.interoperabilityIndex.value.count) := rfl
  have hzero : ¬ 0 < inter.interoperabilityIndex.value.count ↔
      inter.interoperabilityIndex.value.count = 0 := by
    rw [UInt32.lt_iff_toNat_lt, ← UInt32.toNat_inj]
    change ¬ 0 < _ ↔ _ = 0
    omega
  rw [holds_nil_iff, interSlots, Field.slot, hpresent, ← hzero]
  cases inter.interoperabilityIndex.valid with
  | false => exact iff_of_true rfl fun hvalid => absurd hvalid Bool.false_ne_true
  | true =>
      by_cases hcount : 0 < inter.interoperabilityIndex.value.count
      · simp [hcount, Tiff.Slots.entries]
      · simp [hcount, Tiff.Slots.entries]

theorem areaOffset_eq (primary : PrimaryInfo) (spec : SpecificInfo) :
    stops (areaBefore spec) (valuesOf 57 (align4 (primaryStop primary))) - IFH =
      areaOffset primary spec := by
  obtain ⟨hfields, hdvd⟩ := stops_of_dvd (primaryFields primary)
    (show 4 ∣ 312 by decide)
  obtain ⟨hfields', hdvd'⟩ := stops_of_dvd (primaryFields' primary) hdvd
  have hvalues : valuesOf 57 (align4 (primaryStop primary)) = primaryStop primary + 692 := by
    have hdvd₂ : 4 ∣ primaryStop primary := hdvd'
    rw [align4_of_dvd hdvd₂, valuesOf, align4, IFD_HEAD_LENGTH]
    omega
  have hdvd'' : 4 ∣ primaryStop primary + 692 := Nat.dvd_add hdvd' (by decide)
  rw [hvalues, (stops_of_dvd _ hdvd'').1, areaOffset, List.map_append, List.map_append,
    List.sum_append, List.sum_append, primaryStop, hfields', hfields, IFH]
  omega

/-! ## The round trip -/

theorem sub_of_mem {α : Type} {A : Tiff.Slots} {info : Option α} {tag : IfdTag} {offset : ℕ}
    {found : α → List Tiff.Entry} (hA : A.Tagged) (hnodup : (A.map Prod.fst).Nodup)
    (hmem : pointerSlot info tag offset ∈ A)
    (hfound : ∀ i, info = some i → offset < 65536 ∧ Tiff.directory m IFH offset = found i) :
    Tiff.sub m IFH A.entries tag.code = info.elim [] found := by
  have hfind : Tiff.find A.entries tag.code = info.map fun _ => pointerEntry tag offset :=
    Tiff.Slots.find_of_mem hA hnodup hmem
  rw [Tiff.sub, hfind]
  cases info with
  | none => rfl
  | some i =>
      obtain ⟨hlt, hdirectory⟩ := hfound i rfl
      change Tiff.directory m IFH (Tiff.number (be32 offset)) = found i
      rw [number_be32, Nat.mod_eq_of_lt (by omega), hdirectory]

def exifValues (primary : PrimaryInfo) : ℕ := valuesOf 57 (align4 (primaryStop primary))

theorem IFH_le_primaryStop (primary : PrimaryInfo) : IFH ≤ align4 (primaryStop primary) :=
  Nat.le_trans (Nat.le_trans (by decide) (le_primaryStop primary)) (le_align4 _)

theorem stop_specLayout {spec : SpecificInfo} (hspec : info.spec = some spec) :
    (specLayout info.inter spec (align4 (primaryStop info.primary))).stop = exifStop info := by
  rw [exifStop, hspec]
  rfl

section

variable (hstop : (ifd0Layout info thumbnail 18).stop < 65536)
  (h : Shows m (ifd0Layout info thumbnail 18).stores)

include hstop h

theorem sub_exif : Tiff.sub m IFH (ifd0Slots info).entries IfdTag.exifIfdPointer.code =
    info.spec.elim [] fun spec =>
      (exifSlots info.inter spec (exifValues info.primary)).entries := by
  have hmem : pointerSlot info.spec .exifIfdPointer (align4 (primaryStop info.primary) - IFH) ∈
      ifd0Slots info := List.mem_append_right _ (List.mem_append_right _ List.mem_cons_self)
  refine sub_of_mem (tagged_ifd0Slots info) (nodup_ifd0Slots info) hmem fun spec hspec => ?_
  have hle := exifStop_le info thumbnail
  have hbegin := (lies_specLayout info.inter spec (align4 (primaryStop info.primary))).le_stop
  rw [stop_specLayout hspec] at hbegin
  exact ⟨by omega, spec_of_shows (IFH_le_primaryStop info.primary)
    (by rw [stop_specLayout hspec]; omega) (shows_spec hspec h)⟩

theorem sub_gps : Tiff.sub m IFH (ifd0Slots info).entries IfdTag.gpsIfdPointer.code =
    info.gps.elim [] fun gps => Tiff.Slots.entries ((gpsFields gps).map Block.field) := by
  have hmem : pointerSlot info.gps .gpsIfdPointer (align4 (exifStop info) - IFH) ∈
      ifd0Slots info :=
    List.mem_append_right _ (List.mem_append_right _ (List.mem_cons_of_mem _ List.mem_cons_self))
  refine sub_of_mem (tagged_ifd0Slots info) (nodup_ifd0Slots info) hmem fun gps hgps => ?_
  have hbegin := (lies_gpsLayout gps (align4 (exifStop info))).le_stop
  have hend : (gpsLayout gps (align4 (exifStop info))).stop < 65536 := by
    rw [stop_ifd0Layout, hgps] at hstop
    exact hstop
  have hIFH : IFH ≤ align4 (exifStop info) :=
    Nat.le_trans (Nat.le_trans (Nat.le_trans (by decide) (le_primaryStop info.primary))
      (le_exifStop info)) (le_align4 _)
  exact ⟨by omega, gps_of_shows hIFH hend (shows_gps hgps h)⟩

theorem sub_interop {spec : SpecificInfo} (hspec : info.spec = some spec) :
    Tiff.sub m IFH (exifSlots info.inter spec (exifValues info.primary)).entries
        IfdTag.interoperabilityIfdPointer.code =
      info.inter.elim [] fun inter => Tiff.Slots.entries ((interFields inter).map Block.field) := by
  have hmem : pointerSlot info.inter .interoperabilityIfdPointer
      (align4 (stops (specFields spec) (exifValues info.primary)) - IFH) ∈
        exifSlots info.inter spec (exifValues info.primary) :=
    List.mem_append_right _ List.mem_cons_self
  refine sub_of_mem (tagged_exifSlots _ _ _) (nodup_exifSlots _ _ _) hmem fun inter hinter => ?_
  have hshows := shows_spec hspec h
  have hle := exifStop_le info thumbnail
  rw [← stop_specLayout hspec] at hle
  rw [hinter] at hshows hle
  obtain ⟨hbegin, hstop', hinter'⟩ := shows_inter (IFH_le_primaryStop info.primary) hshows
  have hlies := (lies_interLayout inter
    (align4 (stops (specFields spec) (exifValues info.primary)))).le_stop
  have hstop'' : (interLayout inter
      (align4 (stops (specFields spec) (exifValues info.primary)))).stop < 65536 :=
    Nat.lt_of_le_of_lt hstop' (Nat.lt_of_le_of_lt hle hstop)
  exact ⟨by omega, inter_of_shows hbegin hstop'' hinter'⟩

end

theorem stops_specFields_le (inter : Option InteroperabilityInfo) (spec : SpecificInfo) (b : ℕ) :
    stops (specFields spec) (valuesOf 57 b) ≤ (specLayout inter spec b).stop := by
  have hinter := ranged_optionalPlan .exif .interoperabilityIfdPointer lies_interLayout inter
  have hfields := ranged_fieldsPlan .exif (specFields' spec)
  rw [specLayout, stop_directoryLayout, specPlan, stop_seq, stop_fieldsPlan]
  exact (hinter.seq hfields).le_stop _ _

theorem stops_areaBefore_lt {spec : SpecificInfo} (hspec : info.spec = some spec)
    (hstop : (ifd0Layout info thumbnail 18).stop < 65536) :
    stops (areaBefore spec) (exifValues info.primary) < 65536 := by
  have hfields := stops_append (areaBefore spec) ((specFields spec).drop 21)
    (exifValues info.primary)
  have hsplit : areaBefore spec ++ (specFields spec).drop 21 = specFields spec :=
    List.take_append_drop 21 _
  have hle := le_stops .exif ((specFields spec).drop 21)
    (stops (areaBefore spec) (exifValues info.primary))
  rw [← hfields, hsplit] at hle
  have hspec' := stops_specFields_le info.inter spec (align4 (primaryStop info.primary))
  rw [stop_specLayout hspec] at hspec'
  exact Nat.lt_of_le_of_lt (Nat.le_trans hle (Nat.le_trans hspec' (exifStop_le info thumbnail)))
    hstop

section

variable (hstop : (ifd0Layout info thumbnail 18).stop < 65536)
  (h : Shows m (ifd0Layout info thumbnail 18).stores)

include hstop h

theorem holds_sub_exif_iff :
    Holds (Tiff.sub m IFH (ifd0Slots info).entries IfdTag.exifIfdPointer.code)
        [.interoperabilityIfdPointer] (info.spec.elim [] specSlots) ↔
      ∀ spec, info.spec = some spec →
        ((spec.picTakingCond.getD default).subjectArea.valid = true →
          AreaKept (spec.picTakingCond.getD default).subjectArea.value
            (areaOffset info.primary spec)) ∧
        (0 < (spec.user.getD default).makerNote.value.count →
          (spec.user.getD default).makerNote.valid = true) ∧
        (0 < (spec.user.getD default).userComment.value.count →
          (spec.user.getD default).userComment.valid = true) := by
  rw [sub_exif hstop h]
  cases hspec : info.spec with
  | none =>
      rw [Option.elim_none, Option.elim_none]
      exact iff_of_true (holds_nil _) fun spec hsome => absurd hsome (Option.some_ne_none spec).symm
  | some spec =>
      rw [Option.elim_some, Option.elim_some]
      simp only [Option.some.injEq, forall_eq']
      rw [← areaOffset_eq]
      exact holds_exif info.inter spec (stops_areaBefore_lt hspec hstop)

theorem holds_sub_gps_iff :
    Holds (Tiff.sub m IFH (ifd0Slots info).entries IfdTag.gpsIfdPointer.code) []
        (info.gps.elim [] gpsSlots) ↔
      ∀ gps, info.gps = some gps → gps.gpsDestLongitude.valid = gps.gpsDestLatitude.valid := by
  rw [sub_gps hstop h]
  cases info.gps with
  | none =>
      rw [Option.elim_none, Option.elim_none]
      exact iff_of_true (holds_nil _) fun gps hsome => absurd hsome (Option.some_ne_none gps).symm
  | some gps =>
      rw [Option.elim_some, Option.elim_some]
      simp only [Option.some.injEq, forall_eq']
      exact holds_gps gps

theorem holds_sub_interop_iff :
    Holds (Tiff.sub m IFH (Tiff.sub m IFH (ifd0Slots info).entries IfdTag.exifIfdPointer.code)
        IfdTag.interoperabilityIfdPointer.code) [] (info.inter.elim [] interSlots) ↔
      (info.spec = none → ∀ inter, info.inter = some inter →
        inter.interoperabilityIndex.valid = true →
          inter.interoperabilityIndex.value.count = 0) := by
  rw [sub_exif hstop h]
  cases hspec : info.spec with
  | none =>
      have hsub : Tiff.sub m IFH [] IfdTag.interoperabilityIfdPointer.code = [] := rfl
      rw [Option.elim_none, hsub]
      cases info.inter with
      | none =>
          rw [Option.elim_none]
          exact iff_of_true (holds_nil _) fun _ inter hsome =>
            absurd hsome (Option.some_ne_none inter).symm
      | some inter =>
          rw [Option.elim_some, holds_nil_inter_iff]
          simp only [Option.some.injEq, forall_eq', forall_const]
  | some spec =>
      refine iff_of_true ?_ nofun
      rw [Option.elim_some, sub_interop hstop h hspec]
      cases info.inter with
      | none =>
          rw [Option.elim_none, Option.elim_none]
          exact holds_nil _
      | some inter =>
          rw [Option.elim_some, Option.elim_some]
          exact holds_inter inter

end

/-- The fields come back from a memory that holds a layout just when they are faithful. -/
theorem readsBack_iff_of_shows (hstop : (layout info thumbnail).stop < 65536)
    (h : Shows m (layout info thumbnail).stores) : ReadsBack info thumbnail m ↔ info.Faithful := by
  obtain ⟨hheader, hfirst, hifds⟩ := layout_of_shows h
  obtain ⟨hifd0, hle, hsplit⟩ := ifds_of_shows hifds
  have hstop₀ : (ifd0Layout info thumbnail 18).stop < 65536 := Nat.lt_of_le_of_lt hle hstop
  obtain ⟨hdirectory, hnext⟩ := ifd0_of_shows hstop₀ hifd0
  have hpicture := holds_ifd0 info
  have hexif := holds_sub_exif_iff hstop₀ hifd0
  have hgps := holds_sub_gps_iff hstop₀ hifd0
  have hinterop := holds_sub_interop_iff hstop₀ hifd0
  rw [← hdirectory] at hpicture hexif hgps hinterop
  have hbegin : 312 ≤ (ifd0Layout info thumbnail 18).stop := le_stop_ifd0Layout info thumbnail
  have hnext_iff : Tiff.next m IFH 8 ≠ 0 ↔ thumbnail ≠ [] := by
    rw [hnext]
    cases thumbnail with
    | nil => exact iff_of_false (fun hne => hne rfl) (fun hne => hne rfl)
    | cons c bytes =>
        refine iff_of_true ?_ (List.cons_ne_nil c bytes)
        change (ifd0Layout info (c :: bytes) 18).stop - 10 ≠ 0
        omega
  have hdesignates : thumbnail ≠ [] →
      Designates m (Tiff.directory m IFH (Tiff.next m IFH 8)) thumbnail := by
    intro hthumbnail
    have hlayout := hsplit hthumbnail
    rw [hlayout] at hifds
    have hstop₁ : (ifd1Layout thumbnail (ifd0Layout info thumbnail 18).stop).stop < 65536 := by
      rw [← congrArg Placed.stop hlayout]
      exact hstop
    obtain ⟨c, bytes, rfl⟩ := List.exists_cons_of_ne_nil hthumbnail
    rw [hnext]
    exact ifd1_of_shows hthumbnail (Nat.le_trans (by decide) hbegin) hstop₁ hifds.right
  constructor
  · rintro ⟨-, hread₀, hread₁, hread₂, hread₃, -, -⟩
    rw [hfirst] at hread₀ hread₁ hread₂ hread₃
    obtain ⟨hwidth, hlength⟩ := hpicture.mp hread₀
    have hfields := hexif.mp hread₁
    exact
      { imageWidth := hwidth
        imageLength := hlength
        subjectArea := fun spec hspec => (hfields spec hspec).1
        makerNote := fun spec hspec => (hfields spec hspec).2.1
        userComment := fun spec hspec => (hfields spec hspec).2.2
        gpsDestLongitude := hgps.mp hread₂
        interoperabilityIndex := hinterop.mp hread₃ }
  · rintro ⟨hwidth, hlength, harea, hmaker, hcomment, hlongitude, hindex⟩
    refine ⟨hheader, ?_, ?_, ?_, ?_, ?_, ?_⟩ <;> rw [hfirst]
    · exact hpicture.mpr ⟨hwidth, hlength⟩
    · exact hexif.mpr fun spec hspec => ⟨harea spec hspec, hmaker spec hspec, hcomment spec hspec⟩
    · exact hgps.mpr hlongitude
    · exact hinterop.mpr hindex
    · exact hnext_iff
    · exact hdesignates

theorem faithful_plainInfo : plainInfo.Faithful where
  imageWidth := by decide
  imageLength := by decide
  subjectArea _ hspec := absurd hspec (Option.some_ne_none _).symm
  makerNote _ hspec := absurd hspec (Option.some_ne_none _).symm
  userComment _ hspec := absurd hspec (Option.some_ne_none _).symm
  gpsDestLongitude _ hgps := absurd hgps (Option.some_ne_none _).symm
  interoperabilityIndex _ _ hinter := absurd hinter (Option.some_ne_none _).symm

/-- A call whose layout lies in the buffer stores a segment that a reader reads back, whatever
the buffer held before, just when the information is faithful. -/
theorem readsBack_iff {size : ℕ} (hfits : (layout info thumbnail).Fits size)
    (hend : (layout info thumbnail).stop < 65536) (before : Memory) :
    ∃ out, writeAPP1 (some size) (some info) thumbnail = .ok out ∧
      (ReadsBack info thumbnail (image out.stores before) ↔ info.Faithful) :=
  ⟨_, writeAPP1_of_fits hfits, readsBack_iff_of_shows hend (shows_image _ before)⟩

theorem readsBack_plainInfo : ∃ out, writeAPP1 (some 800) (some plainInfo) [0xff, 0xd8] = .ok out ∧
    ReadsBack plainInfo [0xff, 0xd8] (image out.stores fun _ => 0) := by
  have hfits : (layout plainInfo [0xff, 0xd8]).Fits 800 := by decide +kernel
  obtain ⟨out, hrun, hiff⟩ := readsBack_iff hfits (by decide +kernel) fun _ => 0
  exact ⟨out, hrun, hiff.mpr faithful_plainInfo⟩

/-- A picture that is taken with the subject in the area 320, 240, 100, 80. -/
def areaInfo : ExifInfo :=
  { plainInfo with
    spec := some
      { basic :=
          { colorSpace := 1
            componentsConfiguration := #v[1, 2, 3, 0]
            pixelXDimension := 640
            pixelYDimension := 480 }
        imgConfig := none
        user := none
        relatedFile := none
        dateTime := none
        picTakingCond := some
          { (default : SpecPicTakingCond) with
            subjectArea := ⟨true, ⟨shorts [320, 240, 100, 80], 4⟩⟩ }
        other := none } }

theorem areaInfo_not_readsBack : ∃ out, writeAPP1 (some 1200) (some areaInfo) [] = .ok out ∧
    out.endOffset < 65536 ∧ ∀ before, ¬ ReadsBack areaInfo [] (image out.stores before) := by
  have hfits : (layout areaInfo []).Fits 1200 := by decide +kernel
  have hend : (layout areaInfo []).stop < 65536 := by decide +kernel
  refine ⟨_, writeAPP1_of_fits hfits, hend, fun before hread => ?_⟩
  have hfaithful := (readsBack_iff_of_shows hend (shows_image _ before)).mp hread
  have hkept := hfaithful.subjectArea _ rfl rfl 0 (by decide)
  exact absurd hkept (by decide +kernel)

end Exif

end Tarako
