import Mathlib.Data.List.GetD
import Tarako.Camera.ExifRead

/-!
# The fields of the EXIF information

For each field of the structures the entry that a reader ought to find: when the field is
valid, its value, in the type that EXIF gives it. A table of the writer has the same entries
where its blocks name the field's own bit, and the writer of its type.
-/

namespace Tarako

namespace Exif

/-! ## Values -/

/-- The elements of a value as they stand in the file, and whether it has any. -/
class Value (α : Type) where
  elements : IfdType → α → List (List UInt8)
  present : α → Bool := fun _ => true

def beRational (r : Rational) : List UInt8 := be32 r.numerator.toNat ++ be32 r.denominator.toNat

instance : Value UInt8 := { elements := fun _ b => [[b]] }

instance : Value UInt16 := { elements := fun _ x => [be16 x.toNat] }

instance : Value UInt32 := { elements := fun _ x => [be32 x.toNat] }

instance : Value Rational := { elements := fun _ r => [beRational r] }

instance {n : ℕ} : Value (Vector UInt8 n) := { elements := fun _ v => v.toList.map fun b => [b] }

instance {n : ℕ} : Value (Vector UInt16 n) :=
  { elements := fun _ v => v.toList.map fun x => be16 x.toNat }

instance {n : ℕ} : Value (Vector Rational n) := { elements := fun _ v => v.toList.map beRational }

/-- A string, with the NUL behind it. -/
instance : Value (List UInt8) :=
  { elements := fun _ s => (s.takeWhile (· ≠ 0) ++ [0]).map fun c => [c] }

instance : Value Custom where
  elements type value := (List.range value.count.toNat).map fun i =>
    match type with
    | .short => be16 (load16 value.ptr i).toNat
    | _ => [value.ptr i]
  present value := 0 < value.count

def Field.slot {α : Type} [Value α] (f : Field α) (tag : IfdTag) (type : IfdType) :
    ℕ × Option Tiff.Entry :=
  let elements := Value.elements type f.value
  (tag.code,
    if f.valid && Value.present f.value then
      some ⟨tag.code, type.code, elements.length, elements.flatten⟩
    else none)

/-! ## The fields of a directory -/

def primarySlots (primary : PrimaryInfo) : Tiff.Slots :=
  let dataStruct := primary.dataStruct.getD default
  let dataChar := primary.dataChar.getD default
  let imgDesc := primary.imgDesc.getD default
  [dataStruct.reserved.slot .compression .short,
    imgDesc.imageDescription.slot .imageDescription .ascii,
    imgDesc.make.slot .make .ascii,
    imgDesc.model.slot .model .ascii,
    dataStruct.orientation.slot .orientation .short,
    (always primary.basic.xResolution).slot .xResolution .rational,
    (always primary.basic.yResolution).slot .yResolution .rational,
    (always primary.basic.resolutionUnit).slot .resolutionUnit .short,
    dataChar.transferFunction.slot .transferFunction .short,
    imgDesc.software.slot .software .ascii,
    imgDesc.dateTime.slot .dateTime .ascii,
    imgDesc.artist.slot .artist .ascii,
    dataChar.whitePoint.slot .whitePoint .rational,
    dataChar.primaryChromaticities.slot .primaryChromaticities .rational,
    dataChar.yCbCrCoefficients.slot .yCbCrCoefficients .rational,
    (always primary.basic.yCbCrPositioning).slot .yCbCrPosition .short,
    (always primary.basic.imageWidth).slot .imageWidth .long,
    (always primary.basic.imageLength).slot .imageLength .long,
    dataChar.referenceBlackWhite.slot .referenceBlackWhite .rational,
    imgDesc.copyright.slot .copyright .ascii]

def version (a b c d : UInt8) : Vector UInt8 4 := #v[a, b, c, d]

def specSlots (spec : SpecificInfo) : Tiff.Slots :=
  let cond := spec.picTakingCond.getD default
  let dateTime := spec.dateTime.getD default
  let config := spec.imgConfig.getD default
  let user := spec.user.getD default
  let relatedFile := spec.relatedFile.getD default
  let other := spec.other.getD default
  [cond.exposureTime.slot .exposureTime .rational,
    cond.fNumber.slot .fNumber .rational,
    cond.exposureProgram.slot .exposureProgram .short,
    cond.spectralSensitivity.slot .spectralSensitivity .ascii,
    cond.isoSpeedRatings.slot .isoSpeedRatings .short,
    cond.oecf.slot .oecf .undefined,
    (always (version 0x30 0x32 0x32 0x30)).slot .exifVersion .undefined,
    dateTime.dateTimeOriginal.slot .dateTimeOriginal .ascii,
    dateTime.dateTimeDigitized.slot .dateTimeDigitized .ascii,
    (always spec.basic.componentsConfiguration).slot .componentsConfiguration .undefined,
    config.compressedBitsPerPixel.slot .compressedBitsPerPixel .rational,
    cond.shutterSpeedValue.slot .shutterSpeedValue .srational,
    cond.apertureValue.slot .apertureValue .rational,
    cond.brightnessValue.slot .brightnessValue .srational,
    cond.exposureBiasValue.slot .exposureBiasValue .srational,
    cond.maxApertureValue.slot .maxApertureValue .rational,
    cond.subjectDistance.slot .subjectDistance .rational,
    cond.meteringMode.slot .meteringMode .short,
    cond.lightSource.slot .lightSource .short,
    cond.flash.slot .flash .short,
    cond.focalLength.slot .focalLength .rational,
    cond.subjectArea.slot .subjectArea .short,
    user.makerNote.slot .makerNote .undefined,
    user.userComment.slot .userComment .undefined,
    dateTime.subSecTime.slot .subSecTime .ascii,
    dateTime.subSecTimeOriginal.slot .subSecTimeOriginal .ascii,
    dateTime.subSecTimeDigitized.slot .subSecTimeDigitized .ascii,
    (always (version 0x30 0x31 0x30 0x30)).slot .flashpixVersion .undefined,
    (always spec.basic.colorSpace).slot .colorSpace .short,
    (always spec.basic.pixelXDimension).slot .pixelXDimension .long,
    (always spec.basic.pixelYDimension).slot .pixelYDimension .long,
    relatedFile.relatedSoundFile.slot .relatedSoundFile .ascii,
    cond.flashEnergy.slot .flashEnergy .rational,
    cond.spatialFrequencyResponse.slot .spatialFrequencyResponse .undefined,
    cond.focalPlaneXResolution.slot .focalPlaneXResolution .rational,
    cond.focalPlaneYResolution.slot .focalPlaneYResolution .rational,
    cond.focalPlaneResolutionUnit.slot .focalPlaneResolutionUnit .short,
    cond.subjectLocation.slot .subjectLocation .short,
    cond.exposureIndex.slot .exposureIndex .rational,
    cond.sensingMethod.slot .sensingMethod .short,
    cond.fileSource.slot .fileSource .undefined,
    cond.sceneType.slot .sceneType .undefined,
    cond.cfaPattern.slot .cfaPattern .undefined,
    cond.customRendered.slot .customRendered .short,
    cond.exposureMode.slot .exposureMode .short,
    cond.whiteBalance.slot .whiteBalance .short,
    cond.digitalZoomRatio.slot .digitalZoomRatio .rational,
    cond.focalLengthIn35mmFilm.slot .focalLengthIn35mmFilm .short,
    cond.sceneCaptureType.slot .sceneCaptureType .short,
    cond.gainControl.slot .gainControl .short,
    cond.contrast.slot .contrast .short,
    cond.saturation.slot .saturation .short,
    cond.sharpness.slot .sharpness .short,
    cond.deviceSettingDescription.slot .deviceSettingDescription .undefined,
    cond.subjectDistanceRange.slot .subjectDistanceRange .short,
    other.imageUniqueId.slot .imageUniqueId .ascii]

def gpsSlots (gps : GpsInfo) : Tiff.Slots :=
  [gps.gpsVersionId.slot .gpsVersionId .byte,
    gps.gpsLatitudeRef.slot .gpsLatitudeRef .ascii,
    gps.gpsLatitude.slot .gpsLatitude .rational,
    gps.gpsLongitudeRef.slot .gpsLongitudeRef .ascii,
    gps.gpsLongitude.slot .gpsLongitude .rational,
    gps.gpsAltitudeRef.slot .gpsAltitudeRef .byte,
    gps.gpsAltitude.slot .gpsAltitude .rational,
    gps.gpsTimeStamp.slot .gpsTimeStamp .rational,
    gps.gpsSatellites.slot .gpsSatellites .ascii,
    gps.gpsStatus.slot .gpsStatus .ascii,
    gps.gpsMeasureMode.slot .gpsMeasureMode .ascii,
    gps.gpsDop.slot .gpsDop .rational,
    gps.gpsSpeedRef.slot .gpsSpeedRef .ascii,
    gps.gpsSpeed.slot .gpsSpeed .rational,
    gps.gpsTrackRef.slot .gpsTrackRef .ascii,
    gps.gpsTrack.slot .gpsTrack .rational,
    gps.gpsImgDirectionRef.slot .gpsImgDirectionRef .ascii,
    gps.gpsImgDirection.slot .gpsImgDirection .rational,
    gps.gpsMapDatum.slot .gpsMapDatum .ascii,
    gps.gpsDestLatitudeRef.slot .gpsDestLatitudeRef .ascii,
    gps.gpsDestLatitude.slot .gpsDestLatitude .rational,
    gps.gpsDestLongitudeRef.slot .gpsDestLongitudeRef .ascii,
    gps.gpsDestLongitude.slot .gpsDestLongitude .rational,
    gps.gpsDestBearingRef.slot .gpsDestBearingRef .ascii,
    gps.gpsDestBearing.slot .gpsDestBearing .rational,
    gps.gpsDestDistanceRef.slot .gpsDestDistanceRef .ascii,
    gps.gpsDestDistance.slot .gpsDestDistance .rational,
    gps.gpsProcessingMethod.slot .gpsProcessingMethod .undefined,
    gps.gpsAreaInformation.slot .gpsAreaInformation .undefined,
    gps.gpsDateStamp.slot .gpsDateStamp .ascii,
    gps.gpsDifferential.slot .gpsDifferential .short]

def interSlots (inter : InteroperabilityInfo) : Tiff.Slots :=
  [inter.interoperabilityIndex.slot .interoperabilityIndex .ascii]

/-! ## The blocks of a field -/

def Block.field (b : Block) : ℕ × Option Tiff.Entry :=
  (b.tag.code, if b.supplied then some ⟨b.tag.code, b.type.code, b.count, b.elements⟩ else none)

theorem slot_of_regular {b : Block} (h : b.Regular) (v : ℕ) : b.slot v = b.field := by
  rw [Block.slot, Block.entry_of_regular h, Block.field]

theorem slots_of_regular {blocks : List Block} (h : ∀ b ∈ blocks, b.Regular) (v : ℕ) :
    slots blocks v = blocks.map Block.field := by
  induction blocks generalizing v with
  | nil => rfl
  | cons b blocks ih =>
      rw [slots, slot_of_regular (h b List.mem_cons_self),
        ih (fun b' hb' => h b' (List.mem_cons_of_mem _ hb')), List.map_cons]

/-! ### Arrays -/

theorem flatMap_range_of_getElem {α : Type} {l : List α} {f : ℕ → List UInt8}
    {g : α → List UInt8} (h : ∀ i (hi : i < l.length), f i = g l[i]) :
    (List.range l.length).flatMap f = (l.map g).flatten := by
  induction l generalizing f with
  | nil => rfl
  | cons x l ih =>
      have hrest := ih (f := fun i => f (i + 1)) fun i hi => h (i + 1) (Nat.succ_lt_succ hi)
      rw [List.length_cons, List.range_succ_eq_map, List.flatMap_cons, List.flatMap_map, hrest,
        h 0 (Nat.zero_lt_succ _)]
      rfl

theorem getD_flatMap {α β : Type} {f : α → List β} {k : ℕ} (hf : ∀ x, (f x).length = k)
    {l : List α} {i : ℕ} (hi : i < l.length) {j : ℕ} (hj : j < k) (y : β) :
    (l.flatMap f).getD (k * i + j) y = (f l[i]).getD j y := by
  induction l generalizing i with
  | nil => exact absurd hi (Nat.not_lt_zero i)
  | cons x l ih =>
      rw [List.flatMap_cons]
      cases i with
      | zero =>
          rw [List.getD_append _ _ _ _ (by rw [hf]; omega), Nat.mul_zero, Nat.zero_add]
          rfl
      | succ i =>
          have hle : (f x).length ≤ k * (i + 1) + j := by
            rw [hf, Nat.mul_succ]
            omega
          rw [List.getD_append_right _ _ _ _ hle, List.getElem_cons_succ,
            ← ih (Nat.lt_of_succ_lt_succ hi), hf, Nat.mul_succ]
          congr 1
          omega

theorem load16_shorts {l : List UInt16} {i : ℕ} (hi : i < l.length) :
    load16 (shorts l) i = l[i] := by
  have h := fun j (hj : j < 2) => getD_flatMap Words.length_bytes16 hi hj 0
  rw [load16, shorts, chars, chars, h 1 (by decide)]
  rw [← Nat.add_zero (2 * i), h 0 (by decide)]
  exact Words.word16_bytes16 l[i]

theorem load32_longs_of_lt {l : List UInt32} {i : ℕ} (hi : i < l.length) :
    (longs l).load32 i = l[i] := by
  have h := fun j (hj : j < 4) => getD_flatMap Words.length_bytes32 hi hj 0
  rw [Memory.load32, longs, chars, chars, chars, chars, h 1 (by decide), h 2 (by decide),
    h 3 (by decide)]
  rw [← Nat.add_zero (4 * i), h 0 (by decide)]
  exact Words.word32_bytes32 l[i]

theorem elements_rationals (l : List Rational) :
    Writer.rational.elements (rationals l) l.length = (l.map beRational).flatten := by
  refine flatMap_range_of_getElem fun i hi => ?_
  have hlength : ∀ r : Rational, [r.numerator, r.denominator].length = 2 := fun _ => rfl
  have h := fun j (hj : j < 2) => getD_flatMap hlength hi hj 0
  have hlt : 2 * i + 1 < (l.flatMap fun r => [r.numerator, r.denominator]).length := by
    rw [List.length_flatMap, List.map_congr_left fun r _ => hlength r, List.map_const',
      List.sum_replicate_nat]
    omega
  rw [Writer.element, rationals, load32_longs_of_lt (Nat.lt_of_succ_lt hlt),
    load32_longs_of_lt hlt, ← List.getD_eq_getElem _ 0, ← List.getD_eq_getElem _ 0,
    h 1 (by decide)]
  rw [← Nat.add_zero (2 * i), h 0 (by decide)]
  rfl

theorem elements_shorts (l : List UInt16) :
    Writer.short.elements (shorts l) l.length = (l.map fun x => be16 x.toNat).flatten :=
  flatMap_range_of_getElem fun i hi => by rw [Writer.element, load16_shorts hi]

theorem elements_longs (l : List UInt32) :
    Writer.long.elements (longs l) l.length = (l.map fun x => be32 x.toNat).flatten :=
  flatMap_range_of_getElem fun i hi => by rw [Writer.element, load32_longs_of_lt hi]

theorem elements_chars (l : List UInt8) :
    Writer.byte.elements (chars l) l.length = (l.map fun b => [b]).flatten :=
  flatMap_range_of_getElem fun i hi => by rw [Writer.element, chars, List.getD_eq_getElem _ 0 hi]

theorem elements_string (s : List UInt8) :
    Writer.byte.elements (chars s) (getAsciiStringSize s + 1) =
      ((s.takeWhile (· ≠ 0) ++ [0]).map fun c => [c]).flatten := by
  induction s with
  | nil => rfl
  | cons c s ih =>
      rw [getAsciiStringSize]
      by_cases hc : c = 0
      · subst hc
        rfl
      · rw [if_neg hc, List.takeWhile_cons_of_pos (by simpa using hc)]
        rw [Writer.elements, List.range_succ_eq_map, List.flatMap_cons, List.flatMap_map]
        exact congrArg (c :: ·) ih

theorem length_string (s : List UInt8) :
    ((s.takeWhile (· ≠ 0) ++ [0]).map fun c => [c]).length = getAsciiStringSize s + 1 := by
  induction s with
  | nil => rfl
  | cons c s ih =>
      rw [getAsciiStringSize]
      by_cases hc : c = 0
      · subst hc
        rfl
      · rw [if_neg hc, List.takeWhile_cons_of_pos (by simpa using hc)]
        exact congrArg (· + 1) ih

/-! ### The kinds of blocks -/

theorem Block.field_eq {α : Type} [Value α] {f : Field α} {b : Block}
    (hsupplied : b.supplied = (f.valid && Value.present f.value))
    (hcount : b.count = (Value.elements b.type f.value).length)
    (helements : b.elements = (Value.elements b.type f.value).flatten) :
    b.field = f.slot b.tag b.type := by
  rw [Block.field, Field.slot, hsupplied, hcount, helements]

namespace Field

variable {n : ℕ}

theorem field_rational (f : Field Rational) (tag : IfdTag) :
    (f.rational tag).field = f.slot tag .rational :=
  Block.field_eq (Bool.and_true _).symm rfl (elements_rationals [f.value])

theorem field_srational (f : Field Rational) (tag : IfdTag) :
    (f.srational tag).field = f.slot tag .srational :=
  Block.field_eq (Bool.and_true _).symm rfl (elements_rationals [f.value])

theorem field_rationalArray (f : Field (Vector Rational n)) (tag : IfdTag) :
    (f.rationalArray tag).field = f.slot tag .rational := by
  have helements := elements_rationals f.value.toList
  rw [Vector.length_toList] at helements
  exact Block.field_eq (Bool.and_true _).symm
    ((List.length_map _).trans Vector.length_toList).symm helements

theorem field_short (f : Field UInt16) (tag : IfdTag) :
    (f.short tag).field = f.slot tag .short :=
  Block.field_eq (Bool.and_true _).symm rfl (elements_shorts [f.value])

theorem field_shortArray (f : Field (Vector UInt16 n)) (tag : IfdTag) :
    (f.shortArray tag).field = f.slot tag .short := by
  have helements := elements_shorts f.value.toList
  rw [Vector.length_toList] at helements
  exact Block.field_eq (Bool.and_true _).symm
    ((List.length_map _).trans Vector.length_toList).symm helements

theorem field_long (f : Field UInt32) (tag : IfdTag) : (f.long tag).field = f.slot tag .long :=
  Block.field_eq (Bool.and_true _).symm rfl (elements_longs [f.value])

theorem field_ascii (f : Field (List UInt8)) (tag : IfdTag) :
    (f.ascii tag).field = f.slot tag .ascii :=
  Block.field_eq (Bool.and_true _).symm (length_string f.value).symm (elements_string f.value)

theorem field_bytes (f : Field (Vector UInt8 n)) (tag : IfdTag) (type : IfdType) :
    Block.field ⟨f.valid, tag, type, n, chars f.value.toList, .byte⟩ = f.slot tag type := by
  have helements := elements_chars f.value.toList
  rw [Vector.length_toList] at helements
  exact Block.field_eq (Bool.and_true _).symm
    ((List.length_map _).trans Vector.length_toList).symm helements

theorem field_asciiArray (f : Field (Vector UInt8 n)) (tag : IfdTag) :
    (f.asciiArray tag).field = f.slot tag .ascii := f.field_bytes tag .ascii

theorem field_byteArray (f : Field (Vector UInt8 n)) (tag : IfdTag) :
    (f.byteArray tag).field = f.slot tag .byte := f.field_bytes tag .byte

theorem field_undefinedArray (f : Field (Vector UInt8 n)) (tag : IfdTag) :
    (f.undefinedArray tag).field = f.slot tag .undefined := f.field_bytes tag .undefined

theorem field_byte (f : Field UInt8) (tag : IfdTag) : (f.byte tag).field = f.slot tag .byte :=
  Block.field_eq (Bool.and_true _).symm rfl (elements_chars [f.value])

theorem field_undefined (f : Field UInt8) (tag : IfdTag) :
    (f.undefined tag).field = f.slot tag .undefined :=
  Block.field_eq (Bool.and_true _).symm rfl (elements_chars [f.value])

theorem field_custom_short (f : Field Custom) (tag : IfdTag) :
    (f.custom tag .short .short).field = f.slot tag .short :=
  Block.field_eq rfl ((List.length_map _).trans List.length_range).symm
    (List.flatMap_def ..)

theorem field_custom_byte (f : Field Custom) (tag : IfdTag) {type : IfdType}
    (htype : type ≠ .short) : (f.custom tag type .byte).field = f.slot tag type := by
  refine Block.field_eq rfl ((List.length_map _).trans List.length_range).symm ?_
  refine (List.flatMap_def ..).trans (congrArg List.flatten (List.map_congr_left fun i _ => ?_))
  cases type <;> first
    | rfl
    | exact absurd rfl htype

end Field

/-! ### The other blocks -/

theorem be16_inj {x y : ℕ} (hx : x < 65536) (hy : y < 65536) : be16 x = be16 y ↔ x = y := by
  refine ⟨fun h => ?_, fun h => h ▸ rfl⟩
  rw [← Nat.mod_eq_of_lt hx, ← Nat.mod_eq_of_lt hy, ← number_be16, ← number_be16, h]

theorem be32_inj {x y : ℕ} (hx : x < 4294967296) (hy : y < 4294967296) :
    be32 x = be32 y ↔ x = y := by
  refine ⟨fun h => ?_, fun h => h ▸ rfl⟩
  rw [← Nat.mod_eq_of_lt hx, ← Nat.mod_eq_of_lt hy, ← number_be32, ← number_be32, h]

theorem slot_long_short (tag : IfdTag) (x : UInt32) (v : ℕ) :
    Block.slot ⟨true, tag, .long, 1, longs [x], .short⟩ v =
      (tag.code, some ⟨tag.code, IfdType.long.code, 1, be32 (x.toNat % 65536)⟩) := by
  have hload : (load16 (longs [x]) 0).toNat = x.toNat % 65536 := by
    change (Words.word16 (UInt8.ofNat x.toNat) (UInt8.ofNat (x.toNat / 256))).toNat = _
    rw [Words.word16, UInt16.toNat_ofNat', UInt8.toNat_ofNat', UInt8.toNat_ofNat']
    omega
  have hvalue0 := shortValue0_setShort0 (.ofLong 0) (load16 (longs [x]) 0).toNat
  rw [hload, Nat.mod_mod] at hvalue0
  have hoffset : Block.offsetValue ⟨true, tag, .long, 1, longs [x], .short⟩ v =
      x.toNat % 65536 := by
    rw [← hvalue0, ← hload]
    rfl
  rw [Block.slot, Block.entry, hoffset]
  rfl

theorem slot_long_short_iff (tag : IfdTag) (x : UInt32) (v : ℕ) :
    Block.slot ⟨true, tag, .long, 1, longs [x], .short⟩ v = (always x).slot tag .long ↔
      x.toNat < 65536 := by
  have hx := x.toNat_lt
  have hslot : (always x).slot tag .long =
      (tag.code, some ⟨tag.code, IfdType.long.code, 1, be32 x.toNat⟩) := rfl
  rw [slot_long_short, hslot]
  simp only [Prod.mk.injEq, Option.some.injEq, Tiff.Entry.mk.injEq, true_and]
  rw [be32_inj (by omega) (by omega)]
  omega

theorem Field.slot_eq_iff {α : Type} [Value α] {x : α} {valid valid' : Bool} {tag : IfdTag}
    {type : IfdType} :
    (Field.mk valid x).slot tag type = (Field.mk valid' x).slot tag type ↔
      (Value.present x = true → valid' = valid) := by
  rw [Field.slot, Field.slot]
  cases Value.present x <;> cases valid <;> cases valid' <;> simp

/-- The place of a short in a pair of shorts that has been turned round. -/
def swap (i : ℕ) : ℕ := if i % 2 = 0 then i + 1 else i - 1

/-- The shorts of a subject area that are found when its value is at `offset`: one or two of
them are taken for an offset, and more of them are turned round in pairs. -/
def areaShort (area : Custom) (offset i : ℕ) : ℕ :=
  if area.count.toNat ≤ 2 then if i = 0 then offset else 0
  else (load16 area.ptr (swap i)).toNat

/-- The shorts that are found are those of the area. -/
def AreaKept (area : Custom) (offset : ℕ) : Prop :=
  ∀ i < area.count.toNat, areaShort area offset i = (load16 area.ptr i).toNat

theorem be32_load32 (p : Memory) (w : ℕ) :
    be32 (p.load32 w).toNat =
      be16 (load16 p (2 * w + 1)).toNat ++ be16 (load16 p (2 * w)).toNat := by
  rw [← be32_eq_append (load16 p (2 * w)).toNat_lt]
  congr 1
  rw [Memory.load32, load16, load16, Words.word32, Words.word16, Words.word16,
    show 2 * (2 * w + 1) = 4 * w + 2 by omega, show 2 * (2 * w) = 4 * w by omega]
  simp only [UInt32.toNat_ofNat', UInt16.toNat_ofNat', Nat.add_assoc, Nat.reduceAdd]
  have h0 := (p (4 * w)).toNat_lt
  have h1 := (p (4 * w + 1)).toNat_lt
  have h2 := (p (4 * w + 2)).toNat_lt
  have h3 := (p (4 * w + 3)).toNat_lt
  omega

theorem elements_area (p : Memory) (n : ℕ) : Writer.rational.elements p n =
    (List.range (4 * n)).flatMap fun i => be16 (load16 p (swap i)).toNat := by
  induction n with
  | zero => rfl
  | succ n ih =>
      have hswap : swap (4 * n) = 4 * n + 1 ∧ swap (4 * n + 1) = 4 * n ∧
          swap (4 * n + 2) = 4 * n + 3 ∧ swap (4 * n + 3) = 4 * n + 2 := by
        refine ⟨?_, ?_, ?_, ?_⟩ <;> rw [swap] <;> split <;> omega
      obtain ⟨h0, h1, h2, h3⟩ := hswap
      rw [Writer.elements, List.range_succ, List.flatMap_append, ← Writer.elements, ih,
        Nat.mul_succ, List.range_add, List.flatMap_append, List.flatMap_singleton,
        Writer.element, be32_load32, be32_load32]
      congr 1
      have hw : 2 * (2 * n + 1) = 4 * n + 2 := by omega
      have hw' : 2 * (2 * n) = 4 * n := by omega
      rw [hw, hw', List.flatMap_map]
      change _ = be16 (load16 p (swap (4 * n))).toNat ++
        (be16 (load16 p (swap (4 * n + 1))).toNat ++ (be16 (load16 p (swap (4 * n + 2))).toNat ++
          (be16 (load16 p (swap (4 * n + 3))).toNat ++ [])))
      rw [h0, h1, h2, h3, List.append_nil, List.append_assoc]

theorem value_area (area : Custom) (supplied : Bool) (tag : IfdTag) {v : ℕ} (hv : v < 65536) :
    (Block.entry ⟨supplied, tag, .short, area.count.toNat, area.ptr, .rational⟩ v).value =
      (List.range area.count.toNat).flatMap fun i => be16 (areaShort area (v - IFH) i) := by
  obtain ⟨p, count⟩ := area
  obtain ⟨n, hn⟩ : ∃ n, n = count.toNat := ⟨_, rfl⟩
  simp only [areaShort, ← hn]
  have hsize : Block.size ⟨supplied, tag, .short, n, p, .rational⟩ = 2 * n := rfl
  rw [Block.entry, hsize]
  by_cases hle : n ≤ 2
  · have hoffset : Block.offsetValue ⟨supplied, tag, .short, n, p, .rational⟩ v =
        (v - IFH) * 65536 + 0 := by
      rw [Block.offsetValue, Writer.prepare, Block.info, IfdInfo.offsetValue]
      simp only [if_pos hle]
      simp only [ValueOffset.shortValue0, ValueOffset.shortValue1, ValueOffset.ofLong, byteOf,
        UInt8.toNat_ofNat']
      omega
    simp only [if_pos hle]
    rw [if_pos (by omega), hoffset, be32_eq_append (by decide)]
    obtain rfl | rfl | rfl : n = 0 ∨ n = 1 ∨ n = 2 := by omega
    all_goals rfl
  · simp only [if_neg hle]
    rw [if_neg (by omega), Block.elements, elements_area]
    have hrange : 4 * n = n + 3 * n := by omega
    have hlength : ((List.range n).flatMap fun i => be16 (load16 p (swap i)).toNat).length =
        2 * n := by
      rw [List.length_flatMap]
      change ((List.range n).map fun _ => 2).sum = 2 * n
      rw [List.map_const', List.sum_replicate_nat, List.length_range, Nat.mul_comm]
    rw [hrange, List.range_add, List.flatMap_append, List.take_left' hlength]

theorem flatMap_range_inj {f g : ℕ → List UInt8} (hlength : ∀ i, (f i).length = (g i).length)
    (n : ℕ) : (List.range n).flatMap f = (List.range n).flatMap g ↔ ∀ i < n, f i = g i := by
  induction n with
  | zero => simp
  | succ n ih =>
      rw [List.range_succ, List.flatMap_append, List.flatMap_append, List.flatMap_singleton,
        List.flatMap_singleton]
      constructor
      · intro h i hi
        obtain ⟨hbefore, hlast⟩ := List.append_inj' h (hlength n)
        obtain hi | rfl := Nat.lt_succ_iff_lt_or_eq.mp hi
        · exact ih.mp hbefore i hi
        · exact hlast
      · intro h
        rw [ih.mpr fun i hi => h i (Nat.lt_succ_of_lt hi), h n (Nat.lt_succ_self n)]

theorem slot_area_iff (f : Field Custom) (tag : IfdTag) {v : ℕ} (hv : v < 65536) :
    (f.custom tag .short .rational).slot v = f.slot tag .short ↔
      (f.valid = true → AreaKept f.value (v - IFH)) := by
  have hvalue := value_area f.value (f.valid && decide (0 < f.value.count)) tag hv
  have hentry : (f.custom tag .short .rational).entry v =
      ⟨tag.code, IfdType.short.code, f.value.count.toNat,
        ((List.range f.value.count.toNat).flatMap fun i =>
          be16 (areaShort f.value (v - IFH) i))⟩ := hvalue ▸ rfl
  have hkept : ((List.range f.value.count.toNat).flatMap fun i =>
      be16 (areaShort f.value (v - IFH) i)) =
        ((List.range f.value.count.toNat).map fun i => be16 (load16 f.value.ptr i).toNat).flatten ↔
      AreaKept f.value (v - IFH) := by
    have hlength : ∀ i, (be16 (areaShort f.value (v - IFH) i)).length =
        (be16 (load16 f.value.ptr i).toNat).length := fun _ => rfl
    rw [← List.flatMap_def, flatMap_range_inj hlength]
    refine forall₂_congr fun i _ => be16_inj ?_ (load16 f.value.ptr i).toNat_lt
    rw [areaShort]
    split
    · split <;> omega
    · exact (load16 f.value.ptr (swap i)).toNat_lt
  have hlength : ((List.range f.value.count.toNat).map fun i =>
      be16 (load16 f.value.ptr i).toNat).length = f.value.count.toNat := by
    rw [List.length_map, List.length_range]
  rw [Block.slot, hentry, Field.slot]
  cases hvalid : f.valid with
  | false => simp [Field.custom, hvalid]
  | true =>
      by_cases hcount : 0 < f.value.count
      · simp only [Field.custom, hvalid, hcount, decide_true, Bool.and_self, if_true, Value.present,
          Value.elements, Prod.mk.injEq, Option.some.injEq, Tiff.Entry.mk.injEq, true_and, hlength,
          hkept, forall_const]
      · have hempty : AreaKept f.value (v - IFH) := by
          intro i hi
          rw [UInt32.lt_iff_toNat_lt] at hcount
          exact absurd (Nat.zero_lt_of_lt hi) hcount
        simp [Field.custom, hcount, Value.present, hempty]

/-! ## The tables -/

theorem map_fst_slots (blocks : List Block) (v : ℕ) :
    (slots blocks v).map Prod.fst = blocks.map fun b => b.tag.code := by
  induction blocks generalizing v with
  | nil => rfl
  | cons b blocks ih => exact congrArg (b.tag.code :: ·) (ih (b.stop v))

theorem tagged_slots (blocks : List Block) (v : ℕ) : (slots blocks v).Tagged := by
  induction blocks generalizing v with
  | nil => exact fun p hp => absurd hp List.not_mem_nil
  | cons b blocks ih =>
      refine Tiff.Slots.Tagged.cons (fun e he => ?_) (ih (b.stop v))
      rw [Block.slot] at he
      split at he
      · exact Option.some.inj he ▸ rfl
      · exact absurd he.symm (Option.some_ne_none _)

theorem Field.tag_slot {α : Type} [Value α] (f : Field α) (tag : IfdTag) (type : IfdType)
    (e : Tiff.Entry) (he : (f.slot tag type).2 = some e) : e.tag = (f.slot tag type).1 := by
  rw [Field.slot] at he
  simp only at he
  split at he
  · exact Option.some.inj he ▸ rfl
  · exact absurd he.symm (Option.some_ne_none _)

theorem regular_of_all {blocks : List Block}
    (h : (blocks.all fun b => decide b.Regular) = true) : ∀ b ∈ blocks, b.Regular := fun b hb =>
  of_decide_eq_true (List.all_eq_true.mp h b hb)

theorem regular_primaryFields (primary : PrimaryInfo) :
    ∀ b ∈ primaryFields primary, b.Regular := regular_of_all rfl

theorem regular_specFields' (spec : SpecificInfo) : ∀ b ∈ specFields' spec, b.Regular :=
  regular_of_all rfl

theorem regular_gpsFields (gps : GpsInfo) : ∀ b ∈ gpsFields gps, b.Regular := regular_of_all rfl

theorem regular_interFields (inter : InteroperabilityInfo) :
    ∀ b ∈ interFields inter, b.Regular := regular_of_all rfl

end Exif

end Tarako
