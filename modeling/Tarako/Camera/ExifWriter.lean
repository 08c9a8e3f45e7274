import Tarako.Camera.ExifInfo
import Tarako.Lib.Prog
import Tarako.Lib.Stores

/-!
# The EXIF writer

`Jpeg_WriteAPP1` of `exif_writer.c` with the stream of `jpeg_stream.c`, which writes into
the target buffer only (there is no `write_file_func`) and never reads it. The state is the
size of the buffer, the position of `write_ptr` and the bytes stored so far, each with the
part of the segment it is for. No object is so large that an offset into it would wrap.
-/

namespace Tarako

namespace Exif

open Prog

/-! ## The stream -/

/-- The directories of the segment. -/
inductive Dir
  | ifd0 | exif | gps | interop | ifd1
  deriving DecidableEq

inductive Part
  | header
  | ifh
  | count (d : Dir)
  | record (d : Dir) (tag : IfdTag)
  | next (d : Dir)
  | value (d : Dir) (tag : IfdTag)
  | thumbnail
  deriving DecidableEq

/-- `JPEG_WRITE_STREAM_CONTEXT_T`, with the stores made through it. -/
structure Context where
  size : ℕ
  pos : ℕ
  stores : List (Store Part)

inductive Ret
  | invalidArgument
  | memoryNotEnough
  | failed
  deriving DecidableEq

/-- What a call that fails leaves: what it returns, and the stores that it has made. -/
structure Failure where
  ret : Ret
  stores : List (Store Part)

abbrev W := Prog Context Failure

/-- The end of a call that returns `JPEG_FAILED`. -/
def fail {α : Type} : W α := do
  let s ← get
  throw ⟨.failed, s.stores⟩

def Context.put (s : Context) (part : Part) (bytes : List UInt8) : Context :=
  { s with
    pos := s.pos + bytes.length
    stores := s.stores ++ Store.block part s.pos bytes }

def setWritePos (offset : ℕ) : W Bool := do
  let s ← get
  if s.size < offset then pure false
  else
    modify fun s => { s with pos := offset }
    pure true

def getWritePos : W ℕ := do
  let s ← get
  pure s.pos

/-- `Jpeg_WriteC`: there is no file that a full buffer could be written to. -/
def writeC (part : Part) (c : UInt8) : W Bool := do
  let s ← get
  if s.size < s.pos + 1 then pure false
  else
    modify fun s => s.put part [c]
    pure true

def byteOf (x i : ℕ) : UInt8 := UInt8.ofNat (x / 256 ^ i)

def writeW (part : Part) (w : ℕ) : W Bool := do
  if ← writeC part (byteOf w 1) then writeC part (byteOf w 0) else pure false

def writeL (part : Part) (l : ℕ) : W Bool := do
  let s ← get
  if s.size < s.pos + 4 then pure false
  else
    modify fun s => s.put part [byteOf l 3, byteOf l 2, byteOf l 1, byteOf l 0]
    pure true

/-- A loop over `n` elements from the `i`-th on, as long as they are written. -/
def writeEach (write : ℕ → W Bool) : ℕ → ℕ → W Bool
  | 0, _ => pure true
  | n + 1, i => do
      if ← write i then writeEach write n (i + 1) else pure false

def writeBlock (part : Part) (block : List UInt8) : W Bool :=
  writeEach (fun i => writeC part (block.getD i 0)) block.length 0

/-- `JPEG_WRITE_DATA`, and the other calls behind which a writer gives up. -/
def must (write : W Bool) : W Unit := do
  let done ← write
  if done then pure () else fail

/-! ## Records -/

def IFD_HEAD_LENGTH : ℕ := 12

def align4 (x : ℕ) : ℕ := (x + 3) / 4 * 4

/-- The union of `IFD_INFO_T`, by its bytes. -/
structure ValueOffset where
  byte0 : UInt8
  byte1 : UInt8
  byte2 : UInt8
  byte3 : UInt8

namespace ValueOffset

def ofLong (x : ℕ) : ValueOffset := ⟨byteOf x 0, byteOf x 1, byteOf x 2, byteOf x 3⟩

def shortValue0 (v : ValueOffset) : ℕ := v.byte0.toNat + 256 * v.byte1.toNat

def shortValue1 (v : ValueOffset) : ℕ := v.byte2.toNat + 256 * v.byte3.toNat

def longValue (v : ValueOffset) : ℕ := v.shortValue0 + 65536 * v.shortValue1

def setShort0 (v : ValueOffset) (x : ℕ) : ValueOffset :=
  { v with byte0 := byteOf x 0, byte1 := byteOf x 1 }

def setShort1 (v : ValueOffset) (x : ℕ) : ValueOffset :=
  { v with byte2 := byteOf x 0, byte3 := byteOf x 1 }

def setBytes (v : ValueOffset) (ptr : Memory) (n : ℕ) : ValueOffset where
  byte0 := if 0 < n then ptr 0 else v.byte0
  byte1 := if 1 < n then ptr 1 else v.byte1
  byte2 := if 2 < n then ptr 2 else v.byte2
  byte3 := if 3 < n then ptr 3 else v.byte3

end ValueOffset

structure IfdInfo where
  tag : IfdTag
  type : IfdType
  count : ℕ
  valueOffset : ValueOffset
  valuePtr : Memory

/-- The value or offset that `Jpeg_WriteIFD` puts into a record. -/
def IfdInfo.offsetValue (ifd : IfdInfo) : ℕ :=
  let v := ifd.valueOffset
  match ifd.type with
  | .byte | .ascii | .undefined =>
      if ifd.count ≤ 4 then
        v.byte0.toNat * 256 ^ 3 + v.byte1.toNat * 256 ^ 2 + v.byte2.toNat * 256 + v.byte3.toNat
      else v.longValue
  | .short => if ifd.count ≤ 2 then v.shortValue0 * 65536 + v.shortValue1 else v.longValue
  | _ => v.longValue

def writeIFD (d : Dir) (ifd : IfdInfo) : W Unit := do
  must (writeW (.record d ifd.tag) ifd.tag.code)
  must (writeW (.record d ifd.tag) ifd.type.code)
  must (writeL (.record d ifd.tag) ifd.count)
  must (writeL (.record d ifd.tag) ifd.offsetValue)

/-- What the four writers have in common: the record at `ifdOffset` and, where the value
does not fit into it, its elements at `valueOffset`. It gives the offsets behind both. A
writer that is not `strict` answers a failed element with `JPEG_FAILED`, which is not
`FALSE`: its caller goes on, with the offsets as they were. -/
def writeRecord (d : Dir) (ifd : IfdInfo) (outside : Bool) (write : ℕ → W Bool) (strict : Bool)
    (ifdOffset valueOffset : ℕ) : W (ℕ × ℕ) := do
  must (setWritePos ifdOffset)
  writeIFD d ifd
  let ifdOffset' ← getWritePos
  if outside then
    must (setWritePos valueOffset)
    if ← writeEach write ifd.count 0 then
      let valueOffset' ← getWritePos
      pure (ifdOffset', align4 valueOffset')
    else if strict then fail
    else pure (ifdOffset, valueOffset)
  else pure (ifdOffset', valueOffset)

/-- The 16-bit word `i` behind a pointer. -/
def load16 (m : Memory) (i : ℕ) : UInt16 := Words.word16 (m (2 * i)) (m (2 * i + 1))

def writeRationalIFD (d : Dir) (ifd : IfdInfo) : ℕ → ℕ → W (ℕ × ℕ) :=
  writeRecord d ifd true
    (fun i => do
      if ← writeL (.value d ifd.tag) (ifd.valuePtr.load32 (2 * i)).toNat then
        writeL (.value d ifd.tag) (ifd.valuePtr.load32 (2 * i + 1)).toNat
      else pure false)
    true

def writeLongIFD (d : Dir) (ifd : IfdInfo) : ℕ → ℕ → W (ℕ × ℕ) :=
  writeRecord d
    (if ifd.count ≤ 1 then
      { ifd with valueOffset := .ofLong (ifd.valuePtr.load32 0).toNat }
    else ifd)
    (1 < ifd.count)
    (fun i => writeL (.value d ifd.tag) (ifd.valuePtr.load32 i).toNat)
    true

def writeShortIFD (d : Dir) (ifd : IfdInfo) : ℕ → ℕ → W (ℕ × ℕ) :=
  writeRecord d
    (if ifd.count ≤ 2 then
      let v := (ValueOffset.ofLong 0).setShort0 (load16 ifd.valuePtr 0).toNat
      { ifd with
        valueOffset :=
          if ifd.count = 2 then v.setShort1 (load16 ifd.valuePtr 1).toNat else v }
    else ifd)
    (2 < ifd.count)
    (fun i => writeW (.value d ifd.tag) (load16 ifd.valuePtr i).toNat)
    false

def writeByteIFD (d : Dir) (ifd : IfdInfo) : ℕ → ℕ → W (ℕ × ℕ) :=
  writeRecord d
    (if ifd.count ≤ 4 then
      { ifd with valueOffset := ifd.valueOffset.setBytes ifd.valuePtr ifd.count }
    else ifd)
    (4 < ifd.count)
    (fun i => writeC (.value d ifd.tag) (ifd.valuePtr i))
    false

/-! ## Field blocks -/

inductive Writer
  | rational | long | short | byte
  deriving DecidableEq

def Writer.write : Writer → Dir → IfdInfo → ℕ → ℕ → W (ℕ × ℕ)
  | .rational => writeRationalIFD
  | .long => writeLongIFD
  | .short => writeShortIFD
  | .byte => writeByteIFD

/-- A field block of a directory: its guard, what it puts into the `IFD_INFO_T` and the
writer that it calls. -/
structure Block where
  supplied : Bool
  tag : IfdTag
  type : IfdType
  count : ℕ
  valuePtr : Memory
  writer : Writer

/-- `entries`, `ifd_offset` and `ifd_value_offset`. -/
structure Cursor where
  entries : ℕ
  ifdOffset : ℕ
  valueOffset : ℕ

def IFH : ℕ := 10

def writeField (d : Dir) (b : Block) (c : Cursor) : W Cursor :=
  if b.supplied then do
    let ifd : IfdInfo := ⟨b.tag, b.type, b.count, .ofLong (c.valueOffset - IFH), b.valuePtr⟩
    let (ifdOffset, valueOffset) ← b.writer.write d ifd c.ifdOffset c.valueOffset
    pure ⟨c.entries + 1, ifdOffset, valueOffset⟩
  else pure c

def writeFields (d : Dir) : List Block → Cursor → W Cursor
  | [], c => pure c
  | b :: blocks, c => do writeFields d blocks (← writeField d b c)

namespace Field

variable {n : ℕ}

def rational (f : Field Rational) (tag : IfdTag) : Block :=
  ⟨f.valid, tag, .rational, 1, rationals [f.value], .rational⟩

def srational (f : Field Rational) (tag : IfdTag) : Block :=
  ⟨f.valid, tag, .srational, 1, rationals [f.value], .rational⟩

def rationalArray (f : Field (Vector Rational n)) (tag : IfdTag) : Block :=
  ⟨f.valid, tag, .rational, n, rationals f.value.toList, .rational⟩

def short (f : Field UInt16) (tag : IfdTag) : Block :=
  ⟨f.valid, tag, .short, 1, shorts [f.value], .short⟩

def shortArray (f : Field (Vector UInt16 n)) (tag : IfdTag) : Block :=
  ⟨f.valid, tag, .short, n, shorts f.value.toList, .short⟩

def long (f : Field UInt32) (tag : IfdTag) : Block :=
  ⟨f.valid, tag, .long, 1, longs [f.value], .long⟩

def ascii (f : Field (List UInt8)) (tag : IfdTag) : Block :=
  ⟨f.valid, tag, .ascii, getAsciiStringSize f.value + 1, chars f.value, .byte⟩

def asciiArray (f : Field (Vector UInt8 n)) (tag : IfdTag) : Block :=
  ⟨f.valid, tag, .ascii, n, chars f.value.toList, .byte⟩

def byte (f : Field UInt8) (tag : IfdTag) : Block :=
  ⟨f.valid, tag, .byte, 1, chars [f.value], .byte⟩

def byteArray (f : Field (Vector UInt8 n)) (tag : IfdTag) : Block :=
  ⟨f.valid, tag, .byte, n, chars f.value.toList, .byte⟩

def undefined (f : Field UInt8) (tag : IfdTag) : Block :=
  ⟨f.valid, tag, .undefined, 1, chars [f.value], .byte⟩

def undefinedArray (f : Field (Vector UInt8 n)) (tag : IfdTag) : Block :=
  ⟨f.valid, tag, .undefined, n, chars f.value.toList, .byte⟩

/-- The elements of an `EXIF_CUSTOM_T`. -/
def custom (f : Field Custom) (tag : IfdTag) (type : IfdType) (writer : Writer) : Block :=
  ⟨f.valid && decide (0 < f.value.count), tag, type, f.value.count.toNat, f.value.ptr, writer⟩

end Field

/-! ## The directories

A pointer that is `NULL` stands for a structure without valid fields. -/

/-- The blocks of `Jpeg_WriteExifIFD` up to those of the thumbnail. -/
def primaryFields (primary : PrimaryInfo) : List Block :=
  let dataStruct := primary.dataStruct.getD default
  let dataChar := primary.dataChar.getD default
  let imgDesc := primary.imgDesc.getD default
  [dataStruct.reserved.short .compression,
    imgDesc.imageDescription.ascii .imageDescription,
    imgDesc.make.ascii .make,
    imgDesc.model.ascii .model,
    dataStruct.orientation.short .orientation,
    (always primary.basic.xResolution).rational .xResolution,
    (always primary.basic.yResolution).rational .yResolution,
    (always primary.basic.resolutionUnit).short .resolutionUnit,
    dataChar.transferFunction.shortArray .transferFunction,
    imgDesc.software.ascii .software,
    imgDesc.dateTime.asciiArray .dateTime,
    imgDesc.artist.ascii .artist,
    dataChar.whitePoint.rationalArray .whitePoint,
    dataChar.primaryChromaticities.rationalArray .primaryChromaticities]

/-- The thumbnail's blocks: its offset, for the time being 0, and its size. -/
def thumbnailFields (thumbnail : List UInt8) : List Block :=
  let supplied := !thumbnail.isEmpty
  [⟨supplied, .jpegInterchangeFormat, .long, 1, longs [0], .long⟩,
    ⟨supplied, .jpegInterchangeFormatLength, .long, 1, longs [UInt32.ofNat thumbnail.length],
      .long⟩]

/-- The blocks behind. The width and the height are longs that the writer of shorts writes. -/
def primaryFields' (primary : PrimaryInfo) : List Block :=
  let dataChar := primary.dataChar.getD default
  let imgDesc := primary.imgDesc.getD default
  [dataChar.yCbCrCoefficients.rationalArray .yCbCrCoefficients,
    (always primary.basic.yCbCrPositioning).short .yCbCrPosition,
    ⟨true, .imageWidth, .long, 1, longs [primary.basic.imageWidth], .short⟩,
    ⟨true, .imageLength, .long, 1, longs [primary.basic.imageLength], .short⟩,
    dataChar.referenceBlackWhite.rationalArray .referenceBlackWhite,
    imgDesc.copyright.ascii .copyright]

/-- The blocks of `Jpeg_WriteExifSpecInfo` up to the interoperability pointer. The subject
area has shorts that the writer of rationals writes, and the maker note and the user comment
are written whether they are valid or not. -/
def specFields (spec : SpecificInfo) : List Block :=
  let cond := spec.picTakingCond.getD default
  let dateTime := spec.dateTime.getD default
  let config := spec.imgConfig.getD default
  let user := spec.user.getD default
  let relatedFile := spec.relatedFile.getD default
  [cond.exposureTime.rational .exposureTime,
    cond.fNumber.rational .fNumber,
    cond.exposureProgram.short .exposureProgram,
    cond.spectralSensitivity.ascii .spectralSensitivity,
    cond.isoSpeedRatings.custom .isoSpeedRatings .short .short,
    cond.oecf.custom .oecf .undefined .byte,
    (always #v[0x30, 0x32, 0x32, 0x30]).undefinedArray .exifVersion,
    dateTime.dateTimeOriginal.asciiArray .dateTimeOriginal,
    dateTime.dateTimeDigitized.asciiArray .dateTimeDigitized,
    (always spec.basic.componentsConfiguration).undefinedArray .componentsConfiguration,
    config.compressedBitsPerPixel.rational .compressedBitsPerPixel,
    cond.shutterSpeedValue.srational .shutterSpeedValue,
    cond.apertureValue.rational .apertureValue,
    cond.brightnessValue.srational .brightnessValue,
    cond.exposureBiasValue.srational .exposureBiasValue,
    cond.maxApertureValue.rational .maxApertureValue,
    cond.subjectDistance.rational .subjectDistance,
    cond.meteringMode.short .meteringMode,
    cond.lightSource.short .lightSource,
    cond.flash.short .flash,
    cond.focalLength.rational .focalLength,
    cond.subjectArea.custom .subjectArea .short .rational,
    ⟨decide (0 < user.makerNote.value.count), .makerNote, .undefined,
      user.makerNote.value.count.toNat, user.makerNote.value.ptr, .byte⟩,
    ⟨decide (0 < user.userComment.value.count), .userComment, .undefined,
      user.userComment.value.count.toNat, user.userComment.value.ptr, .byte⟩,
    dateTime.subSecTime.ascii .subSecTime,
    dateTime.subSecTimeOriginal.ascii .subSecTimeOriginal,
    dateTime.subSecTimeDigitized.ascii .subSecTimeDigitized,
    (always #v[0x30, 0x31, 0x30, 0x30]).undefinedArray .flashpixVersion,
    (always spec.basic.colorSpace).short .colorSpace,
    (always spec.basic.pixelXDimension).long .pixelXDimension,
    (always spec.basic.pixelYDimension).long .pixelYDimension,
    relatedFile.relatedSoundFile.asciiArray .relatedSoundFile]

def specFields' (spec : SpecificInfo) : List Block :=
  let cond := spec.picTakingCond.getD default
  let other := spec.other.getD default
  [cond.flashEnergy.rational .flashEnergy,
    cond.spatialFrequencyResponse.custom .spatialFrequencyResponse .undefined .byte,
    cond.focalPlaneXResolution.rational .focalPlaneXResolution,
    cond.focalPlaneYResolution.rational .focalPlaneYResolution,
    cond.focalPlaneResolutionUnit.short .focalPlaneResolutionUnit,
    cond.subjectLocation.shortArray .subjectLocation,
    cond.exposureIndex.rational .exposureIndex,
    cond.sensingMethod.short .sensingMethod,
    cond.fileSource.undefined .fileSource,
    cond.sceneType.undefined .sceneType,
    cond.cfaPattern.custom .cfaPattern .undefined .byte,
    cond.customRendered.short .customRendered,
    cond.exposureMode.short .exposureMode,
    cond.whiteBalance.short .whiteBalance,
    cond.digitalZoomRatio.rational .digitalZoomRatio,
    cond.focalLengthIn35mmFilm.short .focalLengthIn35mmFilm,
    cond.sceneCaptureType.short .sceneCaptureType,
    cond.gainControl.short .gainControl,
    cond.contrast.short .contrast,
    cond.saturation.short .saturation,
    cond.sharpness.short .sharpness,
    cond.deviceSettingDescription.custom .deviceSettingDescription .undefined .byte,
    cond.subjectDistanceRange.short .subjectDistanceRange,
    other.imageUniqueId.asciiArray .imageUniqueId]

/-- The blocks of `Jpeg_WriteExifGPSInfo`. The destination's longitude is written when the
latitude is valid. -/
def gpsFields (gps : GpsInfo) : List Block :=
  [gps.gpsVersionId.byteArray .gpsVersionId,
    gps.gpsLatitudeRef.asciiArray .gpsLatitudeRef,
    gps.gpsLatitude.rationalArray .gpsLatitude,
    gps.gpsLongitudeRef.asciiArray .gpsLongitudeRef,
    gps.gpsLongitude.rationalArray .gpsLongitude,
    gps.gpsAltitudeRef.byte .gpsAltitudeRef,
    gps.gpsAltitude.rational .gpsAltitude,
    gps.gpsTimeStamp.rationalArray .gpsTimeStamp,
    gps.gpsSatellites.ascii .gpsSatellites,
    gps.gpsStatus.asciiArray .gpsStatus,
    gps.gpsMeasureMode.asciiArray .gpsMeasureMode,
    gps.gpsDop.rational .gpsDop,
    gps.gpsSpeedRef.asciiArray .gpsSpeedRef,
    gps.gpsSpeed.rational .gpsSpeed,
    gps.gpsTrackRef.asciiArray .gpsTrackRef,
    gps.gpsTrack.rational .gpsTrack,
    gps.gpsImgDirectionRef.asciiArray .gpsImgDirectionRef,
    gps.gpsImgDirection.rational .gpsImgDirection,
    gps.gpsMapDatum.ascii .gpsMapDatum,
    gps.gpsDestLatitudeRef.asciiArray .gpsDestLatitudeRef,
    gps.gpsDestLatitude.rationalArray .gpsDestLatitude,
    gps.gpsDestLongitudeRef.asciiArray .gpsDestLongitudeRef,
    ⟨gps.gpsDestLatitude.valid, .gpsDestLongitude, .rational, 3,
      rationals gps.gpsDestLongitude.value.toList, .rational⟩,
    gps.gpsDestBearingRef.asciiArray .gpsDestBearingRef,
    gps.gpsDestBearing.rational .gpsDestBearing,
    gps.gpsDestDistanceRef.asciiArray .gpsDestDistanceRef,
    gps.gpsDestDistance.rational .gpsDestDistance,
    gps.gpsProcessingMethod.custom .gpsProcessingMethod .undefined .byte,
    gps.gpsAreaInformation.custom .gpsAreaInformation .undefined .byte,
    gps.gpsDateStamp.asciiArray .gpsDateStamp,
    gps.gpsDifferential.short .gpsDifferential]

/-- The block of `Jpeg_WriteExifInteroperabilityInfo`. -/
def interFields (inter : InteroperabilityInfo) : List Block :=
  [inter.interoperabilityIndex.custom .interoperabilityIndex .ascii .byte]

/-- What the functions that write a directory have in common: room for `reserved` records,
the records, the pointer to the next directory and the number of records. That the position
could be set is checked nowhere here. -/
def writeDirectory (d : Dir) (reserved : ℕ) (body : Cursor → W Cursor) (next : ℕ → ℕ)
    (beginOffset : ℕ) : W ℕ := do
  let _ ← setWritePos beginOffset
  must (writeW (.count d) reserved)
  let ifdOffset ← getWritePos
  let c ← body ⟨0, ifdOffset, align4 (ifdOffset + reserved * IFD_HEAD_LENGTH + 4)⟩
  let _ ← setWritePos c.ifdOffset
  must (writeL (.next d) (next c.valueOffset))
  let _ ← setWritePos beginOffset
  must (writeW (.count d) c.entries)
  pure c.valueOffset

def writePointer (d : Dir) (tag : IfdTag) (write : ℕ → W ℕ) (c : Cursor) : W Cursor := do
  let valueOffset := align4 c.valueOffset
  let offset := valueOffset - IFH
  let (ifdOffset, valueOffset) ← writeLongIFD d
    ⟨tag, .long, 1, .ofLong offset, longs [UInt32.ofNat offset]⟩ c.ifdOffset valueOffset
  let valueOffset ← write valueOffset
  pure ⟨c.entries + 1, ifdOffset, valueOffset⟩

def writeOptional {α : Type} (d : Dir) (tag : IfdTag) (write : α → ℕ → W ℕ) (info : Option α)
    (c : Cursor) : W Cursor :=
  match info with
  | none => pure c
  | some info => writePointer d tag (write info) c

def writeExifInteroperabilityInfo (inter : InteroperabilityInfo) : ℕ → W ℕ :=
  writeDirectory .interop 1 (writeFields .interop (interFields inter)) fun _ => 0

def writeExifSpecInfo (inter : Option InteroperabilityInfo) (spec : SpecificInfo) : ℕ → W ℕ :=
  writeDirectory .exif 57
    (fun c => do
      let c ← writeFields .exif (specFields spec) c
      let c ← writeOptional .exif .interoperabilityIfdPointer writeExifInteroperabilityInfo inter c
      writeFields .exif (specFields' spec) c)
    fun _ => 0

def writeExifGPSInfo (gps : GpsInfo) : ℕ → W ℕ :=
  writeDirectory .gps 31 (writeFields .gps (gpsFields gps)) fun _ => 0

/-- The thumbnail behind the directory, and its offset in the record that has been written
for it at `thumbnailIfdOffset`. -/
def writeThumbnail (d : Dir) (thumbnail : List UInt8) (thumbnailIfdOffset : ℕ) (c : Cursor) :
    W Cursor :=
  if thumbnail.isEmpty then pure c
  else do
    let offset := c.valueOffset - IFH
    let _ ← setWritePos c.valueOffset
    must (writeBlock .thumbnail thumbnail)
    let valueOffset ← getWritePos
    let _ ← setWritePos thumbnailIfdOffset
    let (_, valueOffset) ← writeLongIFD d
      ⟨.jpegInterchangeFormat, .long, 1, .ofLong offset, longs [UInt32.ofNat offset]⟩
      thumbnailIfdOffset valueOffset
    pure { c with valueOffset := valueOffset }

def writeExifIFD (d : Dir) (primary : PrimaryInfo) (spec : Option SpecificInfo)
    (gps : Option GpsInfo) (inter : Option InteroperabilityInfo) (thumbnail : List UInt8)
    (isNextIfdExist : Bool) : ℕ → W ℕ :=
  writeDirectory d 24
    (fun c => do
      let c ← writeFields d (primaryFields primary) c
      let thumbnailIfdOffset := c.ifdOffset
      let c ← writeFields d (thumbnailFields thumbnail) c
      let c ← writeFields d (primaryFields' primary) c
      let c ← writeOptional d .exifIfdPointer (writeExifSpecInfo inter) spec c
      let c ← writeOptional d .gpsIfdPointer writeExifGPSInfo gps c
      writeThumbnail d thumbnail thumbnailIfdOffset c)
    fun valueOffset => if isNextIfdExist then valueOffset - IFH else 0

/-! ## The segment -/

def writeIFH (beginOffset : ℕ) : W ℕ := do
  let _ ← setWritePos beginOffset
  must (writeW .ifh 0x4d4d)
  must (writeW .ifh 0x002a)
  must (writeL .ifh 8)
  getWritePos

def writeAPP1Header (beginOffset app1Length : ℕ) : W Unit := do
  let _ ← setWritePos beginOffset
  must (writeC .header 0xff)
  must (writeC .header 0xe1)
  must (writeW .header app1Length)
  must (writeBlock .header [0x45, 0x78, 0x69, 0x66, 0, 0])

/-- What `Jpeg_WriteAPP1` puts into the directory of the thumbnail. -/
def ifd1Primary : PrimaryInfo where
  basic :=
    { yCbCrPositioning := 1
      xResolution := ⟨72, 1⟩
      yResolution := ⟨72, 1⟩
      resolutionUnit := 2
      imageWidth := 0
      imageLength := 0 }
  dataStruct := some { orientation := ⟨true, 1⟩, reserved := ⟨true, 6⟩ }
  dataChar := none
  imgDesc := none

def writeIFDs (info : ExifInfo) (thumbnail : List UInt8) : W ℕ := do
  let endOffset ← writeIFH IFH
  let endOffset ← writeExifIFD .ifd0 info.primary info.spec info.gps info.inter []
    (!thumbnail.isEmpty) endOffset
  if thumbnail.isEmpty then pure endOffset
  else writeExifIFD .ifd1 ifd1Primary none none none thumbnail false endOffset

/-- The length that goes into the header, 16 bits wide. -/
def app1Length (endOffset : ℕ) : ℕ := (endOffset % 65536 + 65534) % 65536

def app1Size (endOffset : ℕ) : ℕ := app1Length endOffset + 2

/-- `Jpeg_WriteAPP1` behind its checks, with the offset behind the directories. -/
def writeSegment (info : ExifInfo) (thumbnail : List UInt8) : W ℕ := do
  let endOffset ← writeIFDs info thumbnail
  writeAPP1Header 0 (app1Length endOffset)
  pure endOffset

/-- What a call leaves: the bytes it stored and the offset behind the directories. -/
structure Output where
  stores : List (Store Part)
  endOffset : ℕ

def Output.app1Size (out : Output) : ℕ := Exif.app1Size out.endOffset

/-- `Jpeg_WriteAPP1`, by the size of the target buffer. A thumbnail that is `NULL` has no
bytes. -/
def writeAPP1 (targetBuf : Option ℕ) (exifInfo : Option ExifInfo) (thumbnail : List UInt8) :
    Except Failure Output :=
  match exifInfo, targetBuf with
  | none, _ => .error ⟨.invalidArgument, []⟩
  | some _, none => .error ⟨.memoryNotEnough, []⟩
  | some info, some size =>
      if size < 10 then .error ⟨.memoryNotEnough, []⟩
      else do
        let (endOffset, s) ← writeSegment info thumbnail ⟨size, 0, []⟩
        pure ⟨s.stores, endOffset⟩

end Exif

end Tarako
