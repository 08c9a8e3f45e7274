import Mathlib.Algebra.Group.Nat.Defs
import Mathlib.Data.List.Basic
import Tarako.Lib.Memory

/-!
# EXIF information

The structures of `jpeg_exif_header.h` that the EXIF writer reads, and what it sees of them
through its value pointers, on a little-endian machine. A field with a bit of its own in
`valid` is kept with it, and a structure that is optional is an `Option`. An array is
known from its start on: `chars` are the bytes of a string, behind which a NUL follows.
-/

namespace Tarako

namespace Exif

/-! ## Tags and types -/

/-- `EXIF_IFD_TAG`, as far as the writer uses it. -/
inductive IfdTag
  | gpsVersionId | gpsLatitudeRef | gpsLatitude | gpsLongitudeRef | gpsLongitude | gpsAltitudeRef
  | gpsAltitude | gpsTimeStamp | gpsSatellites | gpsStatus | gpsMeasureMode | gpsDop | gpsSpeedRef
  | gpsSpeed | gpsTrackRef | gpsTrack | gpsImgDirectionRef | gpsImgDirection | gpsMapDatum
  | gpsDestLatitudeRef | gpsDestLatitude | gpsDestLongitudeRef | gpsDestLongitude
  | gpsDestBearingRef | gpsDestBearing | gpsDestDistanceRef | gpsDestDistance
  | gpsProcessingMethod | gpsAreaInformation | gpsDateStamp | gpsDifferential | imageWidth
  | imageLength | compression | imageDescription | make | model | orientation | xResolution
  | yResolution | resolutionUnit | transferFunction | software | dateTime | artist | whitePoint
  | primaryChromaticities | jpegInterchangeFormat | jpegInterchangeFormatLength
  | yCbCrCoefficients | yCbCrPosition | referenceBlackWhite | copyright | exifIfdPointer
  | gpsIfdPointer | exposureTime | fNumber | exposureProgram | spectralSensitivity
  | isoSpeedRatings | oecf | exifVersion | dateTimeOriginal | dateTimeDigitized
  | componentsConfiguration | compressedBitsPerPixel | shutterSpeedValue | apertureValue
  | brightnessValue | exposureBiasValue | maxApertureValue | subjectDistance | meteringMode
  | lightSource | flash | focalLength | subjectArea | makerNote | userComment | subSecTime
  | subSecTimeOriginal | subSecTimeDigitized | flashpixVersion | colorSpace | pixelXDimension
  | pixelYDimension | relatedSoundFile | interoperabilityIfdPointer | flashEnergy
  | spatialFrequencyResponse | focalPlaneXResolution | focalPlaneYResolution
  | focalPlaneResolutionUnit | subjectLocation | exposureIndex | sensingMethod | fileSource
  | sceneType | cfaPattern | customRendered | exposureMode | whiteBalance | digitalZoomRatio
  | focalLengthIn35mmFilm | sceneCaptureType | gainControl | contrast | saturation | sharpness
  | deviceSettingDescription | subjectDistanceRange | imageUniqueId | interoperabilityIndex
  deriving DecidableEq

def IfdTag.code : IfdTag → ℕ
  | .gpsVersionId => 0x00
  | .gpsLatitudeRef => 0x01
  | .gpsLatitude => 0x02
  | .gpsLongitudeRef => 0x03
  | .gpsLongitude => 0x04
  | .gpsAltitudeRef => 0x05
  | .gpsAltitude => 0x06
  | .gpsTimeStamp => 0x07
  | .gpsSatellites => 0x08
  | .gpsStatus => 0x09
  | .gpsMeasureMode => 0x0a
  | .gpsDop => 0x0b
  | .gpsSpeedRef => 0x0c
  | .gpsSpeed => 0x0d
  | .gpsTrackRef => 0x0e
  | .gpsTrack => 0x0f
  | .gpsImgDirectionRef => 0x10
  | .gpsImgDirection => 0x11
  | .gpsMapDatum => 0x12
  | .gpsDestLatitudeRef => 0x13
  | .gpsDestLatitude => 0x14
  | .gpsDestLongitudeRef => 0x15
  | .gpsDestLongitude => 0x16
  | .gpsDestBearingRef => 0x17
  | .gpsDestBearing => 0x18
  | .gpsDestDistanceRef => 0x19
  | .gpsDestDistance => 0x1a
  | .gpsProcessingMethod => 0x1b
  | .gpsAreaInformation => 0x1c
  | .gpsDateStamp => 0x1d
  | .gpsDifferential => 0x1e
  | .imageWidth => 0x100
  | .imageLength => 0x101
  | .compression => 0x103
  | .imageDescription => 0x10e
  | .make => 0x10f
  | .model => 0x110
  | .orientation => 0x112
  | .xResolution => 0x11a
  | .yResolution => 0x11b
  | .resolutionUnit => 0x128
  | .transferFunction => 0x12d
  | .software => 0x131
  | .dateTime => 0x132
  | .artist => 0x13b
  | .whitePoint => 0x13e
  | .primaryChromaticities => 0x13f
  | .jpegInterchangeFormat => 0x201
  | .jpegInterchangeFormatLength => 0x202
  | .yCbCrCoefficients => 0x211
  | .yCbCrPosition => 0x213
  | .referenceBlackWhite => 0x214
  | .copyright => 0x8298
  | .exifIfdPointer => 0x8769
  | .gpsIfdPointer => 0x8825
  | .exposureTime => 0x829a
  | .fNumber => 0x829d
  | .exposureProgram => 0x8822
  | .spectralSensitivity => 0x8824
  | .isoSpeedRatings => 0x8827
  | .oecf => 0x8828
  | .exifVersion => 0x9000
  | .dateTimeOriginal => 0x9003
  | .dateTimeDigitized => 0x9004
  | .componentsConfiguration => 0x9101
  | .compressedBitsPerPixel => 0x9102
  | .shutterSpeedValue => 0x9201
  | .apertureValue => 0x9202
  | .brightnessValue => 0x9203
  | .exposureBiasValue => 0x9204
  | .maxApertureValue => 0x9205
  | .subjectDistance => 0x9206
  | .meteringMode => 0x9207
  | .lightSource => 0x9208
  | .flash => 0x9209
  | .focalLength => 0x920a
  | .subjectArea => 0x9214
  | .makerNote => 0x927c
  | .userComment => 0x9286
  | .subSecTime => 0x9290
  | .subSecTimeOriginal => 0x9291
  | .subSecTimeDigitized => 0x9292
  | .flashpixVersion => 0xa000
  | .colorSpace => 0xa001
  | .pixelXDimension => 0xa002
  | .pixelYDimension => 0xa003
  | .relatedSoundFile => 0xa004
  | .interoperabilityIfdPointer => 0xa005
  | .flashEnergy => 0xa20b
  | .spatialFrequencyResponse => 0xa20c
  | .focalPlaneXResolution => 0xa20e
  | .focalPlaneYResolution => 0xa20f
  | .focalPlaneResolutionUnit => 0xa210
  | .subjectLocation => 0xa214
  | .exposureIndex => 0xa215
  | .sensingMethod => 0xa217
  | .fileSource => 0xa300
  | .sceneType => 0xa301
  | .cfaPattern => 0xa302
  | .customRendered => 0xa401
  | .exposureMode => 0xa402
  | .whiteBalance => 0xa403
  | .digitalZoomRatio => 0xa404
  | .focalLengthIn35mmFilm => 0xa405
  | .sceneCaptureType => 0xa406
  | .gainControl => 0xa407
  | .contrast => 0xa408
  | .saturation => 0xa409
  | .sharpness => 0xa40a
  | .deviceSettingDescription => 0xa40b
  | .subjectDistanceRange => 0xa40c
  | .imageUniqueId => 0xa420
  | .interoperabilityIndex => 0x0001

inductive IfdType
  | byte | ascii | short | long | rational | undefined | slong | srational
  deriving DecidableEq

def IfdType.code : IfdType → ℕ
  | .byte => 1
  | .ascii => 2
  | .short => 3
  | .long => 4
  | .rational => 5
  | .undefined => 7
  | .slong => 9
  | .srational => 10

/-! ## Values -/

/-- `EXIF_RATIONAL_T`; the two words of an `EXIF_SRATIONAL_T` are signed. -/
structure Rational where
  numerator : UInt32
  denominator : UInt32
  deriving DecidableEq, Inhabited

/-- What the writer reads of an `EXIF_CUSTOM_T`: the memory from `ptr` on, and `count`. -/
structure Custom where
  ptr : Memory
  count : UInt32
  deriving Inhabited

/-- A field with its bit in `valid`. -/
structure Field (α : Type) where
  valid : Bool
  value : α
  deriving Inhabited

def always {α : Type} (value : α) : Field α := ⟨true, value⟩

/-! ## The structures -/

structure PriBasic where
  yCbCrPositioning : UInt16
  xResolution : Rational
  yResolution : Rational
  resolutionUnit : UInt16
  imageWidth : UInt32
  imageLength : UInt32

structure PriDataStruct where
  orientation : Field UInt16
  reserved : Field UInt16
  deriving Inhabited

structure PriDataChar where
  transferFunction : Field (Vector UInt16 768)
  whitePoint : Field (Vector Rational 2)
  primaryChromaticities : Field (Vector Rational 6)
  yCbCrCoefficients : Field (Vector Rational 3)
  referenceBlackWhite : Field (Vector Rational 6)
  deriving Inhabited

structure PriDesc where
  dateTime : Field (Vector UInt8 20)
  imageDescription : Field (List UInt8)
  make : Field (List UInt8)
  model : Field (List UInt8)
  software : Field (List UInt8)
  artist : Field (List UInt8)
  copyright : Field (List UInt8)
  deriving Inhabited

structure PrimaryInfo where
  basic : PriBasic
  dataStruct : Option PriDataStruct
  dataChar : Option PriDataChar
  imgDesc : Option PriDesc

structure SpecBasic where
  colorSpace : UInt16
  componentsConfiguration : Vector UInt8 4
  pixelXDimension : UInt32
  pixelYDimension : UInt32

structure SpecImgConfig where
  compressedBitsPerPixel : Field Rational
  deriving Inhabited

structure SpecUser where
  makerNote : Field Custom
  userComment : Field Custom
  deriving Inhabited

structure SpecRelatedFile where
  relatedSoundFile : Field (Vector UInt8 13)
  deriving Inhabited

structure SpecDateTime where
  dateTimeOriginal : Field (Vector UInt8 20)
  dateTimeDigitized : Field (Vector UInt8 20)
  subSecTime : Field (List UInt8)
  subSecTimeOriginal : Field (List UInt8)
  subSecTimeDigitized : Field (List UInt8)
  deriving Inhabited

structure SpecPicTakingCond where
  exposureTime : Field Rational
  fNumber : Field Rational
  exposureProgram : Field UInt16
  spectralSensitivity : Field (List UInt8)
  isoSpeedRatings : Field Custom
  oecf : Field Custom
  shutterSpeedValue : Field Rational
  apertureValue : Field Rational
  brightnessValue : Field Rational
  exposureBiasValue : Field Rational
  maxApertureValue : Field Rational
  subjectDistance : Field Rational
  meteringMode : Field UInt16
  lightSource : Field UInt16
  flash : Field UInt16
  focalLength : Field Rational
  subjectArea : Field Custom
  flashEnergy : Field Rational
  spatialFrequencyResponse : Field Custom
  focalPlaneXResolution : Field Rational
  focalPlaneYResolution : Field Rational
  focalPlaneResolutionUnit : Field UInt16
  subjectLocation : Field (Vector UInt16 2)
  exposureIndex : Field Rational
  sensingMethod : Field UInt16
  fileSource : Field UInt8
  sceneType : Field UInt8
  cfaPattern : Field Custom
  customRendered : Field UInt16
  exposureMode : Field UInt16
  whiteBalance : Field UInt16
  digitalZoomRatio : Field Rational
  focalLengthIn35mmFilm : Field UInt16
  sceneCaptureType : Field UInt16
  gainControl : Field UInt16
  contrast : Field UInt16
  saturation : Field UInt16
  sharpness : Field UInt16
  deviceSettingDescription : Field Custom
  subjectDistanceRange : Field UInt16
  deriving Inhabited

structure SpecOther where
  imageUniqueId : Field (Vector UInt8 33)
  deriving Inhabited

structure SpecificInfo where
  basic : SpecBasic
  imgConfig : Option SpecImgConfig
  user : Option SpecUser
  relatedFile : Option SpecRelatedFile
  dateTime : Option SpecDateTime
  picTakingCond : Option SpecPicTakingCond
  other : Option SpecOther

structure GpsInfo where
  gpsVersionId : Field (Vector UInt8 4)
  gpsLatitudeRef : Field (Vector UInt8 2)
  gpsLatitude : Field (Vector Rational 3)
  gpsLongitudeRef : Field (Vector UInt8 2)
  gpsLongitude : Field (Vector Rational 3)
  gpsAltitudeRef : Field UInt8
  gpsAltitude : Field Rational
  gpsTimeStamp : Field (Vector Rational 3)
  gpsSatellites : Field (List UInt8)
  gpsStatus : Field (Vector UInt8 2)
  gpsMeasureMode : Field (Vector UInt8 2)
  gpsDop : Field Rational
  gpsSpeedRef : Field (Vector UInt8 2)
  gpsSpeed : Field Rational
  gpsTrackRef : Field (Vector UInt8 2)
  gpsTrack : Field Rational
  gpsImgDirectionRef : Field (Vector UInt8 2)
  gpsImgDirection : Field Rational
  gpsMapDatum : Field (List UInt8)
  gpsDestLatitudeRef : Field (Vector UInt8 2)
  gpsDestLatitude : Field (Vector Rational 3)
  gpsDestLongitudeRef : Field (Vector UInt8 2)
  gpsDestLongitude : Field (Vector Rational 3)
  gpsDestBearingRef : Field (Vector UInt8 2)
  gpsDestBearing : Field Rational
  gpsDestDistanceRef : Field (Vector UInt8 2)
  gpsDestDistance : Field Rational
  gpsProcessingMethod : Field Custom
  gpsAreaInformation : Field Custom
  gpsDateStamp : Field (Vector UInt8 11)
  gpsDifferential : Field UInt16

structure InteroperabilityInfo where
  interoperabilityIndex : Field Custom

structure ExifInfo where
  primary : PrimaryInfo
  spec : Option SpecificInfo
  gps : Option GpsInfo
  inter : Option InteroperabilityInfo

/-! ## What a value pointer points at -/

/-- The bytes of an array; zeros stand for what follows it. -/
def chars (bytes : List UInt8) : Memory := fun i => bytes.getD i 0

def shorts (values : List UInt16) : Memory := chars (values.flatMap Words.bytes16)

def longs (values : List UInt32) : Memory := chars (values.flatMap Words.bytes32)

def rationals (values : List Rational) : Memory :=
  longs (values.flatMap fun r => [r.numerator, r.denominator])

def getAsciiStringSize : List UInt8 → ℕ
  | [] => 0
  | c :: s => if c = 0 then 0 else getAsciiStringSize s + 1

end Exif

end Tarako
