import Tarako.Camera.ExifWriter

/-!
# The layout of the EXIF segment

Where the writer puts what, as long as the target buffer has room for it. A `Plan` says how
many records a part of a directory takes and, from the offsets at which its records and its
values begin, what is stored and where the values end. Plans are put together with `seq`;
`layout` is the plan of the whole segment, in the order in which it is written.
-/

namespace Tarako

namespace Exif

/-! ## Plans -/

/-- What is stored, and where it ends. -/
structure Placed where
  stores : List (Store Part)
  stop : ℕ

/-- A part of a directory: how many records it has, and what it stores from the offsets of
its records and its values on. -/
structure Plan where
  entries : ℕ
  place : ℕ → ℕ → Placed

def Plan.nil : Plan := ⟨0, fun _ v => ⟨[], v⟩⟩

def Plan.seq (p q : Plan) : Plan where
  entries := p.entries + q.entries
  place o v :=
    let first := p.place o v
    let second := q.place (o + 12 * p.entries) first.stop
    ⟨first.stores ++ second.stores, second.stop⟩

/-! ## Records -/

def be16 (x : ℕ) : List UInt8 := [byteOf x 1, byteOf x 0]

def be32 (x : ℕ) : List UInt8 := [byteOf x 3, byteOf x 2, byteOf x 1, byteOf x 0]

def IfdInfo.record (ifd : IfdInfo) : List UInt8 :=
  be16 ifd.tag.code ++ be16 ifd.type.code ++ be32 ifd.count ++ be32 ifd.offsetValue

namespace Writer

/-- What a writer does to the `IFD_INFO_T` before it writes the record. -/
def prepare : Writer → IfdInfo → IfdInfo
  | .rational, ifd => ifd
  | .long, ifd =>
      if ifd.count ≤ 1 then
        { ifd with valueOffset := .ofLong (ifd.valuePtr.load32 0).toNat }
      else ifd
  | .short, ifd =>
      if ifd.count ≤ 2 then
        let v := (ValueOffset.ofLong 0).setShort0 (load16 ifd.valuePtr 0).toNat
        { ifd with
          valueOffset :=
            if ifd.count = 2 then v.setShort1 (load16 ifd.valuePtr 1).toNat else v }
      else ifd
  | .byte, ifd =>
      if ifd.count ≤ 4 then
        { ifd with valueOffset := ifd.valueOffset.setBytes ifd.valuePtr ifd.count }
      else ifd

/-- Whether the elements are written behind the directory. -/
def outside : Writer → ℕ → Bool
  | .rational, _ => true
  | .long, count => 1 < count
  | .short, count => 2 < count
  | .byte, count => 4 < count

def element : Writer → Memory → ℕ → List UInt8
  | .rational, m, i => be32 (m.load32 (2 * i)).toNat ++ be32 (m.load32 (2 * i + 1)).toNat
  | .long, m, i => be32 (m.load32 i).toNat
  | .short, m, i => be16 (load16 m i).toNat
  | .byte, m, i => [m i]

def elements (w : Writer) (m : Memory) (count : ℕ) : List UInt8 :=
  (List.range count).flatMap (w.element m)

/-- Whether the caller sees that an element could not be written. -/
def strict : Writer → Bool
  | .rational | .long => true
  | .short | .byte => false

end Writer

namespace Block

def info (b : Block) (v : ℕ) : IfdInfo :=
  ⟨b.tag, b.type, b.count, .ofLong (v - IFH), b.valuePtr⟩

/-- The record of a field, when its value is at `v`. -/
def record (b : Block) (v : ℕ) : List UInt8 := (b.writer.prepare (b.info v)).record

def elements (b : Block) : List UInt8 := b.writer.elements b.valuePtr b.count

def value (d : Dir) (b : Block) (v : ℕ) : Placed :=
  if b.writer.outside b.count then
    ⟨Store.block (.value d b.tag) v b.elements, align4 (v + b.elements.length)⟩
  else ⟨[], v⟩

def plan (d : Dir) (b : Block) : Plan :=
  if b.supplied then
    { entries := 1
      place := fun o v =>
        ⟨Store.block (.record d b.tag) o (b.record v) ++ (b.value d v).stores,
          (b.value d v).stop⟩ }
  else .nil

end Block

def fieldsPlan (d : Dir) : List Block → Plan
  | [] => .nil
  | b :: blocks => (b.plan d).seq (fieldsPlan d blocks)

/-! ## Directories -/

def directoryLayout (d : Dir) (reserved : ℕ) (body : Plan) (next : ℕ → ℕ) (b : ℕ) : Placed :=
  let placed := body.place (b + 2) (align4 (b + 2 + reserved * IFD_HEAD_LENGTH + 4))
  ⟨Store.block (.count d) b (be16 reserved) ++ placed.stores ++
      Store.block (.next d) (b + 2 + 12 * body.entries) (be32 (next placed.stop)) ++
      Store.block (.count d) b (be16 body.entries),
    placed.stop⟩

def pointerRecord (tag : IfdTag) (offset : ℕ) : List UInt8 :=
  (Writer.long.prepare ⟨tag, .long, 1, .ofLong offset, longs [UInt32.ofNat offset]⟩).record

def pointerPlan (d : Dir) (tag : IfdTag) (sub : ℕ → Placed) : Plan where
  entries := 1
  place o v :=
    ⟨Store.block (.record d tag) o (pointerRecord tag (align4 v - IFH)) ++
        (sub (align4 v)).stores,
      (sub (align4 v)).stop⟩

def optionalPlan {α : Type} (d : Dir) (tag : IfdTag) (sub : α → ℕ → Placed) : Option α → Plan
  | none => .nil
  | some info => pointerPlan d tag (sub info)

def interLayout (inter : InteroperabilityInfo) : ℕ → Placed :=
  directoryLayout .interop 1 (fieldsPlan .interop (interFields inter)) fun _ => 0

def specPlan (inter : Option InteroperabilityInfo) (spec : SpecificInfo) : Plan :=
  (fieldsPlan .exif (specFields spec)).seq
    ((optionalPlan .exif .interoperabilityIfdPointer interLayout inter).seq
      (fieldsPlan .exif (specFields' spec)))

def specLayout (inter : Option InteroperabilityInfo) (spec : SpecificInfo) : ℕ → Placed :=
  directoryLayout .exif 57 (specPlan inter spec) fun _ => 0

def gpsLayout (gps : GpsInfo) : ℕ → Placed :=
  directoryLayout .gps 31 (fieldsPlan .gps (gpsFields gps)) fun _ => 0

def ifd0Plan (info : ExifInfo) : Plan :=
  (fieldsPlan .ifd0 (primaryFields info.primary)).seq
    ((fieldsPlan .ifd0 (primaryFields' info.primary)).seq
      ((optionalPlan .ifd0 .exifIfdPointer (specLayout info.inter) info.spec).seq
        (optionalPlan .ifd0 .gpsIfdPointer gpsLayout info.gps)))

def ifd0Layout (info : ExifInfo) (thumbnail : List UInt8) : ℕ → Placed :=
  directoryLayout .ifd0 24 (ifd0Plan info) fun v => if !thumbnail.isEmpty then v - IFH else 0

/-- The entries of `IFD1` from those of the thumbnail on, with the thumbnail itself, whose
offset is written into the first of them when it is known. -/
def thumbnailPlan (thumbnail : List UInt8) : Plan :=
  let entries := (fieldsPlan .ifd1 (thumbnailFields thumbnail)).seq
    (fieldsPlan .ifd1 (primaryFields' ifd1Primary))
  { entries := entries.entries
    place := fun o v =>
      let placed := entries.place o v
      ⟨placed.stores ++ Store.block .thumbnail placed.stop thumbnail ++
          Store.block (.record .ifd1 .jpegInterchangeFormat) o
            (pointerRecord .jpegInterchangeFormat (placed.stop - IFH)),
        placed.stop + thumbnail.length⟩ }

def ifd1Plan (thumbnail : List UInt8) : Plan :=
  (fieldsPlan .ifd1 (primaryFields ifd1Primary)).seq (thumbnailPlan thumbnail)

def ifd1Layout (thumbnail : List UInt8) : ℕ → Placed :=
  directoryLayout .ifd1 24 (ifd1Plan thumbnail) fun _ => 0

/-! ## The segment -/

def ifdsLayout (info : ExifInfo) (thumbnail : List UInt8) : Placed :=
  let ifd0 := ifd0Layout info thumbnail 18
  if thumbnail.isEmpty then ifd0
  else
    let ifd1 := ifd1Layout thumbnail ifd0.stop
    ⟨ifd0.stores ++ ifd1.stores, ifd1.stop⟩

def headerBytes (length : ℕ) : List UInt8 :=
  [0xff, 0xe1] ++ be16 length ++ [0x45, 0x78, 0x69, 0x66, 0, 0]

def layout (info : ExifInfo) (thumbnail : List UInt8) : Placed :=
  let ifds := ifdsLayout info thumbnail
  ⟨Store.block .ifh 10 (be16 0x4d4d ++ be16 0x002a ++ be32 8) ++ ifds.stores ++
      Store.block .header 0 (headerBytes (app1Length ifds.stop)),
    ifds.stop⟩

/-- Each byte of the layout lies in a buffer of this size. -/
def Placed.Fits (p : Placed) (size : ℕ) : Prop := ∀ w ∈ p.stores, w.addr < size

end Exif

end Tarako
