import Tarako.Camera.JpegSegments

/-!
# The header writer of the JPEG encoder

`JPEG_HWWriteHead` of `jpegenc_interface.c` with the segments of `jpegenc_header.c`, the byte
output of `jpegenc_bitstream.c`, and the initialization that comes before it: `JPEG_HWEncInit`
with `JpegEnc_InitParam` and `JpegEnc_QTableCfg`, called by `JPEGENC_start_encode`.

Every byte goes through a register that the hardware may not be ready for. The output functions
poll for it and write in any case; the segments poll before they begin and return `JPEG_FAILED`
when the poll times out. `emits_writeHead` says what has been written then.
-/

namespace Tarako

namespace JpegEnc

open Prog JpegParse

/-! The elements of an array of three. -/

theorem first_lt : 0 < 3 := by decide

theorem second_lt : 1 < 3 := by decide

theorem third_lt : 2 < 3 := by decide

abbrev first {α : Type} (v : Vector α 3) : α := getElem v 0 first_lt

abbrev second {α : Type} (v : Vector α 3) : α := getElem v 1 second_lt

abbrev third {α : Type} (v : Vector α 3) : α := getElem v 2 third_lt

structure Ratio where
  hRatio : UInt8
  vRatio : UInt8

structure TblMap where
  dcHuffTblId : UInt8
  acHuffTblId : UInt8
  quantTblId : UInt16

/-- `HUFF_TBL_T`: pointers to tables whose sizes differ. -/
structure HuffTbl where
  bits : Option (List UInt8)
  huffval : Option (List UInt8)

/-- What the header is written from in `JPEG_CODEC_T`. -/
structure Codec where
  restartInterval : UInt32
  width : UInt16
  height : UInt16
  ratio : Vector Ratio 3
  inputMcuInfo : UInt8
  compressLevel : UInt32
  tblMap : Vector TblMap 3
  dcHuffTbl : Vector HuffTbl NUM_HUFF_TBLS
  acHuffTbl : Vector HuffTbl NUM_HUFF_TBLS
  quantTbl : Vector (Option (List UInt8)) 3

/-- The codec with what has been written, whether the hardware is ready at each poll, and how
many polls there have been. -/
structure Writer where
  ready : ℕ → Bool
  polls : ℕ
  out : List UInt8
  codec : Codec

/-- An access to an element that does not exist, or through a `NULL` pointer. -/
inductive Fault
  | fault
  deriving DecidableEq, Repr

abbrev W := Prog Writer Fault

def Writer.poll (w : Writer) : Writer := { w with polls := w.polls + 1 }

def Writer.emit (w : Writer) (d : List UInt8) : Writer := { w with out := w.out ++ d }

def Writer.setCodec (w : Writer) (codec : Codec) : Writer := { w with codec }

/-! ## Output -/

/-- `VSP_READ_REG_POLL`: the register is ready before the time is out. -/
def readRegPoll : W Bool := do
  let w ← get
  modify Writer.poll
  pure (w.ready w.polls)

/-- `m` and, if it succeeds, `k`. -/
def andThen (m k : W Bool) : W Bool := do
  let done ← m
  if done then k else pure false

def putC (ch : UInt8) : W Unit := do
  let _ ← readRegPoll
  modify fun w => w.emit [ch]

def putW (w : UInt16) : W Unit := do
  let _ ← readRegPoll
  modify fun s => s.emit [(w >>> 8).toUInt8, w.toUInt8]

def putMarker (mark : UInt8) : W Unit := do
  putC 0xFF
  putC mark

def follow {α : Type} (p : Option α) : W α :=
  match p with
  | none => throw .fault
  | some x => pure x

def entry {α : Type} (l : List α) (i : ℕ) : W α := follow l[i]?

/-! ## Segments -/

def M_SOF0 : UInt8 := 0xc0

def M_DHT : UInt8 := 0xc4

def M_DQT : UInt8 := 0xdb

def M_DRI : UInt8 := 0xdd

def M_APP0 : UInt8 := 0xe0

def putAPP0 : W Bool :=
  andThen readRegPoll do
    putMarker M_APP0
    putW (2 + 4 + 1 + 2 + 1 + 2 + 2 + 1 + 1)
    putC 0x4a
    putC 0x46
    putC 0x49
    putC 0x46
    putC 0
    putC 1
    putC 1
    putC 0
    putW 1
    putW 1
    putC 0
    putC 0
    pure true

def putQuant (quant : Option (List UInt8)) (k : ℕ) : W Unit := do
  let z ← entry zigzagOrder k
  let quant ← follow quant
  let q ← entry quant z
  putC q

def putOneQuantTbl (i : ℕ) : W Bool :=
  andThen readRegPoll do
    putMarker M_DQT
    putW (64 + 1 + 2)
    putC (.ofNat i)
    let w ← get
    let quant ← entry w.codec.quantTbl.toList i
    andThen readRegPoll do
      each (putQuant quant) 32 0
      andThen readRegPoll do
        each (putQuant quant) 32 32
        pure true

def putQuantTbl : W Bool := andThen (putOneQuantTbl 0) (putOneQuantTbl 1)

def putSofComponent (i : ℕ) : W Unit := do
  let w ← get
  putC (.ofNat (i + 1))
  let ratio ← entry w.codec.ratio.toList i
  putC (ratio.hRatio <<< 4 ||| ratio.vRatio)
  let tblMap ← entry w.codec.tblMap.toList i
  putC tblMap.quantTblId.toUInt8

def putSOF0 : W Bool :=
  andThen readRegPoll do
    let w ← get
    putMarker M_SOF0
    putW (3 * 3 + 2 + 5 + 1)
    putC 8
    putW w.codec.height
    putW w.codec.width
    putC 3
    each putSofComponent 3 0
    pure true

def putSosComponent (i : ℕ) : W Unit := do
  let w ← get
  putC (.ofNat (i + 1))
  let tblMap ← entry w.codec.tblMap.toList i
  putC (tblMap.dcHuffTblId <<< 4 ||| tblMap.acHuffTblId)

def putSOS : W Bool :=
  andThen readRegPoll do
    putMarker M_SOS
    putW (2 * 3 + 2 + 1 + 3)
    putC 3
    each putSosComponent 3 0
    putC 0
    putC 63
    putC 0
    pure true

/-- The number of symbols of a table: `bits[i ..]`. -/
def symbolCount (bits : List UInt8) : ℕ → ℕ → UInt16 → W UInt16
  | 0, _, count => pure count
  | k + 1, i, count => do
      let b ← entry bits i
      symbolCount bits k (i + 1) (count + b.toUInt16)

def putFrom (table : Option (List UInt8)) (i : ℕ) : W Unit := do
  let table ← follow table
  let c ← entry table i
  putC c

/-- The symbols of a table in parts of 32, the last part being shorter. -/
def putHuffvals (huffval : Option (List UInt8)) (left : ℕ) : ℕ → ℕ → W Bool
  | 0, i =>
      andThen readRegPoll do
        each (putFrom huffval) left i
        pure true
  | parts + 1, i =>
      andThen readRegPoll do
        each (putFrom huffval) 32 i
        putHuffvals huffval left parts (i + 32)

def putOneHuffTbl (index : UInt8) (tbl : HuffTbl) : W Bool := do
  let bits ← follow tbl.bits
  let count ← symbolCount bits 16 1 0
  andThen readRegPoll do
    putMarker M_DHT
    putW (2 + 1 + 16 + count)
    putC index
    each (putFrom tbl.bits) 16 1
    putHuffvals tbl.huffval (count.toNat % 32) (count.toNat / 32) 0

/-- One of the calls of `PutHuffTbl`: the table `i` of a class. -/
def putHuffTblOf (index : UInt8) (tbls : Codec → Vector HuffTbl NUM_HUFF_TBLS) (i : ℕ) :
    W Bool := do
  let w ← get
  let tbl ← entry (tbls w.codec).toList i
  putOneHuffTbl index tbl

def putHuffTbl : W Bool :=
  andThen (putHuffTblOf 0x00 Codec.dcHuffTbl 0) <|
    andThen (putHuffTblOf 0x10 Codec.acHuffTbl 0) <|
      andThen (putHuffTblOf 0x01 Codec.dcHuffTbl 1) (putHuffTblOf 0x11 Codec.acHuffTbl 1)

def writeDRI : W Bool :=
  andThen readRegPoll do
    let w ← get
    if w.codec.restartInterval ≠ 0 then
      putMarker M_DRI
      putW 4
      putW w.codec.restartInterval.toUInt16
      pure true
    else pure true

/-- `JPEG_HWWriteHead`. -/
def writeHead : W Bool :=
  andThen readRegPoll do
    putMarker M_SOI
    andThen putAPP0 <| andThen putQuantTbl <| andThen putSOF0 <| andThen putHuffTbl <|
      andThen writeDRI putSOS

/-! ## Initialization -/

def JPEG_FW_YUV420 : UInt32 := 0

def JPEG_FW_YUV422 : UInt32 := 3

def JPEG_QUALITY_HIGH : UInt32 := 4

def JPEG_QUALITY_MAX : UInt32 := 5

/-- What is read of `JPEG_ENC_INPUT_PARA_T`. -/
structure EncInput where
  width : UInt32
  height : UInt32
  mcuInfo0 : UInt32
  mcuInfo1 : UInt32
  quantLevel : UInt32
  isFirstSlice : Bool
  restartInterval : UInt32

/-- The rows of the tables for luminance and chrominance, which are the same. -/
def quantTblDefault : List (List UInt8) :=
  [[10, 7, 6, 10, 14, 24, 31, 37, 7, 7, 8, 11, 16, 35, 36, 33,
    8, 8, 10, 14, 24, 34, 41, 34, 8, 10, 13, 17, 31, 52, 48, 37,
    11, 13, 22, 34, 41, 65, 62, 46, 14, 21, 33, 38, 49, 62, 68, 55,
    29, 38, 47, 52, 62, 73, 72, 61, 43, 55, 57, 59, 67, 60, 62, 59],
   [6, 4, 4, 6, 10, 16, 20, 24, 5, 5, 6, 8, 10, 23, 24, 22,
    6, 5, 6, 10, 16, 23, 28, 22, 6, 7, 9, 12, 20, 35, 32, 25,
    7, 9, 15, 22, 27, 44, 41, 31, 10, 14, 22, 26, 32, 42, 45, 37,
    20, 26, 31, 35, 41, 48, 48, 40, 29, 37, 38, 39, 45, 40, 41, 40],
   [5, 3, 3, 5, 7, 12, 15, 18, 4, 4, 4, 6, 8, 17, 18, 17,
    4, 4, 5, 7, 12, 17, 18, 17, 4, 5, 7, 9, 15, 26, 24, 19,
    5, 7, 11, 17, 20, 33, 31, 23, 7, 11, 17, 19, 24, 31, 34, 28,
    15, 19, 23, 26, 31, 36, 36, 30, 22, 28, 29, 29, 34, 30, 31, 30],
   [0x3, 0x2, 0x2, 0x3, 0x5, 0x8, 0xa, 0xc, 0x2, 0x2, 0x3, 0x4, 0x5, 0xc, 0xc, 0xb,
    0x3, 0x3, 0x3, 0x5, 0x8, 0xb, 0xe, 0xb, 0x3, 0x3, 0x4, 0x6, 0xa, 0x11, 0x10, 0xc,
    0x4, 0x4, 0x7, 0xb, 0xe, 0x16, 0x15, 0xf, 0x5, 0x7, 0xb, 0xd, 0x10, 0x15, 0x17, 0x12,
    0xa, 0xd, 0x10, 0x11, 0x15, 0x18, 0x18, 0x14, 0xe, 0x12, 0x13, 0x14, 0x16, 0x14, 0x15, 0x14],
   [0x2, 0x1, 0x1, 0x2, 0x2, 0x4, 0x5, 0x6, 0x1, 0x1, 0x1, 0x2, 0x3, 0x6, 0x6, 0x6,
    0x1, 0x1, 0x2, 0x2, 0x4, 0x6, 0x7, 0x6, 0x1, 0x2, 0x2, 0x3, 0x5, 0x9, 0x8, 0x6,
    0x2, 0x2, 0x4, 0x6, 0x7, 0xb, 0xa, 0x8, 0x2, 0x4, 0x6, 0x6, 0x8, 0xa, 0xb, 0x9,
    0x5, 0x6, 0x8, 0x9, 0xa, 0xc, 0xc, 0xa, 0x7, 0x9, 0xa, 0xa, 0xb, 0xa, 0xa, 0xa]]

/-- The codec behind `SCI_MEMSET`. -/
def Codec.zero : Codec where
  restartInterval := 0
  width := 0
  height := 0
  ratio := Vector.replicate 3 ⟨0, 0⟩
  inputMcuInfo := 0
  compressLevel := 0
  tblMap := Vector.replicate 3 ⟨0, 0, 0⟩
  dcHuffTbl := Vector.replicate NUM_HUFF_TBLS ⟨none, none⟩
  acHuffTbl := Vector.replicate NUM_HUFF_TBLS ⟨none, none⟩
  quantTbl := Vector.replicate 3 none

/-- The sample ratio of the first component; the others have 1 and 1. -/
def ratioOf (inputMcuInfo : UInt8) : Option Ratio :=
  if inputMcuInfo.toUInt32 = JPEG_FW_YUV420 then some ⟨2, 2⟩
  else if inputMcuInfo.toUInt32 = JPEG_FW_YUV422 then some ⟨2, 1⟩
  else none

/-- What `JpegEnc_InitParam` loads into the codec before the sample ratio. -/
def loadParam (para : EncInput) : Codec :=
  { Codec.zero with
    inputMcuInfo := para.mcuInfo0.toUInt8
    width := para.width.toUInt16
    height := para.height.toUInt16
    compressLevel := para.quantLevel
    restartInterval := para.restartInterval
    dcHuffTbl :=
      #v[⟨some lumDcBitsDefault, some lumDcHuffvalueDefault⟩,
        ⟨some chrDcBitsDefault, some chrDcHuffvalueDefault⟩, ⟨none, none⟩, ⟨none, none⟩]
    acHuffTbl :=
      #v[⟨some lumAcBitsDefault, some lumAcHuffvalueDefault⟩,
        ⟨some chrAcBitsDefault, some chrAcHuffvalueDefault⟩, ⟨none, none⟩, ⟨none, none⟩] }

/-- `JpegEnc_InitParam`: the quality that is checked is the one of the picture before. -/
def initParam (para : EncInput) : W Bool := do
  let w ← get
  if para.mcuInfo0 ≠ JPEG_FW_YUV422 ∧ para.mcuInfo0 ≠ JPEG_FW_YUV420 ∧
      para.mcuInfo1 ≠ JPEG_FW_YUV422 ∧ para.mcuInfo1 ≠ JPEG_FW_YUV420 then pure false
  else if JPEG_QUALITY_MAX < w.codec.compressLevel then pure false
  else if para.width < 1 ∨ para.height < 1 then pure false
  else
    modify fun w => w.setCodec (loadParam para)
    match ratioOf para.mcuInfo0.toUInt8 with
    | none => pure false
    | some ratio =>
        modify fun w => w.setCodec { w.codec with ratio := #v[ratio, ⟨1, 1⟩, ⟨1, 1⟩] }
        pure true

/-- `JPEGFW_InitHuffTblWithDefaultValue`, and the numbers of the tables in
`JpegEnc_QTableCfg`. -/
def defaultTblMap : Vector TblMap 3 := #v[⟨0, 0, 0⟩, ⟨1, 1, 1⟩, ⟨1, 1, 1⟩]

/-- `JpegEnc_QTableCfg`. -/
def qTableCfg : W Unit := do
  let w ← get
  let quant ← entry quantTblDefault w.codec.compressLevel.toNat
  modify fun w => w.setCodec
    { w.codec with
      tblMap := defaultTblMap
      quantTbl := #v[some quant, some quant, third w.codec.quantTbl] }

def hwEncInit (para : EncInput) : W Bool :=
  andThen (if para.isFirstSlice then initParam para else pure true) do
    qTableCfg
    pure true

/-- What is read of `JPEGENC_PARAMS_T` until the hardware starts. -/
structure Params where
  format : UInt32
  width : UInt32
  height : UInt32
  setSliceHeight : UInt32
  quality : UInt32

def initFwParam (p : Params) : EncInput where
  width := p.width
  height := p.height
  mcuInfo0 := p.format
  mcuInfo1 := p.format
  quantLevel := if JPEG_QUALITY_MAX ≤ p.quality then JPEG_QUALITY_HIGH else p.quality
  isFirstSlice := true
  restartInterval := 0

/-- `JPEG_HWEncStart`: whether the hardware is started. -/
def hwEncStart (rawWidth rawHeight : UInt32) : W Bool :=
  pure (rawWidth &&& 0xf == 0 && rawHeight &&& 0x7 == 0)

def SLICE_HEIGHT : UInt32 := 1024

def sliceHeight (p : Params) : UInt32 :=
  if p.setSliceHeight ≠ 0 then p.setSliceHeight else SLICE_HEIGHT

def startEncode (p : Params) : W Bool :=
  andThen (hwEncInit (initFwParam p)) <| andThen writeHead <| hwEncStart p.width (sliceHeight p)

/-! ## What is written -/

/-- The codec and the hardware are as before. -/
structure Same (w t : Writer) : Prop where
  codec : t.codec = w.codec
  ready : t.ready = w.ready

theorem Same.refl (w : Writer) : Same w w := ⟨rfl, rfl⟩

theorem Same.trans {w t u : Writer} (h : Same w t) (h' : Same t u) : Same w u :=
  ⟨h'.codec.trans h.codec, h'.ready.trans h.ready⟩

/-- The hardware is ready at every poll. -/
def Writer.Ready (w : Writer) : Prop := ∀ n, w.ready n = true

/-- `m` writes `d`. -/
def Puts (m : W Unit) (d : List UInt8) (w : Writer) : Prop :=
  wp (fun _ => False) m (fun _ t => Same w t ∧ t.out = w.out ++ d) w

/-- `m` writes `d` when it succeeds, and the beginning of it when a poll times out. -/
def Emits (m : W Bool) (d : List UInt8) (w : Writer) : Prop :=
  wp (fun _ => False) m (fun b t => Same w t ∧ (w.Ready → b = true) ∧
    if b then t.out = w.out ++ d else ∃ p, p <+: d ∧ t.out = w.out ++ p) w

section Emits

variable {w : Writer} {d d' : List UInt8}

theorem puts_pure : Puts (pure ()) [] w := ⟨Same.refl w, (List.append_nil _).symm⟩

theorem puts_bind {m k : W Unit} (hm : Puts m d w) (hk : ∀ t, Same w t → Puts k d' t) :
    Puts (m >>= fun _ => k) (d ++ d') w := by
  rw [Puts, wp_bind]
  refine wp_mono hm (fun _ he => he) ?_
  rintro _ t ⟨hsame, hout⟩
  refine wp_mono (hk t hsame) (fun _ he => he) ?_
  rintro _ u ⟨hsame', hout'⟩
  refine ⟨hsame.trans hsame', ?_⟩
  rw [hout', hout, List.append_assoc]

theorem puts_get {f : Writer → W Unit} (h : Puts (f w) d w) : Puts (get >>= f) d w := h

theorem puts_follow {α : Type} {p : Option α} {x : α} {f : α → W Unit} (hp : p = some x)
    (h : Puts (f x) d w) : Puts (follow p >>= f) d w := by
  rw [hp]
  exact h

theorem puts_entry {α : Type} {l : List α} {i : ℕ} {x : α} {f : α → W Unit} (hx : l[i]? = some x)
    (h : Puts (f x) d w) : Puts (entry l i >>= f) d w := puts_follow hx h

theorem puts_putC (ch : UInt8) : Puts (putC ch) [ch] w := ⟨⟨rfl, rfl⟩, rfl⟩

def wordBytes (v : UInt16) : List UInt8 := [(v >>> 8).toUInt8, v.toUInt8]

theorem puts_putW (v : UInt16) : Puts (putW v) (wordBytes v) w := ⟨⟨rfl, rfl⟩, rfl⟩

theorem puts_putMarker (mark : UInt8) : Puts (putMarker mark) [0xFF, mark] w :=
  puts_bind (puts_putC 0xFF) fun _ _ => puts_putC mark

theorem puts_each {body : ℕ → W Unit} {data : ℕ → List UInt8} {k i : ℕ}
    (h : ∀ j, i ≤ j → j < i + k → ∀ t, Same w t → Puts (body j) (data j) t) :
    Puts (each body k i) ((List.range' i k).flatMap data) w := by
  induction k generalizing i w with
  | zero => exact puts_pure
  | succ k ih =>
      rw [List.range'_succ, List.flatMap_cons]
      refine puts_bind (h i (Nat.le_refl i) (by omega) w (Same.refl w)) fun t ht => ?_
      exact ih fun j hj hlt u hu => h j (by omega) (by omega) u (ht.trans hu)

theorem emits_pure : Emits (pure true) [] w :=
  ⟨Same.refl w, fun _ => rfl, (List.append_nil _).symm⟩

theorem emits_readRegPoll : Emits readRegPoll [] w := by
  refine ⟨⟨rfl, rfl⟩, fun h => h w.polls, ?_⟩
  split
  · exact (List.append_nil _).symm
  · exact ⟨[], List.nil_prefix, (List.append_nil _).symm⟩

theorem emits_andThen {m k : W Bool} (hm : Emits m d w) (hk : ∀ t, Same w t → Emits k d' t) :
    Emits (andThen m k) (d ++ d') w := by
  rw [Emits, andThen, wp_bind]
  refine wp_mono hm (fun _ he => he) ?_
  rintro b t ⟨hsame, hready, hout⟩
  cases b with
  | false =>
      obtain ⟨p, hp, hout⟩ := hout
      exact ⟨hsame, hready, p, hp.trans (List.prefix_append _ _), hout⟩
  | true =>
      refine wp_mono (hk t hsame) (fun _ he => he) ?_
      rintro b u ⟨hsame', hready', hout'⟩
      rw [if_pos rfl] at hout
      rw [Writer.Ready, hsame.ready] at hready'
      refine ⟨hsame.trans hsame', hready', ?_⟩
      cases b with
      | false =>
          obtain ⟨p, hp, hout'⟩ := hout'
          refine ⟨d ++ p, (List.prefix_append_right_inj d).mpr hp, ?_⟩
          rw [hout', hout, List.append_assoc]
      | true =>
          rw [if_pos rfl] at hout' ⊢
          rw [hout', hout, List.append_assoc]

theorem emits_polled {k : W Bool} (hk : ∀ t, Same w t → Emits k d t) :
    Emits (andThen readRegPoll k) d w := emits_andThen emits_readRegPoll hk

theorem emits_put {m : W Unit} {k : W Bool} (hm : Puts m d w)
    (hk : ∀ t, Same w t → Emits k d' t) : Emits (m >>= fun _ => k) (d ++ d') w := by
  rw [Emits, wp_bind]
  refine wp_mono hm (fun _ he => he) ?_
  rintro _ t ⟨hsame, hout⟩
  refine wp_mono (hk t hsame) (fun _ he => he) ?_
  rintro b u ⟨hsame', hready', hout'⟩
  rw [Writer.Ready, hsame.ready] at hready'
  refine ⟨hsame.trans hsame', hready', ?_⟩
  cases b with
  | false =>
      obtain ⟨p, hp, hout'⟩ := hout'
      refine ⟨d ++ p, (List.prefix_append_right_inj d).mpr hp, ?_⟩
      rw [hout', hout, List.append_assoc]
  | true =>
      rw [if_pos rfl] at hout' ⊢
      rw [hout', hout, List.append_assoc]

theorem emits_end {m : W Unit} (hm : Puts m d w) : Emits (m >>= fun _ => pure true) d w := by
  have h := emits_put hm fun _ _ => emits_pure
  rwa [List.append_nil] at h

theorem emits_get {f : Writer → W Bool} (h : Emits (f w) d w) : Emits (get >>= f) d w := h

theorem emits_follow {α : Type} {p : Option α} {x : α} {f : α → W Bool} (hp : p = some x)
    (h : Emits (f x) d w) : Emits (follow p >>= f) d w := by
  rw [hp]
  exact h

theorem emits_entry {α : Type} {l : List α} {i : ℕ} {x : α} {f : α → W Bool}
    (hx : l[i]? = some x) (h : Emits (f x) d w) : Emits (entry l i >>= f) d w := emits_follow hx h

end Emits

/-! ### The header -/

def app0Segment : List UInt8 :=
  [0xFF, M_APP0, 0, 16, 0x4a, 0x46, 0x49, 0x46, 0, 1, 1, 0, 0, 1, 0, 1, 0, 0]

def zigzagged (quant : List UInt8) : List UInt8 :=
  (List.range' 0 64).map fun k => quant.getD (zigzagOrder.getD k 0) 0

def quantSegment (i : ℕ) (quant : List UInt8) : List UInt8 :=
  [0xFF, M_DQT] ++ wordBytes 67 ++ [.ofNat i] ++ zigzagged quant

def sofComponentBytes (ratio : Ratio) (tblMap : TblMap) (i : ℕ) : List UInt8 :=
  [.ofNat (i + 1), ratio.hRatio <<< 4 ||| ratio.vRatio, tblMap.quantTblId.toUInt8]

def sofSegment (c : Codec) : List UInt8 :=
  [0xFF, M_SOF0] ++ wordBytes 17 ++ [(8 : UInt8)] ++ wordBytes c.height ++ wordBytes c.width ++
    [(3 : UInt8)] ++ (sofComponentBytes (first c.ratio) (first c.tblMap) 0 ++
      sofComponentBytes (second c.ratio) (second c.tblMap) 1 ++
        sofComponentBytes (third c.ratio) (third c.tblMap) 2)

def sosComponentBytes (tblMap : TblMap) (i : ℕ) : List UInt8 :=
  [.ofNat (i + 1), tblMap.dcHuffTblId <<< 4 ||| tblMap.acHuffTblId]

def sosSegment (c : Codec) : List UInt8 :=
  [0xFF, M_SOS] ++ wordBytes 12 ++ [(3 : UInt8)] ++
    (sosComponentBytes (first c.tblMap) 0 ++ sosComponentBytes (second c.tblMap) 1 ++
      sosComponentBytes (third c.tblMap) 2) ++ [(0 : UInt8), 63, 0]

def counts (bits : List UInt8) : List UInt8 := (bits.drop 1).take 16

def symbolsOf (bits : List UInt8) : ℕ := ((counts bits).map UInt8.toNat).sum

def huffSegment (index : UInt8) (bits huffval : List UInt8) : List UInt8 :=
  [0xFF, M_DHT] ++ wordBytes (19 + .ofNat (symbolsOf bits)) ++ [index] ++ counts bits ++
    huffval.take (symbolsOf bits)

def driSegment (restartInterval : UInt32) : List UInt8 :=
  if restartInterval ≠ 0 then
    [0xFF, M_DRI] ++ (wordBytes 4 ++ wordBytes restartInterval.toUInt16)
  else []

/-- The tables that a codec has for its header. -/
structure Tables where
  quant0 : List UInt8
  quant1 : List UInt8
  dcBits0 : List UInt8
  dcHuffval0 : List UInt8
  acBits0 : List UInt8
  acHuffval0 : List UInt8
  dcBits1 : List UInt8
  dcHuffval1 : List UInt8
  acBits1 : List UInt8
  acHuffval1 : List UInt8

/-- A Huffman table has as many symbols as its counts say. -/
structure Complete (bits huffval : List UInt8) : Prop where
  counted : bits.length = MAX_BITS_SIZE + 1
  enough : symbolsOf bits ≤ huffval.length

/-- The pointers of the codec lead to these tables. -/
structure Codec.Has (c : Codec) (t : Tables) : Prop where
  quantTbl0 : first c.quantTbl = some t.quant0
  quantTbl1 : second c.quantTbl = some t.quant1
  dcHuffTbl0 : c.dcHuffTbl[0] = ⟨some t.dcBits0, some t.dcHuffval0⟩
  acHuffTbl0 : c.acHuffTbl[0] = ⟨some t.acBits0, some t.acHuffval0⟩
  dcHuffTbl1 : c.dcHuffTbl[1] = ⟨some t.dcBits1, some t.dcHuffval1⟩
  acHuffTbl1 : c.acHuffTbl[1] = ⟨some t.acBits1, some t.acHuffval1⟩
  quant0 : t.quant0.length = 64
  quant1 : t.quant1.length = 64
  dc0 : Complete t.dcBits0 t.dcHuffval0
  ac0 : Complete t.acBits0 t.acHuffval0
  dc1 : Complete t.dcBits1 t.dcHuffval1
  ac1 : Complete t.acBits1 t.acHuffval1

def header (c : Codec) (t : Tables) : List UInt8 :=
  [0xFF, M_SOI] ++ (app0Segment ++ ((quantSegment 0 t.quant0 ++ quantSegment 1 t.quant1) ++
    (sofSegment c ++ ((huffSegment 0x00 t.dcBits0 t.dcHuffval0 ++
      (huffSegment 0x10 t.acBits0 t.acHuffval0 ++ (huffSegment 0x01 t.dcBits1 t.dcHuffval1 ++
        huffSegment 0x11 t.acBits1 t.acHuffval1))) ++
          (driSegment c.restartInterval ++ sosSegment c)))))

section Segments

variable {w : Writer}

theorem emits_putAPP0 : Emits putAPP0 app0Segment w :=
  emits_polled fun _ _ => emits_put (puts_putMarker _) fun _ _ => emits_put (puts_putW _)
    fun _ _ => emits_put (puts_putC _) fun _ _ => emits_put (puts_putC _) fun _ _ =>
      emits_put (puts_putC _) fun _ _ => emits_put (puts_putC _) fun _ _ =>
        emits_put (puts_putC _) fun _ _ => emits_put (puts_putC _) fun _ _ =>
          emits_put (puts_putC _) fun _ _ => emits_put (puts_putC _) fun _ _ =>
            emits_put (puts_putW _) fun _ _ => emits_put (puts_putW _) fun _ _ =>
              emits_put (puts_putC _) fun _ _ => emits_end (puts_putC _)

theorem getElem?_of_lt_length {l : List UInt8} {i : ℕ} (h : i < l.length) :
    l[i]? = some (l.getD i 0) := by
  rw [List.getD_eq_getElem?_getD, List.getElem?_eq_getElem h, Option.getD_some]

theorem zigzagOrder_lt {k : ℕ} (hk : k < 64) : ∃ z, zigzagOrder[k]? = some z ∧ z < 64 ∧
    zigzagOrder.getD k 0 = z := by
  have hall : ∀ k : Fin 64, zigzagOrder.getD k 0 < 64 := by decide
  have hlen : k < zigzagOrder.length := Nat.lt_of_lt_of_le hk (by decide)
  refine ⟨zigzagOrder.getD k 0, ?_, hall ⟨k, hk⟩, rfl⟩
  rw [List.getD_eq_getElem?_getD, List.getElem?_eq_getElem hlen, Option.getD_some]

theorem puts_putQuant {quant : List UInt8} (hlen : quant.length = 64) {k : ℕ} (hk : k < 64) :
    Puts (putQuant (some quant) k) [quant.getD (zigzagOrder.getD k 0) 0] w := by
  obtain ⟨z, hz, hlt, hget⟩ := zigzagOrder_lt hk
  rw [hget]
  have hq : quant[z]? = some (quant.getD z 0) := getElem?_of_lt_length (by omega)
  exact puts_entry hz (puts_follow rfl (puts_entry hq (puts_putC _)))

theorem emits_putOneQuantTbl {i : ℕ} {quant : List UInt8} (hlen : quant.length = 64)
    (hptr : w.codec.quantTbl.toList[i]? = some (some quant)) :
    Emits (putOneQuantTbl i) (quantSegment i quant) w := by
  have hsplit : zigzagged quant =
      ((List.range' 0 32).flatMap fun k => [quant.getD (zigzagOrder.getD k 0) 0]) ++
        (List.range' 32 32).flatMap fun k => [quant.getD (zigzagOrder.getD k 0) 0] := by
    rw [zigzagged, ← List.flatMap_append, List.range'_append, List.map_eq_flatMap]
  rw [quantSegment, hsplit]
  simp only [List.append_assoc]
  refine emits_polled fun _ ht => emits_put (puts_putMarker _) fun _ ht1 =>
    emits_put (puts_putW _) fun _ ht2 => emits_put (puts_putC _) fun u ht3 => emits_get ?_
  have hsame : Same w u := ((ht.trans ht1).trans ht2).trans ht3
  rw [← hsame.codec] at hptr
  refine emits_entry hptr (emits_polled fun _ _ => ?_)
  refine emits_put (puts_each fun j _ hj _ _ => puts_putQuant hlen (by omega)) fun _ _ => ?_
  exact emits_polled fun _ _ => emits_end (puts_each fun j _ hj _ _ => puts_putQuant hlen (by omega))

theorem getElem?_toList {α : Type} {n : ℕ} (v : Vector α n) {i : ℕ} (h : i < n) :
    v.toList[i]? = some v[i] := by
  rw [Vector.getElem?_toList, Vector.getElem?_eq_getElem h]

theorem emits_putQuantTbl {t : Tables} (h : w.codec.Has t) :
    Emits putQuantTbl (quantSegment 0 t.quant0 ++ quantSegment 1 t.quant1) w := by
  refine emits_andThen (emits_putOneQuantTbl h.quant0 ?_) fun u hu =>
    emits_putOneQuantTbl h.quant1 ?_
  · exact (getElem?_toList _ first_lt).trans (congrArg some h.quantTbl0)
  · rw [hu.codec]
    exact (getElem?_toList _ second_lt).trans (congrArg some h.quantTbl1)

theorem puts_putSofComponent {c : Codec} (hc : w.codec = c) {i : ℕ} (hi : i < 3) :
    Puts (putSofComponent i) (sofComponentBytes c.ratio[i] c.tblMap[i] i) w := by
  have hratio : w.codec.ratio.toList[i]? = some c.ratio[i] := by rw [hc, getElem?_toList _ hi]
  have hmap : w.codec.tblMap.toList[i]? = some c.tblMap[i] := by rw [hc, getElem?_toList _ hi]
  exact puts_get (puts_bind (puts_putC _) fun _ _ => puts_entry hratio
    (puts_bind (puts_putC _) fun _ _ => puts_entry hmap (puts_putC _)))

theorem emits_putSOF0 : Emits putSOF0 (sofSegment w.codec) w := by
  have hparts : sofSegment w.codec = [0xFF, M_SOF0] ++ (wordBytes 17 ++ ([(8 : UInt8)] ++
      (wordBytes w.codec.height ++ (wordBytes w.codec.width ++ ([(3 : UInt8)] ++
        (List.range' 0 3).flatMap fun i =>
          if h : i < 3 then sofComponentBytes w.codec.ratio[i] w.codec.tblMap[i] i else [])))))
    := rfl
  rw [hparts]
  refine emits_polled fun u hu => emits_get ?_
  rw [hu.codec]
  refine emits_put (puts_putMarker _) fun _ h1 => emits_put (puts_putW _) fun _ h2 =>
    emits_put (puts_putC _) fun _ h3 => emits_put (puts_putW _) fun _ h4 =>
      emits_put (puts_putW _) fun _ h5 => emits_put (puts_putC _) fun t h6 => ?_
  have hsame : Same w t := (((((hu.trans h1).trans h2).trans h3).trans h4).trans h5).trans h6
  refine emits_end (puts_each fun i _ hi v hv => ?_)
  have hlt : i < 3 := by omega
  rw [dif_pos hlt]
  exact puts_putSofComponent (hsame.trans hv).codec hlt

theorem puts_putSosComponent {c : Codec} (hc : w.codec = c) {i : ℕ} (hi : i < 3) :
    Puts (putSosComponent i) (sosComponentBytes c.tblMap[i] i) w := by
  have hmap : w.codec.tblMap.toList[i]? = some c.tblMap[i] := by rw [hc, getElem?_toList _ hi]
  exact puts_get (puts_bind (puts_putC _) fun _ _ => puts_entry hmap (puts_putC _))

theorem emits_putSOS : Emits putSOS (sosSegment w.codec) w := by
  have hparts : sosSegment w.codec = [0xFF, M_SOS] ++ (wordBytes 12 ++ ([(3 : UInt8)] ++
      (((List.range' 0 3).flatMap fun i =>
        if h : i < 3 then sosComponentBytes w.codec.tblMap[i] i else []) ++
          ([(0 : UInt8)] ++ ([(63 : UInt8)] ++ [(0 : UInt8)]))))) := rfl
  rw [hparts]
  refine emits_polled fun _ h0 => emits_put (puts_putMarker _) fun _ h1 =>
    emits_put (puts_putW _) fun _ h2 => emits_put (puts_putC _) fun t h3 => ?_
  have hsame : Same w t := ((h0.trans h1).trans h2).trans h3
  refine emits_put (puts_each fun i _ hi v hv => ?_) fun _ _ => emits_put (puts_putC _)
    fun _ _ => emits_put (puts_putC _) fun _ _ => emits_end (puts_putC _)
  have hlt : i < 3 := by omega
  rw [dif_pos hlt]
  exact puts_putSosComponent (hsame.trans hv).codec hlt

theorem emits_writeDRI : Emits writeDRI (driSegment w.codec.restartInterval) w := by
  refine emits_polled fun u hu => emits_get ?_
  rw [hu.codec, driSegment]
  split_ifs with hrestart
  · exact emits_put (puts_putMarker _) fun _ _ => emits_put (puts_putW _) fun _ _ =>
      emits_end (puts_putW _)
  · exact emits_pure

/-! ### Huffman tables -/

theorem flatMap_getD_eq (l : List UInt8) {i n : ℕ} (h : i + n ≤ l.length) :
    ((List.range' i n).flatMap fun k => [l.getD k 0]) = (l.drop i).take n := by
  induction n generalizing i with
  | zero => rfl
  | succ n ih =>
      have hlt : i < l.length := by omega
      rw [List.range'_succ, List.flatMap_cons, ih (by omega), List.drop_eq_getElem_cons hlt,
        List.take_succ_cons, List.getD_eq_getElem?_getD, List.getElem?_eq_getElem hlt]
      rfl

theorem puts_putFrom {table : List UInt8} {i : ℕ} (hi : i < table.length) :
    Puts (putFrom (some table) i) [table.getD i 0] w :=
  puts_follow rfl (puts_entry (getElem?_of_lt_length hi) (puts_putC _))

theorem emits_putHuffvals {huffval : List UInt8} {left parts i : ℕ}
    (h : i + (32 * parts + left) ≤ huffval.length) :
    Emits (putHuffvals (some huffval) left parts i)
      ((huffval.drop i).take (32 * parts + left)) w := by
  induction parts generalizing i w with
  | zero =>
      rw [← flatMap_getD_eq huffval h]
      refine emits_polled fun _ _ => emits_end ?_
      rw [Nat.mul_zero, Nat.zero_add] at h ⊢
      exact puts_each fun j _ hj _ _ => puts_putFrom (by omega)
  | succ parts ih =>
      have hsplit : (huffval.drop i).take (32 * (parts + 1) + left) =
          ((List.range' i 32).flatMap fun k => [huffval.getD k 0]) ++
            (huffval.drop (i + 32)).take (32 * parts + left) := by
        rw [flatMap_getD_eq huffval (by omega), ← List.drop_drop, ← List.take_add]
        congr 1
        omega
      rw [hsplit]
      exact emits_polled fun _ _ => emits_put (puts_each fun j _ hj _ _ =>
        puts_putFrom (by omega)) fun _ _ => ih (by omega)

theorem wp_symbolCount {bits : List UInt8} {k i : ℕ} (h : i + k ≤ bits.length) (n : ℕ) :
    wp (fun _ => False) (symbolCount bits k i (.ofNat n)) (fun count t => t = w ∧
      count = .ofNat (n + (((bits.drop i).take k).map UInt8.toNat).sum)) w := by
  induction k generalizing i n with
  | zero => exact ⟨rfl, rfl⟩
  | succ k ih =>
      have hlt : i < bits.length := by omega
      have hadd : (UInt16.ofNat n + bits[i].toUInt16) = .ofNat (n + bits[i].toNat) := by
        rw [UInt16.ofNat_add]
        congr 1
        exact UInt16.toNat.inj (by simp)
      rw [symbolCount, entry, List.getElem?_eq_getElem hlt]
      rw [List.drop_eq_getElem_cons hlt, List.take_succ_cons, List.map_cons, List.sum_cons,
        ← Nat.add_assoc]
      change wp _ (symbolCount bits k (i + 1) (UInt16.ofNat n + bits[i].toUInt16)) _ w
      rw [hadd]
      exact ih (by omega) _

theorem sum_toNat_le (l : List UInt8) : (l.map UInt8.toNat).sum ≤ l.length * 255 := by
  induction l with
  | nil => exact Nat.le_refl 0
  | cons c l ih =>
      have hc := c.toNat_lt
      rw [List.map_cons, List.sum_cons, List.length_cons, Nat.succ_mul]
      omega

theorem symbolsOf_lt (bits : List UInt8) : symbolsOf bits < 2 ^ 16 := by
  have hsum := sum_toNat_le (counts bits)
  have hlen : (counts bits).length ≤ 16 := List.length_take_le _ _
  rw [symbolsOf]
  omega

theorem emits_putOneHuffTbl {index : UInt8} {bits huffval : List UInt8}
    (h : Complete bits huffval) : Emits (putOneHuffTbl index ⟨some bits, some huffval⟩)
      (huffSegment index bits huffval) w := by
  have hlen : 1 + 16 ≤ bits.length := by
    rw [h.counted]
    decide
  have hcount : wp (fun _ => False) (symbolCount bits 16 1 (.ofNat 0)) _ w :=
    wp_symbolCount hlen 0
  obtain ⟨count, t, hyields, rfl, hsum⟩ := exists_yields_of_wp hcount
  rw [Nat.zero_add] at hsum
  have hsymbols : count = .ofNat (symbolsOf bits) := hsum
  have hnat : count.toNat = symbolsOf bits := by
    rw [hsymbols, UInt16.toNat_ofNat', Nat.mod_eq_of_lt (symbolsOf_lt bits)]
  have hparts : huffSegment index bits huffval = [0xFF, M_DHT] ++ (wordBytes (19 + count) ++
      ([index] ++ (((List.range' 1 16).flatMap fun k => [bits.getD k 0]) ++
        (huffval.drop 0).take (32 * (count.toNat / 32) + count.toNat % 32)))) := by
    rw [flatMap_getD_eq bits hlen, Nat.div_add_mod, hnat, hsymbols, List.drop_zero, huffSegment]
    simp only [List.append_assoc]
    rfl
  rw [hparts, Emits, putOneHuffTbl]
  refine emits_follow rfl ?_
  rw [Emits, wp_bind]
  refine (wp_of_yields hyields).mpr ?_
  refine emits_polled fun _ _ => emits_put (puts_putMarker _) fun _ _ => ?_
  refine emits_put (puts_putW _) fun _ _ => emits_put (puts_putC _) fun _ _ => ?_
  refine emits_put (puts_each fun j _ hj _ _ => puts_putFrom (by omega)) fun _ _ => ?_
  have hfit := h.enough
  exact emits_putHuffvals (by rw [Nat.zero_add, Nat.div_add_mod]; omega)

theorem emits_putHuffTblOf {index : UInt8} {tbls : Codec → Vector HuffTbl NUM_HUFF_TBLS} {i : ℕ}
    (hi : i < NUM_HUFF_TBLS) {bits huffval : List UInt8} (h : Complete bits huffval)
    (htbl : (tbls w.codec)[i] = ⟨some bits, some huffval⟩) :
    Emits (putHuffTblOf index tbls i) (huffSegment index bits huffval) w := by
  have hget : (tbls w.codec).toList[i]? = some ⟨some bits, some huffval⟩ := by
    rw [getElem?_toList _ hi, htbl]
  exact emits_get (emits_entry hget (emits_putOneHuffTbl h))

theorem emits_putHuffTbl {t : Tables} (h : w.codec.Has t) : Emits putHuffTbl
    (huffSegment 0x00 t.dcBits0 t.dcHuffval0 ++ (huffSegment 0x10 t.acBits0 t.acHuffval0 ++
      (huffSegment 0x01 t.dcBits1 t.dcHuffval1 ++ huffSegment 0x11 t.acBits1 t.acHuffval1))) w := by
  refine emits_andThen (emits_putHuffTblOf (by decide) h.dc0 h.dcHuffTbl0) fun u hu => ?_
  rw [← hu.codec] at h
  refine emits_andThen (emits_putHuffTblOf (by decide) h.ac0 h.acHuffTbl0) fun v hv => ?_
  rw [← hv.codec] at h
  refine emits_andThen (emits_putHuffTblOf (by decide) h.dc1 h.dcHuffTbl1) fun x hx => ?_
  rw [← hx.codec] at h
  exact emits_putHuffTblOf (by decide) h.ac1 h.acHuffTbl1

/-! ### The whole header -/

/-- The header is written, or the beginning of it when a poll times out. -/
theorem emits_writeHead {t : Tables} (h : w.codec.Has t) :
    Emits writeHead (header w.codec t) w := by
  refine emits_polled fun u0 h0 => emits_put (puts_putMarker _) fun u1 h1 => ?_
  refine emits_andThen emits_putAPP0 fun u2 h2 => ?_
  have hsame2 : Same w u2 := (h0.trans h1).trans h2
  rw [← hsame2.codec] at h ⊢
  refine emits_andThen (emits_putQuantTbl h) fun u3 h3 => ?_
  rw [← h3.codec] at h ⊢
  refine emits_andThen emits_putSOF0 fun u4 h4 => ?_
  rw [← h4.codec] at h ⊢
  refine emits_andThen (emits_putHuffTbl h) fun u5 h5 => ?_
  rw [← h5.codec] at h ⊢
  refine emits_andThen emits_writeDRI fun u6 h6 => ?_
  rw [← h6.codec]
  exact emits_putSOS

end Segments

end JpegEnc

end Tarako
