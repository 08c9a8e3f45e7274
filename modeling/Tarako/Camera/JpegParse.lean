import Mathlib.Algebra.GroupWithZero.Nat
import Tarako.Lib.Prog

/-!
# The header parser of the JPEG decoder

`ParseHead` of `jpegdec_parse.c` with the segment handlers, the byte source of
`jpegdec_bitstream.c` and the memory pool of `jpegdec_malloc.c`. Every array has its size,
and an access to an element that it does not have is a fault; a pointer that is `NULL`, or
that an allocation beyond the pool returned, leads to no elements. Whether a failed
`SCI_ASSERT` ends the program depends on the build.

Every caller of `get_char` returns `JPEG_FAILED` when no byte is left, so a read that
fails ends the parse.
-/

namespace Tarako

namespace JpegParse

open Prog

/-- Why the parser ends early: it returns `JPEG_FAILED`, an assertion ends the program, or
it accesses an element that does not exist. -/
inductive Stop
  | failed
  | aborted
  | fault
  deriving DecidableEq, Repr

/-! ## Data -/

def NUM_HUFF_TBLS : ℕ := 4

def MAX_BITS_SIZE : ℕ := 16

def AC_SYMBOL_NUM : ℕ := 256

/-- The bytes left in the buffer, whether there is a read callback, and what its calls
return: an empty result when there is no more. -/
structure Stream where
  chunk : List UInt8
  read : Bool
  later : List (List UInt8)

/-- The pool of `JpegDec_ExtraMemAlloc`. -/
structure Pool where
  size : ℕ
  used : ℕ
  asserts : Bool

structure Component where
  componentId : UInt8
  componentIndex : ℕ
  hSampFactor : ℕ
  vSampFactor : ℕ
  mcuWidth : ℕ
  mcuHeight : ℕ
  deriving DecidableEq, Inhabited

structure TblMap where
  dcHuffTblId : ℕ
  acHuffTblId : ℕ
  quantTblId : ℕ
  deriving DecidableEq

structure HuffTbl where
  bits : Option (Vector UInt8 (MAX_BITS_SIZE + 1))
  huffval : Option (Vector UInt8 (AC_SYMBOL_NUM + 1))

/-- What the parser reads and writes of `JPEG_CODEC_T`, with `g_huff_tbl_malloced`. -/
structure Codec where
  restartInterval : ℕ
  restartToGo : ℕ
  nextRestartNum : ℕ
  tblMap : Vector TblMap 3
  numComponents : ℕ
  dcHuffTbl : Vector HuffTbl NUM_HUFF_TBLS
  acHuffTbl : Vector HuffTbl NUM_HUFF_TBLS
  quantTbl : Vector (Option (Vector UInt8 64)) 3
  usingDefaultHuffTab : Bool
  usingDefaultQuantTab : Bool
  compIdMap : Vector UInt8 3
  compInfo : Option (List Component)
  compsInScan : ℕ
  ss : ℕ
  se : ℕ
  ah : ℕ
  al : ℕ
  inputScanNumber : ℕ
  huffTblMalloced : Bool

inductive McuInfo
  | yuv444
  | yuv422
  | yuv411
  | yuv411R
  | yuv420
  | yuv422R
  | yuv400
  deriving DecidableEq, Repr

/-- What the parser writes of `JPEG_DEC_INPUT_PARA_T`. -/
structure DecInput where
  progressiveMode : Bool
  inputWidth : ℕ
  inputHeight : ℕ
  inputMcuInfo : McuInfo

structure State where
  stream : Stream
  pool : Pool
  codec : Codec
  input : DecInput

abbrev M := Prog State Stop

namespace State

def setStream (s : State) (stream : Stream) : State := { s with stream }

def setPool (s : State) (pool : Pool) : State := { s with pool }

def setCodec (s : State) (codec : Codec) : State := { s with codec }

def setInput (s : State) (input : DecInput) : State := { s with input }

end State

def lumDcBitsDefault : List UInt8 := [0, 0, 1, 5, 1, 1, 1, 1, 1, 1, 0, 0, 0, 0, 0, 0, 0]

def lumDcHuffvalueDefault : List UInt8 := [0, 1, 2, 3, 4, 5, 6, 7, 8, 9, 10, 11]

def lumAcBitsDefault : List UInt8 := [0, 0, 2, 1, 3, 3, 2, 4, 3, 5, 5, 4, 4, 0, 0, 1, 0x7d]

def lumAcHuffvalueDefault : List UInt8 :=
  [0x01, 0x02, 0x03, 0x00, 0x04, 0x11, 0x05, 0x12, 0x21, 0x31, 0x41, 0x06, 0x13, 0x51, 0x61, 0x07,
   0x22, 0x71, 0x14, 0x32, 0x81, 0x91, 0xa1, 0x08, 0x23, 0x42, 0xb1, 0xc1, 0x15, 0x52, 0xd1, 0xf0,
   0x24, 0x33, 0x62, 0x72, 0x82, 0x09, 0x0a, 0x16, 0x17, 0x18, 0x19, 0x1a, 0x25, 0x26, 0x27, 0x28,
   0x29, 0x2a, 0x34, 0x35, 0x36, 0x37, 0x38, 0x39, 0x3a, 0x43, 0x44, 0x45, 0x46, 0x47, 0x48, 0x49,
   0x4a, 0x53, 0x54, 0x55, 0x56, 0x57, 0x58, 0x59, 0x5a, 0x63, 0x64, 0x65, 0x66, 0x67, 0x68, 0x69,
   0x6a, 0x73, 0x74, 0x75, 0x76, 0x77, 0x78, 0x79, 0x7a, 0x83, 0x84, 0x85, 0x86, 0x87, 0x88, 0x89,
   0x8a, 0x92, 0x93, 0x94, 0x95, 0x96, 0x97, 0x98, 0x99, 0x9a, 0xa2, 0xa3, 0xa4, 0xa5, 0xa6, 0xa7,
   0xa8, 0xa9, 0xaa, 0xb2, 0xb3, 0xb4, 0xb5, 0xb6, 0xb7, 0xb8, 0xb9, 0xba, 0xc2, 0xc3, 0xc4, 0xc5,
   0xc6, 0xc7, 0xc8, 0xc9, 0xca, 0xd2, 0xd3, 0xd4, 0xd5, 0xd6, 0xd7, 0xd8, 0xd9, 0xda, 0xe1, 0xe2,
   0xe3, 0xe4, 0xe5, 0xe6, 0xe7, 0xe8, 0xe9, 0xea, 0xf1, 0xf2, 0xf3, 0xf4, 0xf5, 0xf6, 0xf7, 0xf8,
   0xf9, 0xfa] ++ List.replicate 94 0

def chrDcBitsDefault : List UInt8 := [0, 0, 3, 1, 1, 1, 1, 1, 1, 1, 1, 1, 0, 0, 0, 0, 0]

def chrDcHuffvalueDefault : List UInt8 := [0, 1, 2, 3, 4, 5, 6, 7, 8, 9, 10, 11]

def chrAcBitsDefault : List UInt8 := [0, 0, 2, 1, 2, 4, 4, 3, 4, 7, 5, 4, 4, 0, 1, 2, 0x77]

def chrAcHuffvalueDefault : List UInt8 :=
  [0x00, 0x01, 0x02, 0x03, 0x11, 0x04, 0x05, 0x21, 0x31, 0x06, 0x12, 0x41, 0x51, 0x07, 0x61, 0x71,
   0x13, 0x22, 0x32, 0x81, 0x08, 0x14, 0x42, 0x91, 0xa1, 0xb1, 0xc1, 0x09, 0x23, 0x33, 0x52, 0xf0,
   0x15, 0x62, 0x72, 0xd1, 0x0a, 0x16, 0x24, 0x34, 0xe1, 0x25, 0xf1, 0x17, 0x18, 0x19, 0x1a, 0x26,
   0x27, 0x28, 0x29, 0x2a, 0x35, 0x36, 0x37, 0x38, 0x39, 0x3a, 0x43, 0x44, 0x45, 0x46, 0x47, 0x48,
   0x49, 0x4a, 0x53, 0x54, 0x55, 0x56, 0x57, 0x58, 0x59, 0x5a, 0x63, 0x64, 0x65, 0x66, 0x67, 0x68,
   0x69, 0x6a, 0x73, 0x74, 0x75, 0x76, 0x77, 0x78, 0x79, 0x7a, 0x82, 0x83, 0x84, 0x85, 0x86, 0x87,
   0x88, 0x89, 0x8a, 0x92, 0x93, 0x94, 0x95, 0x96, 0x97, 0x98, 0x99, 0x9a, 0xa2, 0xa3, 0xa4, 0xa5,
   0xa6, 0xa7, 0xa8, 0xa9, 0xaa, 0xb2, 0xb3, 0xb4, 0xb5, 0xb6, 0xb7, 0xb8, 0xb9, 0xba, 0xc2, 0xc3,
   0xc4, 0xc5, 0xc6, 0xc7, 0xc8, 0xc9, 0xca, 0xd2, 0xd3, 0xd4, 0xd5, 0xd6, 0xd7, 0xd8, 0xd9, 0xda,
   0xe2, 0xe3, 0xe4, 0xe5, 0xe6, 0xe7, 0xe8, 0xe9, 0xea, 0xf2, 0xf3, 0xf4, 0xf5, 0xf6, 0xf7, 0xf8,
   0xf9, 0xfa] ++ List.replicate 94 0

def zigzagOrder : List ℕ :=
  [0, 1, 8, 16, 9, 2, 3, 10, 17, 24, 32, 25, 18, 11, 4, 5,
   12, 19, 26, 33, 40, 48, 41, 34, 27, 20, 13, 6, 7, 14, 21, 28,
   35, 42, 49, 56, 57, 50, 43, 36, 29, 22, 15, 23, 30, 37, 44, 51,
   58, 59, 52, 45, 38, 31, 39, 46, 53, 60, 61, 54, 47, 55, 62, 63] ++ List.replicate 16 63

/-! ## Accesses -/

def fetch {α : Type} (l : List α) (i : ℕ) : M α :=
  match l[i]? with
  | none => throw .fault
  | some x => pure x

def store {α : Type} {n : ℕ} (v : Vector α n) (i : ℕ) (x : α) : M (Vector α n) :=
  if h : i < n then pure (v.set i x h) else throw .fault

def deref {α : Type} (p : Option α) : M α :=
  match p with
  | none => throw .fault
  | some x => pure x

/-- `mem_size` in `JpegDec_ExtraMemAlloc`. -/
def aligned (memSize : ℕ) : ℕ := (memSize + 3) / 4 * 4

/-- What `JpegDec_ExtraMemAlloc` asks for is in the pool. -/
def Pool.Fits (p : Pool) (memSize : ℕ) : Prop :=
  aligned memSize ≠ 0 ∧ aligned memSize ≤ p.size - p.used

instance (p : Pool) (memSize : ℕ) : Decidable (p.Fits memSize) :=
  inferInstanceAs (Decidable (_ ∧ _))

/-- `JpegDec_ExtraMemAlloc`, for an array that is `cleared` to begin with: the pool is
filled with zeros, and nothing is given back while a header is parsed. -/
def extraMemAlloc {α : Type} (memSize : ℕ) (cleared : α) : M (Option α) := do
  let s ← get
  check .aborted (s.pool.Fits memSize ∨ s.pool.asserts = false)
  modify fun s => s.setPool { s.pool with used := s.pool.used + aligned memSize }
  pure (if s.pool.Fits memSize then some cleared else none)

/-! ## The byte source -/

namespace Stream

def refill (s : Stream) : Stream :=
  match s.chunk, s.read, s.later with
  | [], true, chunk :: later => { s with chunk, later }
  | _, _, _ => s

def next (s : Stream) : Stream := { s.refill with chunk := s.refill.chunk.tail }

end Stream

def getChar : M UInt8 := do
  let s ← get
  match s.stream.refill.chunk with
  | [] => throw .failed
  | c :: _ =>
      modify fun s => s.setStream s.stream.next
      pure c

def word (hi lo : UInt8) : ℕ := hi.toNat * 256 + lo.toNat

def getShortWord : M ℕ := do
  let value0 ← getChar
  let value1 ← getChar
  pure (word value0 value1)

/-- The two loops of `GetNextMarker`: bytes are skipped up to 0xFF, then further 0xFF. -/
def markerTurn (ff : Bool) : M (Bool ⊕ UInt8) := do
  let c ← getChar
  if c = 0xFF then pure (.inl true)
  else if ff = true ∧ c ≠ 0 then pure (.inr c)
  else pure (.inl false)

def joined : List (List UInt8) → List UInt8
  | [] => []
  | chunk :: later => if chunk = [] then [] else chunk ++ joined later

def Stream.bytes (s : Stream) : List UInt8 := s.chunk ++ if s.read then joined s.later else []

def State.bytes (s : State) : List UInt8 := s.stream.bytes

/-- The bytes of the source bound the turns of a loop that reads in each of them. -/
def getNextMarker : M UInt8 := do
  let s ← get
  loop markerTurn .failed (s.bytes.length + 1) false

/-! ## The segments -/

/-- The entry `comp_info[ci]`. -/
def fetchComp (ci : ℕ) : M Component := do
  let s ← get
  let compInfo ← deref s.codec.compInfo
  fetch compInfo ci

def updateComp (ci : ℕ) (f : Component → Component) : M Unit := do
  let s ← get
  let compInfo ← deref s.codec.compInfo
  let comp ← fetch compInfo ci
  modify fun s => s.setCodec { s.codec with compInfo := some (compInfo.set ci (f comp)) }

def updateTblMap (i : ℕ) (f : TblMap → TblMap) : M Unit := do
  let s ← get
  let entry ← fetch s.codec.tblMap.toList i
  let tblMap ← store s.codec.tblMap i (f entry)
  modify fun s => s.setCodec { s.codec with tblMap }

def sofComponent (ci : ℕ) : M Unit := do
  let yuvId ← getChar
  updateComp ci fun comp => { comp with componentIndex := ci, componentId := yuvId }
  check .failed (1 ≤ yuvId.toNat ∧ yuvId.toNat ≤ 3)
  let c ← getChar
  updateComp ci fun comp =>
    { comp with
      hSampFactor := c.toNat / 16
      vSampFactor := c.toNat % 16
      mcuWidth := if ci = 0 then c.toNat / 16 else 1
      mcuHeight := if ci = 0 then c.toNat % 16 else 1 }
  let c ← getChar
  check .failed (c.toNat ≤ 2)
  updateTblMap (yuvId.toNat - 1) fun entry => { entry with quantTblId := c.toNat }

def sampling (comp : Component) : ℕ := comp.hSampFactor * 16 + comp.vSampFactor

def mcuInfoOf : ℕ → Option McuInfo
  | 0x11 => some .yuv444
  | 0x21 => some .yuv422
  | 0x41 => some .yuv411
  | 0x14 => some .yuv411R
  | 0x22 => some .yuv420
  | 0x12 => some .yuv422R
  | _ => none

/-- The sample format at the end of `GetSOF`. -/
def sofFormat (componentNum : ℕ) : M Unit := do
  let comp ← fetchComp 0
  if componentNum = 1 then
    modify fun s => s.setInput { s.input with inputMcuInfo := .yuv400 }
  else
    match mcuInfoOf (sampling comp) with
    | none => throw .failed
    | some info =>
        modify fun s => s.setInput { s.input with inputMcuInfo := info }
        let u ← fetchComp 1
        check .failed (sampling u = 0x11)
        if 2 < componentNum then
          let v ← fetchComp 2
          check .failed (sampling v = 0x11)

/-- `GetSOF` behind the number of components. -/
def sofComponents (componentNum : ℕ) : M Unit := do
  let compInfo ← extraMemAlloc (componentNum * 16)
    (List.replicate componentNum (default : Component))
  modify fun s => s.setCodec { s.codec with numComponents := componentNum, compInfo }
  each sofComponent componentNum 0
  sofFormat componentNum

def getSOF (isProgressive : Bool) : M Unit := do
  modify fun s => s.setInput { s.input with progressiveMode := isProgressive }
  let length ← getShortWord
  check .failed (8 ≤ length)
  let precision ← getChar
  check .failed (precision = 8)
  let height ← getShortWord
  let width ← getShortWord
  modify fun s => s.setInput { s.input with inputHeight := height, inputWidth := width }
  let componentNum ← getChar
  check .failed (length = componentNum.toNat * 3 + 8)
  sofComponents componentNum.toNat

/-- The search for a component among `comp_info[ci ..]`. -/
def findComp (cc : UInt8) : ℕ → ℕ → M Bool
  | 0, _ => pure false
  | k + 1, ci => do
      let comp ← fetchComp ci
      if cc = comp.componentId then pure true else findComp cc k (ci + 1)

def sosComponent (i : ℕ) : M Unit := do
  let cc ← getChar
  let c ← getChar
  check .failed (cc.toNat = i + 1)
  updateTblMap i fun entry =>
    { entry with dcHuffTblId := c.toNat / 16, acHuffTblId := c.toNat % 16 }
  let s ← get
  let found ← findComp cc s.codec.numComponents 0
  if found then
    let compIdMap ← store s.codec.compIdMap i cc
    modify fun s => s.setCodec { s.codec with compIdMap }

/-- The additional scan parameters Ss, Se and Ah/Al at the end of `GetSOS`. -/
def sosParameters : M Unit := do
  let c ← getChar
  let cc ← getChar
  modify fun s => s.setCodec { s.codec with ss := c.toNat, se := cc.toNat }
  let c ← getChar
  modify fun s =>
    s.setCodec
      { s.codec with
        ah := c.toNat / 16
        al := c.toNat % 16
        nextRestartNum := 0
        inputScanNumber := (s.codec.inputScanNumber + 1) % 256 }

def getSOS : M Unit := do
  let length ← getShortWord
  check .failed (3 ≤ length)
  let n ← getChar
  check .failed (length - 3 = n.toNat * 2 + 3)
  modify fun s => s.setCodec { s.codec with compsInScan := n.toNat }
  each sosComponent n.toNat 0
  sosParameters

def skipBytes (n : ℕ) : M Unit := each (fun _ => do let _ ← getChar) n 0

def skipVariable : M Unit := do
  let length ← getShortWord
  check .failed (2 ≤ length)
  skipBytes (length - 2)

def getDRI : M Unit := do
  let length ← getShortWord
  check .failed (length = 4)
  let restartInterval ← getShortWord
  modify fun s =>
    s.setCodec
      { s.codec with restartInterval, restartToGo := restartInterval, nextRestartNum := 0 }

/-- `GetAPP0`: the rest of a segment is skipped only behind a whole JFIF header. -/
def getAPP0 : M Unit := do
  let length ← getShortWord
  check .failed (2 ≤ length)
  if 14 ≤ length - 2 then
    skipBytes 14
    skipBytes (length - 2 - 14)

/-! ### Huffman tables -/

def huffTbls (c : Codec) (ac : Bool) : Vector HuffTbl NUM_HUFF_TBLS :=
  if ac then c.acHuffTbl else c.dcHuffTbl

def updateHuffTbl (ac : Bool) (index : ℕ) (f : HuffTbl → M HuffTbl) : M Unit := do
  let s ← get
  let tbl ← fetch (huffTbls s.codec ac).toList index
  let tbl ← f tbl
  let tbls ← store (huffTbls s.codec ac) index tbl
  modify fun s =>
    s.setCodec
      (if ac then { s.codec with acHuffTbl := tbls } else { s.codec with dcHuffTbl := tbls })

def setBits (ac : Bool) (index i : ℕ) (c : UInt8) : M Unit :=
  updateHuffTbl ac index fun tbl => do
    let bits ← deref tbl.bits
    let bits ← store bits i c
    pure { tbl with bits := some bits }

def setHuffval (ac : Bool) (index i : ℕ) (c : UInt8) : M Unit :=
  updateHuffTbl ac index fun tbl => do
    let huffval ← deref tbl.huffval
    let huffval ← store huffval i c
    pure { tbl with huffval := some huffval }

/-- The arrays of the tables with number `i`. -/
def allocHuffTbl (i : ℕ) : M Unit := do
  let dcBits ← extraMemAlloc (MAX_BITS_SIZE + 1) (Vector.replicate (MAX_BITS_SIZE + 1) 0)
  let dcHuffval ← extraMemAlloc (AC_SYMBOL_NUM + 1) (Vector.replicate (AC_SYMBOL_NUM + 1) 0)
  let acBits ← extraMemAlloc (MAX_BITS_SIZE + 1) (Vector.replicate (MAX_BITS_SIZE + 1) 0)
  let acHuffval ← extraMemAlloc (AC_SYMBOL_NUM + 1) (Vector.replicate (AC_SYMBOL_NUM + 1) 0)
  updateHuffTbl false i fun _ => pure ⟨dcBits, dcHuffval⟩
  updateHuffTbl true i fun _ => pure ⟨acBits, acHuffval⟩

def allocHuffTbls : M Unit := do
  let s ← get
  if s.codec.huffTblMalloced = false then
    each allocHuffTbl NUM_HUFF_TBLS 0
    modify fun s => s.setCodec { s.codec with huffTblMalloced := true }

def defaultBits (ac : Bool) (index : ℕ) : List UInt8 :=
  if ac then if index = 0 then lumAcBitsDefault else chrAcBitsDefault
  else if index = 0 then lumDcBitsDefault else chrDcBitsDefault

def defaultHuffval (ac : Bool) (index : ℕ) : List UInt8 :=
  if ac then if index = 0 then lumAcHuffvalueDefault else chrAcHuffvalueDefault
  else if index = 0 then lumDcHuffvalueDefault else chrDcHuffvalueDefault

/-- A byte of a table that differs from the default one. -/
def compareDefault (table : List UInt8) (i : ℕ) (c : UInt8) : M Unit := do
  let d ← fetch table i
  if c ≠ d then
    modify fun s => s.setCodec { s.codec with usingDefaultHuffTab := false }

/-- `bits[i ..]` of a table, and the number of its symbols. -/
def readBits (ac : Bool) (index : ℕ) : ℕ → ℕ → ℕ → M ℕ
  | 0, _, count => pure count
  | k + 1, i, count => do
      let c ← getChar
      setBits ac index i c
      compareDefault (defaultBits ac index) i c
      readBits ac index k (i + 1) (count + c.toNat)

def readHuffval (ac : Bool) (index i : ℕ) : M Unit := do
  let c ← getChar
  setHuffval ac index i c
  compareDefault (defaultHuffval ac index) i c

/-- The counts and the symbols of a table, with the number of the symbols. -/
def readTable (ac : Bool) (index : ℕ) : M ℕ := do
  let count ← readBits ac index 16 1 0
  check .failed (count ≤ 256)
  each (readHuffval ac index) count 0
  pure count

/-- A table of `GetHuffTbl`, with the number of its symbols. The source clears the bits of
the first byte that are neither the number of the table nor its class. -/
def huffTable : M ℕ := do
  let c ← getChar
  let ac := decide (c.toNat / 16 % 2 = 1)
  let index := c.toNat % 4
  setBits ac index 0 0
  readTable ac index

def huffTurn (length : ℕ) : M (ℕ ⊕ Unit) := do
  if length = 0 then pure (.inr ())
  else
    let count ← huffTable
    check .failed (1 + 16 + count ≤ length)
    pure (.inl (length - (1 + 16 + count)))

def getHuffTbl : M Unit := do
  allocHuffTbls
  let length ← getShortWord
  check .failed (2 ≤ length)
  loop huffTurn .failed (length + 1) (length - 2)

/-! ### Quantization tables -/

def quantEntry (prec : ℕ) : M UInt8 := do
  if prec = 0 then getChar
  else
    let _ ← getChar
    getChar

def setQuant (n prec j : ℕ) : M Unit := do
  let c ← quantEntry prec
  let s ← get
  let ptr ← fetch s.codec.quantTbl.toList n
  let quant ← deref ptr
  let k ← fetch zigzagOrder j
  let quant ← store quant k c
  let quantTbl ← store s.codec.quantTbl n (some quant)
  modify fun s => s.setCodec { s.codec with quantTbl }

/-- A table of `GetQuantTbl`, with its number and the precision. -/
def quantTable : M (ℕ × ℕ) := do
  let c ← getChar
  let prec := c.toNat / 16
  let n := c.toNat % 16
  check .failed (n ≤ 2)
  let ptr ← extraMemAlloc 64 (Vector.replicate 64 (0 : UInt8))
  let s ← get
  let quantTbl ← store s.codec.quantTbl n ptr
  modify fun s => s.setCodec { s.codec with quantTbl }
  each (setQuant n prec) 64 0
  pure (n, prec)

/-- The length that is left and whether a second chroma table has been read. -/
def quantTurn (t : ℕ × Bool) : M ((ℕ × Bool) ⊕ Bool) := do
  if t.1 = 0 then pure (.inr t.2)
  else
    let (n, prec) ← quantTable
    check .failed (64 + 1 + 64 * prec ≤ t.1)
    pure (.inl (t.1 - (64 + 1 + 64 * prec), t.2 || decide (1 < n)))

def compareQuant (j : ℕ) : M Unit := do
  let s ← get
  let uPtr ← fetch s.codec.quantTbl.toList 1
  let vPtr ← fetch s.codec.quantTbl.toList 2
  let uTbl ← deref uPtr
  let vTbl ← deref vPtr
  let u ← fetch uTbl.toList j
  let v ← fetch vTbl.toList j
  check .failed (u = v)

def getQuantTbl : M Unit := do
  modify fun s => s.setCodec { s.codec with usingDefaultQuantTab := false }
  let length ← getShortWord
  check .failed (2 ≤ length)
  let hasTwoChromaQuantTbl ← loop quantTurn .failed (length + 1) (length - 2, false)
  if hasTwoChromaQuantTbl = true then each compareQuant 64 0

/-! ## The header -/

def M_SOI : UInt8 := 0xd8

def M_EOI : UInt8 := 0xd9

def M_SOS : UInt8 := 0xda

/-- The cases of the switch in `ProcessTables`. -/
inductive Segment
  | sof (isProgressive : Bool)
  | leave
  | dht
  | dqt
  | app0
  | dri
  | unexpected
  | skipped
  deriving DecidableEq, Repr

def segmentOf (c : UInt8) : Segment :=
  if c = 0xc0 ∨ c = 0xc1 then .sof false
  else if c = 0xc2 then .sof true
  else if c = M_SOI ∨ c = M_EOI ∨ c = M_SOS then .leave
  else if c = 0xc4 then .dht
  else if c = 0xdb then .dqt
  else if c = 0xe0 then .app0
  else if c = 0xdd then .dri
  -- SOF3 and SOF5 to SOF15, JPG and DAC; RST0 to RST7; TEM
  else if (0xc3 ≤ c ∧ c ≤ 0xcf) ∨ (0xd0 ≤ c ∧ c ≤ 0xd7) ∨ c = 0x01 then .unexpected
  else .skipped

/-- A marker of `ProcessTables` with its segment. -/
def tablesTurn (_ : Unit) : M (Unit ⊕ UInt8) := do
  let c ← getNextMarker
  match segmentOf c with
  | .sof isProgressive =>
      getSOF isProgressive
      pure (.inl ())
  | .leave => pure (.inr c)
  | .dht =>
      getHuffTbl
      pure (.inl ())
  | .dqt =>
      getQuantTbl
      pure (.inl ())
  | .app0 =>
      getAPP0
      pure (.inl ())
  | .dri =>
      getDRI
      pure (.inl ())
  | .unexpected => throw .failed
  | .skipped =>
      skipVariable
      pure (.inl ())

def processTables : M UInt8 := do
  let s ← get
  loop tablesTurn .failed (s.bytes.length + 1) ()

/-- A marker on the way to the first SOI. -/
def soiTurn (_ : Unit) : M (Unit ⊕ Unit) := do
  let c ← getNextMarker
  check .failed (c ≠ M_EOI)
  if c = M_SOI then pure (.inr ()) else pure (.inl ())

def findSOI : M Unit := do
  let s ← get
  loop soiTurn .failed (s.bytes.length + 1) ()

def parseHead : M Unit := do
  findSOI
  let c ← processTables
  if c = M_SOS then getSOS else throw .failed

/-- What `JPEG_FWParseHead` and `JpegDec_InitBitream` leave to `ParseHead`. -/
def start (stream : Stream) (poolSize : ℕ) (asserts : Bool) : State where
  stream := stream
  pool := ⟨poolSize, if stream.read then 3 * 1024 else 0, asserts⟩
  codec :=
    { restartInterval := 0x3ffff
      restartToGo := 0x3ffff
      nextRestartNum := 0
      tblMap := Vector.replicate 3 ⟨0, 0, 0⟩
      numComponents := 0
      dcHuffTbl := Vector.replicate NUM_HUFF_TBLS ⟨none, none⟩
      acHuffTbl := Vector.replicate NUM_HUFF_TBLS ⟨none, none⟩
      quantTbl := Vector.replicate 3 none
      usingDefaultHuffTab := true
      usingDefaultQuantTab := true
      compIdMap := Vector.replicate 3 0
      compInfo := none
      compsInScan := 0
      ss := 0
      se := 0
      ah := 0
      al := 0
      inputScanNumber := 0
      huffTblMalloced := false }
  input := ⟨false, 0, 0, .yuv444⟩

end JpegParse

end Tarako
