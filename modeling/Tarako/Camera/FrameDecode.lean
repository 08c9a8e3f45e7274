import Mathlib.Data.UInt
import Mathlib.Tactic.Common

/-!
# Decoding a JPEG in frame mode

A DEC_START message at the worker of `jpeg_codec.c`: `_dec_start`, which in frame mode goes on
until the decoder is over, `_dec_next`, and `_dec_callback`, which copies every second chroma
line of a slice from the temporary buffer behind those of the slices before. Addresses and
line numbers are `uint32_t`. Of the decoder the lines count that it has decoded; what is handed
through to it without being looked at and the V planes are left out.
-/

namespace Tarako

namespace FrameDecode

def JPEG_SLICE_HEIGHT : UInt32 := 128

def SLICE_HEIGHT : ℕ := 1024

/-! ## The decoder -/

/-- What of an image has been decoded: `lines` lines, the last slice from line `first` on. The
addresses are where the slice has gone. -/
structure Decoder where
  height : ℕ
  sliceHeight : ℕ
  first : ℕ
  lines : ℕ
  yuvPhyBuf : UInt32
  yuvUPhyBuf : UInt32
  sliceHeight_pos : 0 < sliceHeight
  lines_le : lines ≤ height

structure JpegdecParams where
  width : UInt32
  height : UInt32
  setSliceHeight : UInt32
  targetPhyBufY : UInt32
  targetPhyBufUV : UInt32

structure JpegdecSliceNext where
  sliceHeight : UInt32
  yuvPhyBuf : UInt32
  yuvUPhyBuf : UInt32

namespace Decoder

def isOver (d : Decoder) : Bool := d.lines = d.height

/-- `JPEGDEC_Slice_Start`, with the first slice. -/
def sliceStart (p : JpegdecParams) : Decoder where
  height := p.height.toNat
  sliceHeight := if p.setSliceHeight = 0 then SLICE_HEIGHT else p.setSliceHeight.toNat
  first := 0
  lines := min (if p.setSliceHeight = 0 then SLICE_HEIGHT else p.setSliceHeight.toNat)
    p.height.toNat
  yuvPhyBuf := p.targetPhyBufY
  yuvUPhyBuf := p.targetPhyBufUV
  sliceHeight_pos := by
    split_ifs with h
    · decide
    · exact Nat.pos_of_ne_zero fun hzero => h (UInt32.toNat_inj.mp hzero)
  lines_le := Nat.min_le_right _ _

/-- `JPEGDEC_Slice_Next`: the next slice, none after the last one. The height of slices is the
one of the start. -/
def sliceNext (d : Decoder) (p : JpegdecSliceNext) : Option Decoder :=
  if d.isOver then none
  else
    some
      { d with
        first := d.lines
        lines := min (d.lines + d.sliceHeight) d.height
        yuvPhyBuf := p.yuvPhyBuf
        yuvUPhyBuf := p.yuvUPhyBuf
        lines_le := Nat.min_le_right _ _ }

end Decoder

/-! ## The codec -/

/-- The Y and U planes of `struct img_addr`. -/
structure ImgAddr where
  addrY : UInt32
  addrU : UInt32
  deriving DecidableEq

structure JpegDec where
  width : UInt32
  height : UInt32
  sliceHeight : UInt32
  setSliceHeight : UInt32
  dstAddrPhy : ImgAddr
  dstAddrVir : ImgAddr
  tempBufPhy : UInt32
  tempBufVir : UInt32
  curLineNum : UInt32
  handleLineNum : UInt32
  isFinish : Bool

structure JpegDecNextParam where
  dstAddrPhy : ImgAddr
  dstAddrVir : ImgAddr
  sliceHeight : UInt32

/-- `JPEG_DEC_CB_PARAM_T`, with the U plane of its image. -/
structure JpegDecCbParam where
  sliceHeight : UInt32
  totalHeight : UInt32
  addrVirU : UInt32
  addrPhyU : UInt32
  deriving DecidableEq

inductive Event where
  | decDone (param : JpegDecCbParam)
  | decErr
  deriving DecidableEq

/-- A `memcpy` of `size` bytes, from the temporary buffer while the slice from line `first` on
lies in it. -/
structure Copy where
  first : ℕ
  src : UInt32
  dst : UInt32
  size : UInt32
  deriving DecidableEq

/-- The context, the decoder, what has been copied and raised, and whether `event_cb` is
set. -/
structure State where
  dec : JpegDec
  decoder : Decoder
  copies : List Copy
  events : List Event
  eventCb : Bool

/-- `event_cb`, if there is one. -/
def State.raise (s : State) (e : Event) : State :=
  if s.eventCb then { s with events := s.events ++ [e] } else s

/-- The loop of `_dec_callback` over line pairs. -/
def copyLines (first : ℕ) (width : UInt32) : ℕ → UInt32 → UInt32 → List Copy
  | 0, _, _ => []
  | n + 1, src, dst =>
      ⟨first, src, dst, width⟩ :: copyLines first width n (src + (width <<< 1)) (dst + width)

/-- The lines that `_dec_callback` takes from the slice, and whether they are the last. -/
def cpyHeight (d : JpegDec) : UInt32 × Bool :=
  if d.curLineNum + d.setSliceHeight > d.height then (d.height - d.curLineNum, true)
  else (d.setSliceHeight, d.isFinish)

def decCallback (s : State) : State :=
  let (height, isFinish) := cpyHeight s.dec
  let dec : JpegDec :=
    { s.dec with
      isFinish
      curLineNum := s.dec.curLineNum + height
      handleLineNum := height }
  let s : State :=
    { s with
      dec
      copies := s.copies ++
        copyLines s.decoder.first dec.width (height >>> 1).toNat dec.tempBufVir
          dec.dstAddrVir.addrU }
  if dec.sliceHeight ≠ dec.height ∨ dec.curLineNum = dec.height then
    s.raise (.decDone ⟨height, dec.curLineNum, dec.dstAddrVir.addrU, dec.dstAddrPhy.addrU⟩)
  else s

/-- The addresses for the next slice: behind the last one, or those of the parameter. -/
def nextSlice (d : JpegDec) (p : JpegDecNextParam) : JpegDec × JpegdecSliceNext :=
  if p.dstAddrPhy.addrY = 0 then
    let done := (d.handleLineNum * d.width) >>> 1
    ({ d with
        dstAddrPhy := { d.dstAddrPhy with addrU := d.dstAddrPhy.addrU + done }
        dstAddrVir := { d.dstAddrVir with addrU := d.dstAddrVir.addrU + done } },
      ⟨d.sliceHeight, d.dstAddrPhy.addrY + d.curLineNum * d.width, d.tempBufPhy⟩)
  else
    ({ d with
        dstAddrPhy := { d.dstAddrPhy with addrU := p.dstAddrPhy.addrU }
        dstAddrVir := { d.dstAddrVir with addrU := p.dstAddrVir.addrU } },
      ⟨p.sliceHeight, p.dstAddrPhy.addrY, d.tempBufPhy⟩)

/-- `_dec_next`; a decoder that fails is over. -/
def decNext (s : State) (p : JpegDecNextParam) : Bool × State :=
  let (dec, next) := nextSlice s.dec p
  match s.decoder.sliceNext next with
  | none => (false, { s with dec := { dec with isFinish := true } })
  | some decoder =>
      (true, { s with dec := { dec with isFinish := dec.isFinish || decoder.isOver }, decoder })

/-- The parameter of `_dec_next` in `_dec_start`; the addresses other than the first are not
set. -/
def loopParam : JpegDecNextParam where
  dstAddrPhy := ⟨0, 0⟩
  dstAddrVir := ⟨0, 0⟩
  sliceHeight := JPEG_SLICE_HEIGHT

theorem decoder_decCallback (s : State) : (decCallback s).decoder = s.decoder := by
  unfold decCallback State.raise
  dsimp only
  split_ifs <;> rfl

theorem rest_lt_of_decNext {s s' : State} {p : JpegDecNextParam}
    (h : decNext s p = (true, s')) :
    s'.decoder.height - s'.decoder.lines < s.decoder.height - s.decoder.lines := by
  have hle := s.decoder.lines_le
  have hpos := s.decoder.sliceHeight_pos
  unfold decNext Decoder.sliceNext Decoder.isOver at h
  dsimp only at h
  by_cases hover : s.decoder.lines = s.decoder.height
  · simp [hover] at h
  · simp only [hover, decide_false, Bool.false_eq_true, if_false] at h
    obtain ⟨-, rfl⟩ := Prod.mk.inj h
    dsimp only
    omega

/-- The loop of `_dec_start`, with whether it has ended well. -/
def decLoop (s : State) : Bool × State :=
  if s.dec.isFinish then (true, s)
  else
    match _h : decNext (decCallback s) loopParam with
    | (false, s') => (false, s')
    | (true, s') => decLoop s'
termination_by s.decoder.height - s.decoder.lines
decreasing_by
  have hrest := rest_lt_of_decNext _h
  rwa [decoder_decCallback] at hrest

/-- `_dec_start` up to `JPEGDEC_Slice_Start`. -/
def decSetup (s : State) : State :=
  let setSliceHeight :=
    if s.dec.sliceHeight = s.dec.height then JPEG_SLICE_HEIGHT else s.dec.sliceHeight
  { s with
    dec := { s.dec with curLineNum := 0, isFinish := false, setSliceHeight }
    decoder := Decoder.sliceStart
      ⟨s.dec.width, s.dec.height, setSliceHeight, s.dec.dstAddrPhy.addrY, s.dec.tempBufPhy⟩ }

/-- `_dec_start`, with whether it returns `JPEG_CODEC_SUCCESS`. -/
def decStart (s : State) : Bool × State :=
  if s.dec.sliceHeight = s.dec.height then decLoop (decSetup s) else (true, decSetup s)

/-- The case JPEG_EVT_DEC_START of `_thread_proc`, with what `_dec_start` returns. -/
def processDecStart (s : State) : Bool × State :=
  match decStart s with
  | (true, s') => (true, decCallback s')
  | (false, s') => (false, s'.raise .decErr)

/-! ## Completing once -/

/-- The copy of the `k`-th line pair of an image: out of the slice that it is in, to the
`k`-th destination line. -/
def pairCopy (d : JpegDec) (k : ℕ) : Copy where
  first := k / 64 * 128
  src := d.tempBufVir + UInt32.ofNat (k % 64) * (d.width <<< 1)
  dst := d.dstAddrVir.addrU + UInt32.ofNat k * d.width
  size := d.width

/-- The message succeeds, every line pair is copied once, in order, and all that is raised is
one DONE, with the whole height. -/
def CompletesOnce (s : State) : Prop :=
  (processDecStart s).1 = true ∧
    (processDecStart s).2.copies =
      s.copies ++ (List.range (s.dec.height.toNat / 2)).map (pairCopy s.dec) ∧
    ∃ param : JpegDecCbParam, param.totalHeight = s.dec.height ∧
      (processDecStart s).2.events = s.events ++ [.decDone param]

/-! ### The callback -/

theorem dec_decCallback (s : State) :
    (decCallback s).dec =
      { s.dec with
        isFinish := (cpyHeight s.dec).2
        curLineNum := s.dec.curLineNum + (cpyHeight s.dec).1
        handleLineNum := (cpyHeight s.dec).1 } := by
  unfold decCallback State.raise
  dsimp only
  split_ifs <;> rfl

theorem copies_decCallback (s : State) :
    (decCallback s).copies = s.copies ++
      copyLines s.decoder.first s.dec.width ((cpyHeight s.dec).1 >>> 1).toNat s.dec.tempBufVir
        s.dec.dstAddrVir.addrU := by
  unfold decCallback State.raise
  dsimp only
  split_ifs <;> rfl

theorem eventCb_decCallback (s : State) : (decCallback s).eventCb = s.eventCb := by
  unfold decCallback State.raise
  dsimp only
  split_ifs <;> rfl

theorem events_decCallback_of_ne {s : State} (hframe : s.dec.sliceHeight = s.dec.height)
    (hne : s.dec.curLineNum + (cpyHeight s.dec).1 ≠ s.dec.height) :
    (decCallback s).events = s.events := by
  unfold decCallback
  dsimp only
  rw [if_neg (not_or.mpr ⟨not_not.mpr hframe, hne⟩)]

theorem events_decCallback_of_eq {s : State}
    (heq : s.dec.curLineNum + (cpyHeight s.dec).1 = s.dec.height) :
    ∃ param : JpegDecCbParam, param.totalHeight = s.dec.height ∧
      (decCallback s).events =
        if s.eventCb then s.events ++ [.decDone param] else s.events := by
  refine ⟨⟨(cpyHeight s.dec).1, s.dec.curLineNum + (cpyHeight s.dec).1, s.dec.dstAddrVir.addrU,
    s.dec.dstAddrPhy.addrU⟩, heq, ?_⟩
  unfold decCallback State.raise
  dsimp only
  rw [if_pos (Or.inr heq)]
  split_ifs <;> rfl

theorem copyLines_eq (first : ℕ) (width : UInt32) (n : ℕ) (src dst : UInt32) :
    copyLines first width n src dst = (List.range n).map fun j =>
      ⟨first, src + UInt32.ofNat j * (width <<< 1), dst + UInt32.ofNat j * width, width⟩ := by
  induction n generalizing src dst with
  | zero => rfl
  | succ n ih =>
      rw [copyLines, ih, List.range_succ_eq_map, List.map_cons, List.map_map]
      congr 1
      · simp
      · refine List.map_congr_left fun j _ => ?_
        simp only [Function.comp_apply, Nat.succ_eq_add_one, UInt32.ofNat_add]
        congr 1 <;> grind

/-! ### Slices -/

/-- How far a slice of `JPEG_SLICE_HEIGHT` lines moves the destination. -/
def advance (width : UInt32) : UInt32 := (JPEG_SLICE_HEIGHT * width) >>> 1

/-- The copy of the `k`-th line pair as the code makes it. -/
def sliceCopy (d : JpegDec) (k : ℕ) : Copy where
  first := k / 64 * 128
  src := d.tempBufVir + UInt32.ofNat (k % 64) * (d.width <<< 1)
  dst := d.dstAddrVir.addrU + UInt32.ofNat (k / 64) * advance d.width +
    UInt32.ofNat (k % 64) * d.width
  size := d.width

theorem map_sliceCopy_append (d : JpegDec) (i : ℕ) {n : ℕ} (hn : n ≤ 64) :
    (List.range (64 * i)).map (sliceCopy d) ++
        copyLines (128 * i) d.width n d.tempBufVir
          (d.dstAddrVir.addrU + UInt32.ofNat i * advance d.width) =
      (List.range (64 * i + n)).map (sliceCopy d) := by
  rw [copyLines_eq, List.range_add, List.map_append, List.map_map]
  congr 1
  refine List.map_congr_left fun j hj => ?_
  have hjn := List.mem_range.mp hj
  have hdiv : (64 * i + j) / 64 = i := by omega
  have hmod : (64 * i + j) % 64 = j := by omega
  rw [Function.comp_apply, sliceCopy, hdiv, hmod, Nat.mul_comm i]

/-- The slice before `_dec_callback`: `i` slices have been copied, and the decoder has been
asked for the next one. -/
structure AtSlice (s₀ : State) (i : ℕ) (s : State) : Prop where
  width : s.dec.width = s₀.dec.width
  height : s.dec.height = s₀.dec.height
  frame : s.dec.sliceHeight = s.dec.height
  setSliceHeight : s.dec.setSliceHeight = JPEG_SLICE_HEIGHT
  tempBufVir : s.dec.tempBufVir = s₀.dec.tempBufVir
  addrU : s.dec.dstAddrVir.addrU =
    s₀.dec.dstAddrVir.addrU + UInt32.ofNat i * advance s₀.dec.width
  curLineNum : s.dec.curLineNum.toNat = 128 * i
  isFinish : s.dec.isFinish = s.decoder.isOver
  decoderHeight : s.decoder.height = s₀.dec.height.toNat
  decoderSlice : s.decoder.sliceHeight = 128
  first : s.decoder.first = 128 * i
  lines : s.decoder.lines = min (128 * (i + 1)) s₀.dec.height.toNat
  inside : 128 * i < s₀.dec.height.toNat
  copies : s.copies = s₀.copies ++ (List.range (64 * i)).map (sliceCopy s₀.dec)
  events : s.events = s₀.events
  eventCb : s.eventCb = s₀.eventCb

namespace AtSlice

variable {s₀ s : State} {i : ℕ}

theorem isOver_iff (h : AtSlice s₀ i s) :
    s.decoder.isOver = true ↔ s₀.dec.height.toNat ≤ 128 * (i + 1) := by
  rw [Decoder.isOver, decide_eq_true_iff, h.lines, h.decoderHeight]
  exact min_eq_right_iff

theorem toNat_curLineNum_add (h : AtSlice s₀ i s) :
    (s.dec.curLineNum + s.dec.setSliceHeight).toNat = 128 * (i + 1) % 2 ^ 32 := by
  rw [UInt32.toNat_add, h.curLineNum, h.setSliceHeight, Nat.mul_succ]
  rfl

theorem toNat_cpyHeight (h : AtSlice s₀ i s) (hlt : 128 * (i + 1) < 2 ^ 32) :
    (cpyHeight s.dec).1.toNat = min (128 * (i + 1)) s₀.dec.height.toNat - 128 * i := by
  have hcur := h.curLineNum
  have hinside := h.inside
  have hend : (s.dec.curLineNum + s.dec.setSliceHeight).toNat = 128 * (i + 1) := by
    rw [h.toNat_curLineNum_add, Nat.mod_eq_of_lt hlt]
  rw [cpyHeight]
  by_cases hgt : s.dec.curLineNum + s.dec.setSliceHeight > s.dec.height
  · have hgtNat := UInt32.lt_iff_toNat_lt.mp hgt
    rw [hend, h.height] at hgtNat
    have hle : s.dec.curLineNum ≤ s.dec.height := by
      rw [UInt32.le_iff_toNat_le, hcur, h.height]
      omega
    rw [if_pos hgt, UInt32.toNat_sub_of_le _ _ hle, hcur, h.height]
    omega
  · have hleNat := UInt32.le_iff_toNat_le.mp (UInt32.not_lt.mp hgt)
    rw [hend, h.height] at hleNat
    have hslice : JPEG_SLICE_HEIGHT.toNat = 128 := rfl
    rw [if_neg hgt, h.setSliceHeight, hslice]
    omega

theorem isFinish_cpyHeight (h : AtSlice s₀ i s)
    (hrest : 128 * (i + 1) < s₀.dec.height.toNat) : (cpyHeight s.dec).2 = s.dec.isFinish := by
  have hlt := s₀.dec.height.toNat_lt
  have hend := h.toNat_curLineNum_add
  rw [cpyHeight, if_neg]
  rw [UInt32.not_lt, UInt32.le_iff_toNat_le, hend, h.height]
  omega

theorem cur_add_cpyHeight_of_wrap (h : AtSlice s₀ i s) (hwrap : 128 * (i + 1) = 2 ^ 32) :
    s.dec.curLineNum + (cpyHeight s.dec).1 = 0 := by
  have hend : s.dec.curLineNum + s.dec.setSliceHeight = 0 := by
    rw [← UInt32.toNat_inj, h.toNat_curLineNum_add, hwrap]
    rfl
  have hngt : ¬ (0 : UInt32) > s.dec.height := UInt32.not_lt.mpr (UInt32.zero_le)
  rw [cpyHeight, hend, if_neg hngt]
  exact hend

theorem toNat_cur_add_cpyHeight (h : AtSlice s₀ i s) (hlt : 128 * (i + 1) < 2 ^ 32) :
    (s.dec.curLineNum + (cpyHeight s.dec).1).toNat =
      min (128 * (i + 1)) s₀.dec.height.toNat := by
  have hinside := h.inside
  rw [UInt32.toNat_add, h.curLineNum, h.toNat_cpyHeight hlt]
  omega

theorem copies_callback (h : AtSlice s₀ i s) (hlt : 128 * (i + 1) < 2 ^ 32) :
    (decCallback s).copies = s₀.copies ++
      (List.range (64 * i + (min (128 * (i + 1)) s₀.dec.height.toNat - 128 * i) / 2)).map
        (sliceCopy s₀.dec) := by
  have hpairs : ((cpyHeight s.dec).1 >>> 1).toNat =
      (min (128 * (i + 1)) s₀.dec.height.toNat - 128 * i) / 2 := by
    rw [UInt32.toNat_shiftRight, h.toNat_cpyHeight hlt]
    exact Nat.shiftRight_eq_div_pow _ _
  rw [copies_decCallback, h.copies, h.first, h.width, h.tempBufVir, h.addrU, hpairs,
    List.append_assoc, map_sliceCopy_append s₀.dec i (by omega)]

end AtSlice

theorem sliceNext_of_not_over {d : Decoder} (p : JpegdecSliceNext) (h : d.isOver = false) :
    ∃ d', d.sliceNext p = some d' ∧ d'.height = d.height ∧ d'.sliceHeight = d.sliceHeight ∧
      d'.first = d.lines ∧ d'.lines = min (d.lines + d.sliceHeight) d.height := by
  rw [Decoder.sliceNext, h]
  exact ⟨_, rfl, rfl, rfl, rfl, rfl⟩

theorem decNext_of_some {s : State} {p : JpegDecNextParam} {d : Decoder}
    (h : s.decoder.sliceNext (nextSlice s.dec p).2 = some d) :
    decNext s p =
      (true, { s with
        dec := { (nextSlice s.dec p).1 with
          isFinish := (nextSlice s.dec p).1.isFinish || d.isOver }
        decoder := d }) := by
  rw [decNext]
  dsimp only
  rw [h]

theorem decNext_of_over {s : State} (p : JpegDecNextParam) (h : s.decoder.isOver = true) :
    (decNext s p).1 = false := by
  unfold decNext Decoder.sliceNext
  rw [h]
  rfl

theorem nextSlice_loopParam (d : JpegDec) :
    (nextSlice d loopParam).1 =
      { d with
        dstAddrPhy :=
          { d.dstAddrPhy with
            addrU := d.dstAddrPhy.addrU + ((d.handleLineNum * d.width) >>> 1) }
        dstAddrVir :=
          { d.dstAddrVir with
            addrU := d.dstAddrVir.addrU + ((d.handleLineNum * d.width) >>> 1) } } := by
  rw [nextSlice, if_pos (by rfl)]

namespace AtSlice

variable {s₀ s : State} {i : ℕ}

theorem cpyHeight_of_rest (h : AtSlice s₀ i s) (hrest : 128 * (i + 1) < s₀.dec.height.toNat) :
    (cpyHeight s.dec).1 = JPEG_SLICE_HEIGHT := by
  have hlt := s₀.dec.height.toNat_lt
  rw [← UInt32.toNat_inj, h.toNat_cpyHeight (by omega), Nat.min_eq_left hrest.le]
  change _ = 128
  omega

theorem next (h : AtSlice s₀ i s) (hrest : 128 * (i + 1) < s₀.dec.height.toNat) :
    ∃ s', decNext (decCallback s) loopParam = (true, s') ∧ AtSlice s₀ (i + 1) s' := by
  have hlt := s₀.dec.height.toNat_lt
  have hcpy := h.cpyHeight_of_rest hrest
  have hcur := h.toNat_cur_add_cpyHeight (by omega)
  have hover : (decCallback s).decoder.isOver = false := by
    rw [decoder_decCallback, ← Bool.not_eq_true, h.isOver_iff]
    omega
  have hfinish : (cpyHeight s.dec).2 = false := by
    rw [h.isFinish_cpyHeight hrest, h.isFinish, ← decoder_decCallback, hover]
  have hne : s.dec.curLineNum + (cpyHeight s.dec).1 ≠ s.dec.height := by
    rw [← UInt32.toNat_inj.ne, hcur, h.height]
    omega
  obtain ⟨d, hd, hheight, hslice, hfirst, hlines⟩ :=
    sliceNext_of_not_over (nextSlice (decCallback s).dec loopParam).2 hover
  rw [decoder_decCallback] at hheight hslice hfirst hlines
  refine ⟨_, decNext_of_some hd, ?_⟩
  rw [nextSlice_loopParam, dec_decCallback]
  constructor
  case width => exact h.width
  case height => exact h.height
  case frame => exact h.frame
  case setSliceHeight => exact h.setSliceHeight
  case tempBufVir => exact h.tempBufVir
  case addrU =>
    dsimp only
    rw [hcpy, h.addrU, h.width, UInt32.ofNat_add, advance]
    grind
  case curLineNum =>
    dsimp only
    rw [hcur]
    omega
  case isFinish =>
    dsimp only
    rw [hfinish, Bool.false_or]
  case decoderHeight => exact hheight.trans h.decoderHeight
  case decoderSlice => exact hslice.trans h.decoderSlice
  case first =>
    change d.first = _
    rw [hfirst, h.lines]
    omega
  case lines =>
    change d.lines = _
    rw [hlines, h.lines, h.decoderSlice, h.decoderHeight]
    omega
  case inside => omega
  case copies =>
    change (decCallback s).copies = _
    rw [h.copies_callback (by omega)]
    congr 3
    omega
  case events =>
    change (decCallback s).events = _
    rw [events_decCallback_of_ne h.frame hne, h.events]
  case eventCb =>
    change (decCallback s).eventCb = _
    rw [eventCb_decCallback, h.eventCb]

end AtSlice

theorem decLoop_of_atSlice {s₀ s : State} {i : ℕ} (h : AtSlice s₀ i s) :
    ∃ j s', decLoop s = (true, s') ∧ AtSlice s₀ j s' ∧
      s₀.dec.height.toNat ≤ 128 * (j + 1) := by
  by_cases hrest : 128 * (i + 1) < s₀.dec.height.toNat
  · obtain ⟨s', hnext, hs'⟩ := h.next hrest
    obtain ⟨j, s'', hloop, hend⟩ := decLoop_of_atSlice hs'
    have hover : s.dec.isFinish = false := by
      rw [h.isFinish, ← Bool.not_eq_true, h.isOver_iff]
      omega
    refine ⟨j, s'', ?_, hend⟩
    rw [decLoop, hover, if_neg Bool.false_ne_true, hnext]
    exact hloop
  · have hover : s.dec.isFinish = true := by
      rw [h.isFinish, h.isOver_iff]
      omega
    refine ⟨i, s, ?_, h, by omega⟩
    rw [decLoop, if_pos hover]
termination_by s₀.dec.height.toNat - i

/-! ### The message -/

theorem decSetup_of_frame {s : State} (hframe : s.dec.sliceHeight = s.dec.height) :
    (decSetup s).dec =
        { s.dec with
          curLineNum := 0
          isFinish := false
          setSliceHeight := JPEG_SLICE_HEIGHT } ∧
      (decSetup s).decoder.height = s.dec.height.toNat ∧
      (decSetup s).decoder.sliceHeight = 128 ∧ (decSetup s).decoder.first = 0 ∧
      (decSetup s).decoder.lines = min 128 s.dec.height.toNat := by
  unfold decSetup
  rw [if_pos hframe]
  exact ⟨rfl, rfl, rfl, rfl, rfl⟩

theorem atSlice_decSetup {s : State} (hframe : s.dec.sliceHeight = s.dec.height)
    (hlong : 128 < s.dec.height.toNat) : AtSlice s 0 (decSetup s) := by
  obtain ⟨hdec, hheight, hslice, hfirst, hlines⟩ := decSetup_of_frame hframe
  have hover : (decSetup s).decoder.isOver = false := by
    rw [Decoder.isOver, hlines, hheight, decide_eq_false_iff_not]
    omega
  constructor
  case width => rw [hdec]
  case height => rw [hdec]
  case frame => rw [hdec, hframe]
  case setSliceHeight => rw [hdec]
  case tempBufVir => rw [hdec]
  case addrU =>
    have hzero : UInt32.ofNat 0 = 0 := rfl
    rw [hdec, hzero, UInt32.zero_mul, UInt32.add_zero]
  case curLineNum => rw [hdec]; rfl
  case isFinish => rw [hdec, hover]
  case decoderHeight => exact hheight
  case decoderSlice => exact hslice
  case first => exact hfirst
  case lines => exact hlines
  case inside => omega
  case copies => exact (List.append_nil _).symm
  case events => rfl
  case eventCb => rfl

/-- An image of at most one slice is over before the first `_dec_next`, which fails. -/
theorem decStart_of_short {s : State} (hframe : s.dec.sliceHeight = s.dec.height)
    (hshort : s.dec.height.toNat ≤ 128) : (processDecStart s).1 = false := by
  obtain ⟨hdec, hheight, -, -, hlines⟩ := decSetup_of_frame hframe
  have hover : (decCallback (decSetup s)).decoder.isOver = true := by
    rw [decoder_decCallback, Decoder.isOver, hlines, hheight, decide_eq_true_iff]
    omega
  have hfinish : (decSetup s).dec.isFinish = false := by rw [hdec]
  have hfail := decNext_of_over loopParam hover
  have hloop : (decStart s).1 = false := by
    rw [decStart, if_pos hframe, decLoop, hfinish, if_neg Bool.false_ne_true]
    split
    · rfl
    · rename_i s' hnext
      rw [hnext] at hfail
      cases hfail
  rw [processDecStart]
  split
  · rename_i s' hstart
    rw [hstart] at hloop
    cases hloop
  · rfl

theorem processDecStart_of_long {s : State} (hframe : s.dec.sliceHeight = s.dec.height)
    (hlong : 128 < s.dec.height.toNat) :
    ∃ j s', processDecStart s = (true, decCallback s') ∧ AtSlice s j s' ∧
      s.dec.height.toNat ≤ 128 * (j + 1) := by
  obtain ⟨j, s', hloop, hs', hend⟩ := decLoop_of_atSlice (atSlice_decSetup hframe hlong)
  refine ⟨j, s', ?_, hs', hend⟩
  rw [processDecStart, decStart, if_pos hframe, hloop]

/-- Slices are put behind each other if the size of half a slice does not wrap. -/
theorem advance_eq_iff (width : UInt32) :
    advance width = UInt32.ofNat 64 * width ↔ width.toNat % 2 ^ 26 < 2 ^ 25 := by
  have hlt := width.toNat_lt
  have hadvance : (advance width).toNat = 128 * width.toNat % 2 ^ 32 / 2 := by
    rw [advance, UInt32.toNat_shiftRight, UInt32.toNat_mul]
    exact Nat.shiftRight_eq_div_pow _ _
  have hlines : (UInt32.ofNat 64 * width).toNat = 64 * width.toNat % 2 ^ 32 := by
    rw [UInt32.toNat_mul]
    rfl
  rw [← UInt32.toNat_inj, hadvance, hlines]
  omega

/-- The pairs are copied to consecutive lines, from the second slice on, exactly if slices are
put behind each other. -/
theorem map_sliceCopy_eq_iff (d : JpegDec) {n : ℕ} (hn : 64 < n) :
    (List.range n).map (sliceCopy d) = (List.range n).map (pairCopy d) ↔
      advance d.width = UInt32.ofNat 64 * d.width := by
  rw [List.map_inj_left]
  constructor
  · intro h
    have hdst := congrArg Copy.dst (h 64 (List.mem_range.mpr hn))
    have hone : UInt32.ofNat (64 / 64) = 1 := rfl
    have hzero : UInt32.ofNat (64 % 64) = 0 := rfl
    rw [sliceCopy, pairCopy, hone, hzero] at hdst
    dsimp only at hdst
    grind
  · intro h k _
    have hk : UInt32.ofNat k = UInt32.ofNat (k / 64) * UInt32.ofNat 64 + UInt32.ofNat (k % 64) := by
      rw [← UInt32.ofNat_mul, ← UInt32.ofNat_add, Nat.div_add_mod']
    rw [sliceCopy, pairCopy, h, hk]
    congr 1
    grind

/-- An image in frame mode, with a callback, and a decoder that has not been started. -/
def frameOf (width height : UInt32) : State where
  dec :=
    { width, height
      sliceHeight := height
      setSliceHeight := 0
      dstAddrPhy := ⟨0x10000000, 0x10100000⟩
      dstAddrVir := ⟨0x40000000, 0x40100000⟩
      tempBufPhy := 0x10200000
      tempBufVir := 0x40200000
      curLineNum := 0
      handleLineNum := 0
      isFinish := false }
  decoder := ⟨0, SLICE_HEIGHT, 0, 0, 0, 0, by decide, Nat.le_refl 0⟩
  copies := []
  events := []
  eventCb := true

/-- A DEC_START message in frame mode completes once exactly if a callback is set, the image
has more than one slice, the line number does not wrap, nor the size of half a slice. -/
theorem completesOnce_iff (s : State) (hframe : s.dec.sliceHeight = s.dec.height)
    (heven : s.dec.height.toNat % 2 = 0) :
    CompletesOnce s ↔
      s.eventCb = true ∧ 128 < s.dec.height.toNat ∧ s.dec.height.toNat + 128 ≤ 2 ^ 32 ∧
        s.dec.width.toNat % 2 ^ 26 < 2 ^ 25 := by
  have hlt := s.dec.height.toNat_lt
  by_cases hlong : 128 < s.dec.height.toNat
  · obtain ⟨j, s', hprocess, hs', hend⟩ := processDecStart_of_long hframe hlong
    have hinside := hs'.inside
    rw [CompletesOnce, hprocess]
    by_cases hwrap : 128 * (j + 1) < 2 ^ 32
    · have hcur : s'.dec.curLineNum + (cpyHeight s'.dec).1 = s'.dec.height := by
        rw [← UInt32.toNat_inj, hs'.toNat_cur_add_cpyHeight hwrap, hs'.height]
        omega
      obtain ⟨param, htotal, hevents⟩ := events_decCallback_of_eq hcur
      have hpairs : 64 * j + (min (128 * (j + 1)) s.dec.height.toNat - 128 * j) / 2 =
          s.dec.height.toNat / 2 := by omega
      have hcopies := hs'.copies_callback hwrap
      rw [hpairs] at hcopies
      rw [hs'.height] at htotal
      rw [hs'.eventCb, hs'.events] at hevents
      dsimp only
      rw [hcopies, List.append_cancel_left_eq, map_sliceCopy_eq_iff s.dec (by omega),
        advance_eq_iff, hevents]
      constructor
      · rintro ⟨-, hwidth, param', -, hraised⟩
        refine ⟨?_, hlong, by omega, hwidth⟩
        by_contra hcb
        rw [if_neg hcb] at hraised
        simp at hraised
      · rintro ⟨hcb, -, -, hwidth⟩
        exact ⟨rfl, hwidth, param, htotal, by rw [if_pos hcb]⟩
    · have hfull : 128 * (j + 1) = 2 ^ 32 := by omega
      have hcur := hs'.cur_add_cpyHeight_of_wrap hfull
      have hne : s'.dec.curLineNum + (cpyHeight s'.dec).1 ≠ s'.dec.height := by
        rw [hcur, hs'.height, ← UInt32.toNat_inj.ne]
        exact (Nat.ne_of_lt (by omega : 0 < s.dec.height.toNat))
      have hevents := events_decCallback_of_ne hs'.frame hne
      refine iff_of_false ?_ (by omega)
      rintro ⟨-, -, param, -, hraised⟩
      dsimp only at hraised
      rw [hevents, hs'.events] at hraised
      simp at hraised
  · refine iff_of_false (fun hcompletes => ?_) fun h => hlong h.2.1
    rw [CompletesOnce, decStart_of_short hframe (by omega)] at hcompletes
    exact Bool.false_ne_true hcompletes.1

theorem completesOnce_vga : CompletesOnce (frameOf 640 480) :=
  (completesOnce_iff (frameOf 640 480) rfl rfl).mpr ⟨rfl, by decide, by decide, by decide⟩

/-- An image of 64 lines is over with the first slice: DONE is raised, and then an error. -/
theorem fails_of_one_slice :
    (processDecStart (frameOf 640 64)).1 = false ∧
      (processDecStart (frameOf 640 64)).2.events =
        [.decDone ⟨64, 64, 0x40100000, 0x10100000⟩, .decErr] := by
  have hstart : decStart (frameOf 640 64) =
      decNext (decCallback (decSetup (frameOf 640 64))) loopParam := by
    rw [decStart, if_pos (by rfl), decLoop]
    rfl
  rw [processDecStart, hstart]
  exact ⟨rfl, rfl⟩

end FrameDecode

end Tarako
