import Mathlib.Algebra.GroupWithZero.Nat
import Mathlib.Data.List.Basic
import Tarako.Camera.ScaleSem

/-!
# The slices of the scaler

What `cmr_scale_start` and the automatic calls of `cmr_scale_next` in `cmr_cvt.c` start the
scaler on: the input address, the crop window and the height of the slice. Every call of the
device succeeds; the scaler thread counts the output lines between the calls, and they are not
all there before the scaler has been given all lines of the window. The output side of the
calls is left out.
-/

namespace Tarako

namespace ScaleSlices

open ScaleSem

/-! ## The source -/

structure Rect where
  startX : UInt32
  startY : UInt32
  width : UInt32
  height : UInt32
  deriving DecidableEq

/-- The arguments of `cmr_scale_start`, with the source frame and the rest of the window. -/
structure Args extends StartArgs where
  srcWidth : UInt32
  srcHeight : UInt32
  startX : UInt32
  rectWidth : UInt32
  addrY : UInt32
  addrU : UInt32

/-- `struct scale_cxt`, with its source side. -/
structure Cxt extends ScaleCxt where
  totalHeight : UInt32
  srcWidth : UInt32
  startX : UInt32
  rectWidth : UInt32
  addrY : UInt32
  addrU : UInt32

/-- What the scaler is started on. `line` is the `total_height` behind the address. -/
structure Slice where
  line : UInt32
  addrY : UInt32
  addrU : UInt32
  rect : Rect
  actHeight : UInt32
  deriving DecidableEq

def Cxt.srcRect (c : Cxt) : Rect := ⟨c.startX, c.startY, c.rectWidth, c.rectHeight⟩

def localInit (scThreshold : UInt32) (a : Args) : Cxt :=
  { ScaleSem.localInit scThreshold a.toStartArgs with
    totalHeight := a.startY
    srcWidth := a.srcWidth
    startX := a.startX
    rectWidth := a.rectWidth
    addrY := a.addrY
    addrU := a.addrU }

/-- `cmr_scale_start`. The mode that is not sliced takes the height of the window. -/
def start (scThreshold : UInt32) (a : Args) : Cxt × Option Slice :=
  let c := localInit scThreshold a
  ({ c with totalHeight := c.sliceHeight },
    if c.isStarted then
      some
        { line := 0
          addrY := c.addrY
          addrU := c.addrU
          rect := c.srcRect
          actHeight :=
            if c.scWorkMode = .frame then c.rectHeight else c.readyHeight - c.totalHeight }
    else none)

/-- `cmr_scale_next(0, NULL, NULL, ..)`, when the scaler thread has counted `totalOutHeight`
output lines. -/
def next (totalOutHeight : UInt32) (c : Cxt) : Cxt × Option Slice × ℤ :=
  let c : Cxt := { c with totalOutHeight := totalOutHeight }
  if c.totalOutHeight ≥ c.dstHeight then (c, none, 0)
  else
    let actHeight :=
      if c.isEnd then c.startY + c.rectHeight - c.readyHeight else c.sliceHeight
    let ret := if c.isEnd then CVT_RET_LAST else 0
    let d : Cxt := { c with toScaleCxt := c.toScaleCxt.advance }
    if d.isStarted then
      let offset := c.totalHeight * c.srcWidth
      ({ d with totalHeight := c.totalHeight + c.sliceHeight },
        some
          { line := c.totalHeight
            addrY := c.addrY + offset
            addrU := c.addrU + (offset >>> 1)
            rect :=
              { c.srcRect with
                startY := if c.isStarted then 0 else c.startY - c.totalHeight }
            actHeight := if c.isStarted then actHeight else d.readyHeight - c.startY },
        ret)
    else (d, none, ret)

/-- What at most `n` calls of `cmr_scale_next` start the scaler on, up to the one that
returns `CVT_RET_LAST`; no result when none of them does. -/
def untilLast : ℕ → (ℕ → UInt32) → Cxt → Option (List (Option Slice))
  | 0, _, _ => none
  | n + 1, outs, c =>
      let (d, slice, ret) := next (outs 0) c
      if ret = CVT_RET_LAST then some [slice]
      else (untilLast n (fun i => outs (i + 1)) d).map (slice :: ·)

/-! ## Covering the window -/

/-- The slices are the lines from `b` to `e`, one behind the other, none empty or higher than
`sliceHeight`, and their addresses do not wrap. -/
def Tiles (srcWidth sliceHeight : ℕ) : ℕ → ℕ → List Slice → Prop
  | b, e, [] => b = e
  | b, e, s :: rest =>
      s.line.toNat + s.rect.startY.toNat = b ∧ s.line.toNat * srcWidth < 2 ^ 32 ∧
        0 < s.actHeight.toNat ∧ s.actHeight.toNat ≤ sliceHeight ∧
        Tiles srcWidth sliceHeight (b + s.actHeight.toNat) e rest

/-- The calls up to `CVT_RET_LAST` start the scaler on exactly the lines of the window, and
the last of them on its last slice. -/
def CoversWindow (scThreshold : UInt32) (a : Args) (outs : ℕ → UInt32) : Prop :=
  ∃ (n : ℕ) (calls : List (Option Slice)) (last : Slice),
    untilLast n outs (start scThreshold a).1 = some (calls ++ [some last]) ∧
      Tiles a.srcWidth.toNat (start scThreshold a).1.sliceHeight.toNat a.startY.toNat
        (a.startY.toNat + a.rectHeight.toNat)
        (((start scThreshold a).2 :: (calls ++ [some last])).filterMap id)

def linesOf (s : Option Slice) : ℕ := (s.map fun s => s.actHeight.toNat).getD 0

/-- How many lines the first `n` calls of `cmr_scale_next` start the scaler on. -/
def handed : ℕ → (ℕ → UInt32) → Cxt → ℕ
  | 0, _, _ => 0
  | n + 1, outs, c =>
      linesOf (next (outs 0) c).2.1 + handed n (fun i => outs (i + 1)) (next (outs 0) c).1

/-- The destination is not complete while lines of the window are still to be handed over. -/
def Delivers (scThreshold : UInt32) (a : Args) (outs : ℕ → UInt32) : Prop :=
  ∀ n, linesOf (start scThreshold a).2 + handed n outs (start scThreshold a).1 <
    a.rectHeight.toNat → outs n < a.dstHeight

/-! ## The condition -/

/-- From line `b` on, slices of height `s` leave a shorter last one, and neither the height
ready nor the offset of its address wraps there. -/
def LeavesRest (srcWidth s b e : ℕ) : Prop :=
  b < e ∧ ¬ s ∣ e - b ∧ b + (e - b) / s * s + s < 2 ^ 32 ∧
    (b + (e - b) / s * s) * srcWidth < 2 ^ 32

/-- `n` is the first of the heights `r + s`, `r + 2 * s`, .. above `y`, in 32 bits. -/
inductive FirstAbove (s y : UInt32) : UInt32 → UInt32 → Prop
  | here {r : UInt32} (h : y < r + s) : FirstAbove s y r (r + s)
  | later {r n : UInt32} (h : r + s ≤ y) (hrest : FirstAbove s y (r + s) n) :
      FirstAbove s y r n

/-- When the automatic slices cover the window. -/
def Fits (scThreshold : UInt32) (a : Args) : Prop :=
  let c := localInit scThreshold a
  let e := a.startY.toNat + a.rectHeight.toNat
  let rest := LeavesRest a.srcWidth.toNat c.sliceHeight.toNat
  if a.startY < a.sliceHeight then
    c.scWorkMode ≠ .frame ∧ c.sliceHeight = a.sliceHeight ∧ rest a.sliceHeight.toNat e
  else
    0 < a.rectHeight ∧ c.sliceHeight ≤ a.startY ∧
      c.sliceHeight.toNat * a.srcWidth.toNat < 2 ^ 32 ∧
      ∃ n, FirstAbove c.sliceHeight a.startY a.sliceHeight n ∧
        (e < n.toNat ∨ n = 2 * c.sliceHeight ∧ rest n.toNat e)

/-! ## One call -/

namespace Cxt

def windowEnd (c : Cxt) : ℕ := c.startY.toNat + c.rectHeight.toNat

/-- The slice that the scaler is started on next, on `actHeight` lines from `startY` lines
behind the address. -/
def slice (c : Cxt) (startY actHeight : UInt32) : Slice where
  line := c.totalHeight
  addrY := c.addrY + c.totalHeight * c.srcWidth
  addrU := c.addrU + (c.totalHeight * c.srcWidth) >>> 1
  rect := { c.srcRect with startY }
  actHeight := actHeight

def advanced (c : Cxt) (out : UInt32) : Cxt :=
  { c with toScaleCxt := ScaleCxt.advance { c.toScaleCxt with totalOutHeight := out } }

def counted (c : Cxt) (out : UInt32) : Cxt := { c with totalOutHeight := out }

def behind (c : Cxt) (out : UInt32) : Cxt :=
  { c.advanced out with totalHeight := c.totalHeight + c.sliceHeight }

end Cxt

section Call

variable {c : Cxt} {out : UInt32}

theorem next_eq (hout : out < c.dstHeight) :
    next out c =
      if (c.advanced out).isStarted then
        (c.behind out,
          some (c.slice (if c.isStarted then 0 else c.startY - c.totalHeight)
            (if c.isStarted then
              if c.isEnd then c.startY + c.rectHeight - c.readyHeight else c.sliceHeight
            else (c.advanced out).readyHeight - c.startY)),
          if c.isEnd then CVT_RET_LAST else 0)
      else (c.advanced out, none, if c.isEnd then CVT_RET_LAST else 0) :=
  if_neg (UInt32.not_le.mpr hout)

theorem next_of_complete (hout : ¬ out < c.dstHeight) : next out c = (c.counted out, none, 0) :=
  if_pos (UInt32.not_lt.mp hout)

theorem next_of_started (hout : out < c.dstHeight) (hstarted : c.isStarted = true) :
    next out c =
      (c.behind out,
        some (c.slice 0
          (if c.isEnd then c.startY + c.rectHeight - c.readyHeight else c.sliceHeight)),
        if c.isEnd then CVT_RET_LAST else 0) := by
  have hadvanced : (c.advanced out).isStarted = true := by
    change (c.isStarted || _) = true
    rw [hstarted, Bool.true_or]
  rw [next_eq hout, if_pos hadvanced, if_pos hstarted, if_pos hstarted]

theorem isStarted_advanced (hstarted : c.isStarted = false) :
    (c.advanced out).isStarted = true ↔ c.startY < (c.advanced out).readyHeight := by
  change (c.isStarted || decide (c.startY < (c.advanced out).readyHeight)) = true ↔ _
  rw [hstarted, Bool.false_or, decide_eq_true_iff]

theorem next_of_starting (hout : out < c.dstHeight) (hstarted : c.isStarted = false)
    (hready : c.startY < (c.advanced out).readyHeight) :
    next out c =
      (c.behind out,
        some (c.slice (c.startY - c.totalHeight) ((c.advanced out).readyHeight - c.startY)),
        if c.isEnd then CVT_RET_LAST else 0) := by
  have hnot : ¬ c.isStarted = true := by rw [hstarted]; decide
  rw [next_eq hout, if_pos ((isStarted_advanced hstarted).mpr hready), if_neg hnot, if_neg hnot]

theorem next_of_waiting (hout : out < c.dstHeight) (hstarted : c.isStarted = false)
    (hready : ¬ c.startY < (c.advanced out).readyHeight) :
    next out c = (c.advanced out, none, if c.isEnd then CVT_RET_LAST else 0) := by
  rw [next_eq hout, if_neg (mt (isStarted_advanced hstarted).mp hready)]

theorem readyHeight_advanced_of_end (hend : c.isEnd = true) :
    (c.advanced out).readyHeight = c.startY + c.rectHeight := by
  change (if c.isEnd = true then _ else _) = _
  rw [if_pos hend]
  rw [UInt32.add_comm, UInt32.sub_add_cancel]

theorem readyHeight_advanced (hend : c.isEnd = false) :
    (c.advanced out).readyHeight = c.readyHeight + c.sliceHeight := by
  change (if c.isEnd = true then _ else _) = _
  rw [hend]
  rfl

end Call

/-! ## Runs of calls -/

/-- The same as `CoversWindow` for the calls from a context on, at most `n` of them, with
the lines from `b` on still to come. -/
def CoversIn (n : ℕ) (outs : ℕ → UInt32) (c : Cxt) (b : ℕ) : Prop :=
  ∃ (calls : List (Option Slice)) (last : Slice),
    untilLast n outs c = some (calls ++ [some last]) ∧
      Tiles c.srcWidth.toNat c.sliceHeight.toNat b c.windowEnd
        ((calls ++ [some last]).filterMap id)

section Run

variable {n b : ℕ} {outs : ℕ → UInt32} {c d : Cxt} {slice : Slice}

theorem not_coversIn_zero : ¬ CoversIn 0 outs c b := by
  rintro ⟨calls, last, hrun, -⟩
  cases hrun

theorem untilLast_ne_nil (h : untilLast n outs c = some []) : False := by
  cases n with
  | zero => cases h
  | succ n =>
      rw [untilLast] at h
      dsimp only at h
      by_cases hlast : (next (outs 0) c).2.2 = CVT_RET_LAST
      · rw [if_pos hlast] at h
        cases h
      · rw [if_neg hlast] at h
        obtain ⟨calls, -, hcalls⟩ := Option.map_eq_some_iff.mp h
        cases hcalls

theorem untilLast_of_last {s : Option Slice} (h : next (outs 0) c = (d, s, CVT_RET_LAST)) :
    untilLast (n + 1) outs c = some [s] := by
  rw [untilLast, h]
  exact if_pos rfl

theorem untilLast_of_zero {s : Option Slice} (h : next (outs 0) c = (d, s, 0)) :
    untilLast (n + 1) outs c = (untilLast n (fun i => outs (i + 1)) d).map (s :: ·) := by
  rw [untilLast, h]
  exact if_neg (by decide)

theorem coversIn_of_last (h : next (outs 0) c = (d, some slice, CVT_RET_LAST)) :
    CoversIn (n + 1) outs c b ↔
      Tiles c.srcWidth.toNat c.sliceHeight.toNat b c.windowEnd [slice] := by
  unfold CoversIn
  rw [untilLast_of_last h]
  constructor
  · rintro ⟨calls, last, hrun, htiles⟩
    rw [← Option.some.inj hrun] at htiles
    exact htiles
  · intro htiles
    exact ⟨[], slice, rfl, htiles⟩

theorem not_coversIn_of_last (h : next (outs 0) c = (d, none, CVT_RET_LAST)) :
    ¬ CoversIn (n + 1) outs c b := by
  rintro ⟨calls, last, hrun, -⟩
  rw [untilLast_of_last h] at hrun
  cases calls with
  | nil => cases hrun
  | cons s calls =>
      have hlen := congrArg List.length (Option.some.inj hrun)
      simp at hlen

theorem coversIn_of_slice (h : next (outs 0) c = (c.behind (outs 0), some slice, 0)) :
    CoversIn (n + 1) outs c b ↔
      (slice.line.toNat + slice.rect.startY.toNat = b ∧
        slice.line.toNat * c.srcWidth.toNat < 2 ^ 32 ∧
        0 < slice.actHeight.toNat ∧ slice.actHeight.toNat ≤ c.sliceHeight.toNat) ∧
      CoversIn n (fun i => outs (i + 1)) (c.behind (outs 0)) (b + slice.actHeight.toNat) := by
  unfold CoversIn
  rw [untilLast_of_zero h]
  constructor
  · rintro ⟨calls, last, hrun, htiles⟩
    obtain ⟨calls', hrest, hcalls⟩ := Option.map_eq_some_iff.mp hrun
    cases calls with
    | nil =>
        obtain rfl : calls' = [] := (List.cons.inj hcalls).2
        exact (untilLast_ne_nil hrest).elim
    | cons s calls =>
        obtain ⟨rfl, rfl⟩ := List.cons.inj hcalls
        obtain ⟨hline, hwrap, hpos, hle, hrest'⟩ := htiles
        exact ⟨⟨hline, hwrap, hpos, hle⟩, calls, last, hrest, hrest'⟩
  · rintro ⟨⟨hline, hwrap, hpos, hle⟩, calls, last, hrest, htiles⟩
    refine ⟨some slice :: calls, last, ?_, hline, hwrap, hpos, hle, htiles⟩
    rw [hrest]
    rfl

theorem coversIn_of_none (h : next (outs 0) c = (d, none, 0)) (hwidth : d.srcWidth = c.srcWidth)
    (hslice : d.sliceHeight = c.sliceHeight) (hend : d.windowEnd = c.windowEnd) :
    CoversIn (n + 1) outs c b ↔ CoversIn n (fun i => outs (i + 1)) d b := by
  unfold CoversIn
  rw [untilLast_of_zero h, hwidth, hslice, hend]
  constructor
  · rintro ⟨calls, last, hrun, htiles⟩
    obtain ⟨calls', hrest, hcalls⟩ := Option.map_eq_some_iff.mp hrun
    cases calls with
    | nil => cases hcalls
    | cons s calls =>
        obtain ⟨rfl, rfl⟩ := List.cons.inj hcalls
        exact ⟨calls, last, hrest, htiles⟩
  · rintro ⟨calls, last, hrest, htiles⟩
    refine ⟨none :: calls, last, ?_, htiles⟩
    rw [hrest]
    rfl

end Run

/-! ## Heights -/

section Heights

variable {w s b e : ℕ}

theorem leavesRest_of_lt (hb : b < e) (hlt : e < b + s) (hs : b + s < 2 ^ 32)
    (hw : b * w < 2 ^ 32) : LeavesRest w s b e := by
  have hdiv : (e - b) / s = 0 := Nat.div_eq_of_lt (by omega)
  refine ⟨hb, Nat.not_dvd_of_pos_of_lt (by omega) (by omega), ?_, ?_⟩
  · rw [hdiv, Nat.zero_mul, Nat.add_zero]
    exact hs
  · rw [hdiv, Nat.zero_mul, Nat.add_zero]
    exact hw

theorem leavesRest_add_iff (hs : 0 < s) (hle : b + s ≤ e) :
    LeavesRest w s (b + s) e ↔ LeavesRest w s b e := by
  have hsub : e - b = (e - (b + s)) + s := by omega
  have hdvd : s ∣ e - (b + s) ↔ s ∣ e - b := by
    rw [hsub, Nat.dvd_add_self_right]
  have hlast : b + s + (e - (b + s)) / s * s = b + (e - b) / s * s := by
    rw [hsub, Nat.add_div_right _ hs, Nat.succ_mul]
    omega
  unfold LeavesRest
  rw [hdvd, hlast]
  constructor
  · rintro ⟨hlt, hrest⟩
    exact ⟨by omega, hrest⟩
  · rintro ⟨hlt, hrest⟩
    refine ⟨?_, hrest⟩
    rcases Nat.lt_or_eq_of_le hle with hlt' | heq
    · exact hlt'
    · rw [← heq, Nat.add_sub_cancel_left] at hrest
      exact absurd (Nat.dvd_refl s) hrest.1

theorem LeavesRest.add_lt (h : LeavesRest w s b e) : b + s < 2 ^ 32 := by
  have hlt := h.2.2.1
  omega

theorem LeavesRest.mul_lt (h : LeavesRest w s b e) : b * w < 2 ^ 32 :=
  lt_of_le_of_lt (Nat.mul_le_mul_right w (Nat.le_add_right _ _)) h.2.2.2

end Heights

/-! ## From a started context on -/

section Started

variable {n b : ℕ} {outs : ℕ → UInt32} {c : Cxt}

/-- The slices are not empty, and the window ends within the 32 bits. -/
structure Cxt.Sound (c : Cxt) : Prop where
  slice_pos : 0 < c.sliceHeight.toNat
  windowEnd_lt : c.windowEnd < 2 ^ 32

theorem Cxt.Sound.behind (h : c.Sound) (out : UInt32) : (c.behind out).Sound :=
  ⟨h.slice_pos, h.windowEnd_lt⟩

theorem Cxt.Sound.advanced (h : c.Sound) (out : UInt32) : (c.advanced out).Sound :=
  ⟨h.slice_pos, h.windowEnd_lt⟩

theorem Cxt.Sound.counted (h : c.Sound) (out : UInt32) : (c.counted out).Sound :=
  ⟨h.slice_pos, h.windowEnd_lt⟩

/-- `Delivers` for the calls from a context on, with the lines from `b` on still to come. -/
def Cxt.Paced (c : Cxt) (outs : ℕ → UInt32) (b : ℕ) : Prop :=
  ∀ n, b + handed n outs c < c.windowEnd → outs n < c.dstHeight

theorem Cxt.Paced.of_slice {slice : Slice} {ret : ℤ} (hp : c.Paced outs b)
    (h : next (outs 0) c = (c.behind (outs 0), some slice, ret)) :
    (c.behind (outs 0)).Paced (fun i => outs (i + 1)) (b + slice.actHeight.toNat) := by
  intro n hlt
  refine hp (n + 1) ?_
  rw [handed, h]
  change b + (slice.actHeight.toNat + _) < c.windowEnd
  rwa [← Nat.add_assoc]

theorem Cxt.Paced.of_none {ret : ℤ} (hp : c.Paced outs b)
    (h : next (outs 0) c = (c.advanced (outs 0), none, ret)) :
    (c.advanced (outs 0)).Paced (fun i => outs (i + 1)) b := by
  intro n hlt
  refine hp (n + 1) ?_
  rw [handed, h]
  change b + (0 + _) < c.windowEnd
  rwa [Nat.zero_add]

theorem isStarted_behind (hstarted : c.isStarted = true) (out : UInt32) :
    (c.behind out).isStarted = true := by
  change (c.isStarted || _) = true
  rw [hstarted, Bool.true_or]

theorem Cxt.Sound.toNat_end (h : c.Sound) :
    (c.startY + c.rectHeight).toNat = c.windowEnd := by
  rw [UInt32.toNat_add, Nat.mod_eq_of_lt]
  · rfl
  · exact h.windowEnd_lt

theorem Cxt.Sound.isEnd_iff (h : c.Sound) :
    c.isEnd = true ↔
      c.windowEnd < (c.readyHeight.toNat + c.sliceHeight.toNat) % 2 ^ 32 := by
  rw [← h.toNat_end, ← UInt32.toNat_add, ← UInt32.lt_iff_toNat_lt]
  exact decide_eq_true_iff

/-- What the slices from a started context on require: the two heights are at line `b`. -/
theorem leavesRest_of_coversIn (hs : c.Sound) (hstarted : c.isStarted = true)
    (h : CoversIn n outs c b) :
    c.totalHeight.toNat = b ∧ c.readyHeight.toNat = b ∧
      LeavesRest c.srcWidth.toNat c.sliceHeight.toNat b c.windowEnd := by
  have hpos := hs.slice_pos
  have hend := hs.windowEnd_lt
  have hready := c.readyHeight.toNat_lt
  have hslice := c.sliceHeight.toNat_lt
  induction n generalizing outs c b with
  | zero => exact absurd h not_coversIn_zero
  | succ n ih =>
      by_cases hout : outs 0 < c.dstHeight
      case neg =>
        have hrest := (coversIn_of_none (next_of_complete hout) rfl rfl rfl).mp h
        have hcounted := ih (hs.counted (outs 0)) hstarted hrest hpos hend hready hslice
        exact hcounted
      have hnext := next_of_started hout hstarted
      cases hisEnd : c.isEnd with
      | true =>
          rw [hisEnd, if_pos rfl, if_pos rfl] at hnext
          obtain ⟨hline, hwrap, hact, hle, hsum⟩ := (coversIn_of_last hnext).mp h
          rw [hs.isEnd_iff] at hisEnd
          change c.totalHeight.toNat + 0 = b at hline
          change 0 < (c.startY + c.rectHeight - c.readyHeight).toNat at hact
          change (c.startY + c.rectHeight - c.readyHeight).toNat ≤ _ at hle
          change b + (c.startY + c.rectHeight - c.readyHeight).toNat = c.windowEnd at hsum
          change c.totalHeight.toNat * _ < _ at hwrap
          rw [UInt32.toNat_sub, hs.toNat_end] at hact hle hsum
          have heq : c.readyHeight.toNat = b := by omega
          refine ⟨hline, heq, leavesRest_of_lt (by omega) (by omega) (by omega) ?_⟩
          rwa [← hline]
      | false =>
          rw [hisEnd, if_neg (by decide), if_neg (by decide)] at hnext
          obtain ⟨⟨hline, hwrap, -, -⟩, hrest⟩ := (coversIn_of_slice hnext).mp h
          obtain ⟨-, hnew, hrest⟩ := ih (hs.behind (outs 0)) (isStarted_behind hstarted _) hrest
            hpos hend (UInt32.toNat_lt _) hslice
          change (c.advanced (outs 0)).readyHeight.toNat = b + c.sliceHeight.toNat at hnew
          rw [readyHeight_advanced hisEnd, UInt32.toNat_add] at hnew
          change LeavesRest _ _ (b + c.sliceHeight.toNat) c.windowEnd at hrest
          have hlt := hrest.1
          have heq : c.readyHeight.toNat = b := by omega
          exact ⟨hline, heq, (leavesRest_add_iff hpos hlt.le).mp hrest⟩

/-- With both heights at line `b` the slices go on to the end of the window. -/
theorem exists_coversIn_of_leavesRest (hs : c.Sound) (hp : c.Paced outs b)
    (hstarted : c.isStarted = true) (htotal : c.totalHeight.toNat = b) (hready : c.readyHeight.toNat = b)
    (h : LeavesRest c.srcWidth.toNat c.sliceHeight.toNat b c.windowEnd) :
    ∃ n, CoversIn n outs c b := by
  have hpos := hs.slice_pos
  obtain ⟨k, hk⟩ : ∃ k, c.windowEnd - b = k := ⟨_, rfl⟩
  induction k using Nat.strong_induction_on generalizing outs c b with
  | _ k ih =>
    have hlt := h.1
    have hnext := next_of_started (hp 0 hlt) hstarted
    have hadd := h.add_lt
    have hmul := h.mul_lt
    have hmod : (c.readyHeight.toNat + c.sliceHeight.toNat) % 2 ^ 32 =
        b + c.sliceHeight.toNat := by
      rw [hready, Nat.mod_eq_of_lt hadd]
    cases hisEnd : c.isEnd with
    | true =>
        rw [hisEnd, if_pos rfl, if_pos rfl] at hnext
        rw [hs.isEnd_iff, hmod] at hisEnd
        have hact : (c.startY + c.rectHeight - c.readyHeight).toNat = c.windowEnd - b := by
          have hend := hs.windowEnd_lt
          rw [UInt32.toNat_sub, hs.toNat_end, hready]
          omega
        refine ⟨1, (coversIn_of_last hnext).mpr ⟨htotal, ?_, ?_, ?_, ?_⟩⟩
        · change c.totalHeight.toNat * _ < _
          rwa [htotal]
        · change 0 < (c.startY + c.rectHeight - c.readyHeight).toNat
          omega
        · change (c.startY + c.rectHeight - c.readyHeight).toNat ≤ _
          omega
        · change b + (c.startY + c.rectHeight - c.readyHeight).toNat = c.windowEnd
          omega
    | false =>
        rw [hisEnd, if_neg (by decide), if_neg (by decide)] at hnext
        have hle : b + c.sliceHeight.toNat ≤ c.windowEnd := by
          rw [← hmod]
          by_contra hcon
          rw [hs.isEnd_iff.mpr (Nat.lt_of_not_le hcon)] at hisEnd
          cases hisEnd
        have htotal' : (c.behind (outs 0)).totalHeight.toNat = b + c.sliceHeight.toNat := by
          change (c.totalHeight + c.sliceHeight).toNat = _
          rw [UInt32.toNat_add, htotal, Nat.mod_eq_of_lt hadd]
        have hready' : (c.behind (outs 0)).readyHeight.toNat = b + c.sliceHeight.toNat := by
          change (c.advanced (outs 0)).readyHeight.toNat = _
          rw [readyHeight_advanced hisEnd, UInt32.toNat_add, hmod]
        obtain ⟨n, hn⟩ := ih (c.windowEnd - (b + c.sliceHeight.toNat)) (by omega)
          (hs.behind (outs 0)) (hp.of_slice hnext) (isStarted_behind hstarted _) htotal'
          hready' ((leavesRest_add_iff hpos hle).mpr h) hpos rfl
        refine ⟨n + 1, (coversIn_of_slice hnext).mpr ⟨⟨htotal, ?_, hpos, le_refl _⟩, hn⟩⟩
        change c.totalHeight.toNat * _ < _
        rwa [htotal]

end Started

/-! ## From a waiting context on -/

section Waiting

variable {n : ℕ} {outs : ℕ → UInt32} {c : Cxt}

/-- The first slice of a window that starts further on: `m` is the height ready there. -/
structure Opens (c : Cxt) (m : UInt32) : Prop where
  nonempty : c.startY.toNat < c.windowEnd
  address : c.sliceHeight ≤ c.startY
  inRange : c.sliceHeight.toNat * c.srcWidth.toNat < 2 ^ 32
  rest : c.windowEnd < m.toNat ∨ m = 2 * c.sliceHeight ∧
    LeavesRest c.srcWidth.toNat c.sliceHeight.toNat m.toNat c.windowEnd

theorem toNat_add_sub {y m : UInt32} (h : y ≤ m) : y.toNat + (m - y).toNat = m.toNat := by
  rw [UInt32.toNat_sub_of_le _ _ h]
  exact Nat.add_sub_of_le (UInt32.le_iff_toNat_le.mp h)

/-- The line of the first slice is that of the window exactly if its offset in the rectangle
does not wrap. -/
theorem first_line_iff (s y : UInt32) : s.toNat + (y - s).toNat = y.toNat ↔ s ≤ y := by
  have hs := s.toNat_lt
  have hy := y.toNat_lt
  rw [UInt32.le_iff_toNat_le, UInt32.toNat_sub]
  omega

theorem Cxt.Sound.isEnd_iff_add (h : c.Sound) :
    c.isEnd = true ↔ c.windowEnd < (c.readyHeight + c.sliceHeight).toNat := by
  rw [h.isEnd_iff, UInt32.toNat_add]

theorem opens_of_coversIn (hs : c.Sound) (hstarted : c.isStarted = false)
    (htotal : c.totalHeight = c.sliceHeight) (h : CoversIn n outs c c.startY.toNat) :
    ∃ m, FirstAbove c.sliceHeight c.startY c.readyHeight m ∧ Opens c m := by
  have hpos := hs.slice_pos
  induction n generalizing outs c with
  | zero => exact absurd h not_coversIn_zero
  | succ n ih =>
      by_cases hout : outs 0 < c.dstHeight
      case neg =>
        have hrest := (coversIn_of_none (next_of_complete hout) rfl rfl rfl).mp h
        obtain ⟨m, hfirst, hm⟩ := ih (hs.counted (outs 0)) hstarted htotal hrest hpos
        exact ⟨m, hfirst, hm.nonempty, hm.address, hm.inRange, hm.rest⟩
      cases hisEnd : c.isEnd with
      | true =>
          have hlt := hs.isEnd_iff_add.mp hisEnd
          have hready := @readyHeight_advanced_of_end c (outs 0) hisEnd
          have hle : c.startY.toNat ≤ c.windowEnd := Nat.le_add_right _ _
          by_cases hopen : c.startY < (c.advanced (outs 0)).readyHeight
          · have hnext := next_of_starting hout hstarted hopen
            rw [hisEnd, if_pos rfl] at hnext
            obtain ⟨hline, hwrap, -, -, -⟩ := (coversIn_of_last hnext).mp h
            change c.totalHeight.toNat + (c.startY - c.totalHeight).toNat = _ at hline
            rw [hready, UInt32.lt_iff_toNat_lt, hs.toNat_end] at hopen
            rw [first_line_iff] at hline
            change c.totalHeight.toNat * _ < _ at hwrap
            rw [htotal] at hline hwrap
            exact ⟨_, .here (UInt32.lt_iff_toNat_lt.mpr (lt_of_le_of_lt hle hlt)),
              hopen, hline, hwrap, .inl hlt⟩
          · have hnext := next_of_waiting hout hstarted hopen
            rw [hisEnd, if_pos rfl] at hnext
            exact absurd h (not_coversIn_of_last hnext)
      | false =>
          have hready := @readyHeight_advanced c (outs 0) hisEnd
          by_cases hopen : c.startY < (c.advanced (outs 0)).readyHeight
          · have hnext := next_of_starting hout hstarted hopen
            rw [hisEnd, if_neg (by decide)] at hnext
            obtain ⟨⟨hline, hwrap, -, -⟩, hrest⟩ := (coversIn_of_slice hnext).mp h
            change c.totalHeight.toNat + (c.startY - c.totalHeight).toNat = _ at hline
            change c.totalHeight.toNat * _ < _ at hwrap
            change CoversIn _ _ _
              (c.startY.toNat + ((c.advanced (outs 0)).readyHeight - c.startY).toNat) at hrest
            have hstarts := (isStarted_advanced hstarted).mpr hopen
            rw [hready] at hopen hrest
            rw [toNat_add_sub (UInt32.le_of_lt hopen)] at hrest
            obtain ⟨hsum, -, hfits⟩ := leavesRest_of_coversIn (hs.behind (outs 0)) hstarts hrest
            change (c.totalHeight + c.sliceHeight).toNat = _ at hsum
            rw [first_line_iff, htotal] at hline
            rw [htotal] at hwrap hsum
            refine ⟨_, .here hopen, ?_, hline, hwrap, .inr ⟨?_, hfits⟩⟩
            · exact lt_trans (UInt32.lt_iff_toNat_lt.mp hopen) hfits.1
            · rw [← UInt32.toNat_inj.mp hsum, UInt32.two_mul]
          · have hnext := next_of_waiting hout hstarted hopen
            rw [hisEnd, if_neg (by decide)] at hnext
            have hrest := (coversIn_of_none hnext rfl rfl rfl).mp h
            have hwaiting : (c.advanced (outs 0)).isStarted = false :=
              Bool.eq_false_iff.mpr (mt (isStarted_advanced hstarted).mp hopen)
            obtain ⟨m, hfirst, hm⟩ := ih (hs.advanced (outs 0)) hwaiting htotal hrest hpos
            rw [hready] at hopen hfirst
            exact ⟨m, .later (UInt32.not_lt.mp hopen) hfirst, hm.nonempty, hm.address,
              hm.inRange, hm.rest⟩

theorem Opens.first {m : UInt32} (hm : Opens c m) (htotal : c.totalHeight = c.sliceHeight) :
    c.totalHeight.toNat + (c.startY - c.totalHeight).toNat = c.startY.toNat ∧
      c.totalHeight.toNat * c.srcWidth.toNat < 2 ^ 32 := by
  rw [first_line_iff, htotal]
  exact ⟨hm.address, hm.inRange⟩

theorem coversIn_of_opens_of_end {m : UInt32} (hs : c.Sound)
    (hp : c.Paced outs c.startY.toNat) (hstarted : c.isStarted = false)
    (htotal : c.totalHeight = c.sliceHeight) (hready : c.readyHeight ≤ c.startY)
    (hm : Opens c m) (hisEnd : c.isEnd = true) : CoversIn 1 outs c c.startY.toNat := by
  obtain ⟨hline, hwrap⟩ := hm.first htotal
  have hnonempty := hm.nonempty
  have hopen : c.startY < c.startY + c.rectHeight := by
    rwa [UInt32.lt_iff_toNat_lt, hs.toNat_end]
  have hact := toNat_add_sub (UInt32.le_of_lt hopen)
  rw [hs.toNat_end] at hact
  have hopen' : c.startY < (c.advanced (outs 0)).readyHeight := by
    rwa [readyHeight_advanced_of_end hisEnd]
  have hnext := next_of_starting (hp 0 hm.nonempty) hstarted hopen'
  rw [hisEnd, if_pos rfl, readyHeight_advanced_of_end hisEnd] at hnext
  refine (coversIn_of_last hnext).mpr ⟨hline, hwrap, ?_, ?_, hact⟩
  · change 0 < (c.startY + c.rectHeight - c.startY).toNat
    omega
  · change (c.startY + c.rectHeight - c.startY).toNat ≤ c.sliceHeight.toNat
    have hlt := hs.isEnd_iff.mp hisEnd
    have hmod := Nat.mod_le (c.readyHeight.toNat + c.sliceHeight.toNat) (2 ^ 32)
    rw [UInt32.le_iff_toNat_le] at hready
    omega

theorem exists_coversIn_of_opens_of_not_end (hs : c.Sound)
    (hp : c.Paced outs c.startY.toNat) (hstarted : c.isStarted = false)
    (htotal : c.totalHeight = c.sliceHeight) (hready : c.readyHeight ≤ c.startY)
    (hopen : c.startY < c.readyHeight + c.sliceHeight)
    (hm : Opens c (c.readyHeight + c.sliceHeight)) (hisEnd : c.isEnd = false) :
    ∃ n, CoversIn n outs c c.startY.toNat := by
  obtain ⟨hline, hwrap⟩ := hm.first htotal
  have hnot : ¬ c.windowEnd < (c.readyHeight + c.sliceHeight).toNat := by
    rw [← hs.isEnd_iff_add, hisEnd]
    decide
  obtain ⟨hdouble, hrest⟩ := hm.rest.resolve_left hnot
  have hheight := @readyHeight_advanced c (outs 0) hisEnd
  have hact := toNat_add_sub (UInt32.le_of_lt hopen)
  rw [← hheight] at hopen hact hdouble hrest
  have hnext := next_of_starting (hp 0 hm.nonempty) hstarted hopen
  rw [hisEnd, if_neg (by decide)] at hnext
  have htotal' : (c.behind (outs 0)).totalHeight.toNat =
      (c.advanced (outs 0)).readyHeight.toNat := by
    change (c.totalHeight + c.sliceHeight).toNat = _
    rw [htotal, hdouble, UInt32.two_mul]
  have hpaced := hp.of_slice hnext
  change (c.behind (outs 0)).Paced _
    (c.startY.toNat + ((c.advanced (outs 0)).readyHeight - c.startY).toNat) at hpaced
  rw [hact] at hpaced
  obtain ⟨n, hn⟩ := exists_coversIn_of_leavesRest (hs.behind (outs 0)) hpaced
    ((isStarted_advanced hstarted).mpr hopen) htotal' rfl hrest
  refine ⟨n + 1, (coversIn_of_slice hnext).mpr ⟨⟨hline, hwrap, ?_, ?_⟩, ?_⟩⟩
  · change 0 < ((c.advanced (outs 0)).readyHeight - c.startY).toNat
    rw [UInt32.lt_iff_toNat_lt] at hopen
    omega
  · change ((c.advanced (outs 0)).readyHeight - c.startY).toNat ≤ c.sliceHeight.toNat
    have hmod := Nat.mod_le (c.readyHeight.toNat + c.sliceHeight.toNat) (2 ^ 32)
    rw [hheight] at hact ⊢
    rw [UInt32.toNat_add] at hact
    rw [UInt32.le_iff_toNat_le] at hready
    omega
  · change CoversIn n _ _
      (c.startY.toNat + ((c.advanced (outs 0)).readyHeight - c.startY).toNat)
    rwa [hact]

theorem exists_coversIn_of_opens {s y r m : UInt32} (hfirst : FirstAbove s y r m)
    (hs : c.Sound) (hp : c.Paced outs c.startY.toNat) (hstarted : c.isStarted = false)
    (htotal : c.totalHeight = c.sliceHeight) (hslice : c.sliceHeight = s) (hstart : c.startY = y) (hready : c.readyHeight = r)
    (hle : r ≤ y) (hm : Opens c m) : ∃ n, CoversIn n outs c c.startY.toNat := by
  induction hfirst generalizing outs c with
  | @here r h =>
      rw [← hready, ← hslice] at hm
      rw [← hready, ← hstart] at hle
      rw [← hready, ← hslice, ← hstart] at h
      cases hisEnd : c.isEnd with
      | true => exact ⟨1, coversIn_of_opens_of_end hs hp hstarted htotal hle hm hisEnd⟩
      | false => exact exists_coversIn_of_opens_of_not_end hs hp hstarted htotal hle h hm hisEnd
  | @later r m h hrest ih =>
      have hisEnd : c.isEnd = false := by
        rw [Bool.eq_false_iff, Ne, hs.isEnd_iff_add, hready, hslice]
        have hnonempty := hm.nonempty
        rw [UInt32.le_iff_toNat_le, ← hstart] at h
        omega
      have hheight : (c.advanced (outs 0)).readyHeight = r + s := by
        rw [readyHeight_advanced hisEnd, hready, hslice]
      have hwait : ¬ c.startY < (c.advanced (outs 0)).readyHeight := by
        rw [hheight, hstart]
        exact UInt32.not_lt.mpr h
      have hnext := next_of_waiting (hp 0 hm.nonempty) hstarted hwait
      rw [hisEnd, if_neg (by decide)] at hnext
      have hwaiting : (c.advanced (outs 0)).isStarted = false :=
        Bool.eq_false_iff.mpr (mt (isStarted_advanced hstarted).mp hwait)
      obtain ⟨n, hn⟩ := ih (hs.advanced (outs 0)) (hp.of_none hnext) hwaiting htotal hslice hstart hheight h
        ⟨hm.nonempty, hm.address, hm.inRange, hm.rest⟩
      exact ⟨n + 1, (coversIn_of_none hnext rfl rfl rfl).mpr hn⟩

end Waiting

/-! ## The window -/

section Window

variable {scThreshold : UInt32} {a : Args} {outs : ℕ → UInt32}

/-- `cmr_scale_start` on its slice: the calls behind it go on where that ends. -/
theorem coversWindow_iff_of_slice {s : Slice} (h : (start scThreshold a).2 = some s) :
    CoversWindow scThreshold a outs ↔
      (s.line.toNat + s.rect.startY.toNat = a.startY.toNat ∧
        s.line.toNat * a.srcWidth.toNat < 2 ^ 32 ∧ 0 < s.actHeight.toNat ∧
        s.actHeight.toNat ≤ (start scThreshold a).1.sliceHeight.toNat) ∧
      ∃ n, CoversIn n outs (start scThreshold a).1 (a.startY.toNat + s.actHeight.toNat) := by
  unfold CoversWindow
  rw [h]
  constructor
  · rintro ⟨n, calls, last, hrun, hline, hwrap, hpos, hle, hrest⟩
    exact ⟨⟨hline, hwrap, hpos, hle⟩, n, calls, last, hrun, hrest⟩
  · rintro ⟨⟨hline, hwrap, hpos, hle⟩, n, calls, last, hrun, hrest⟩
    exact ⟨n, calls, last, hrun, hline, hwrap, hpos, hle, hrest⟩

theorem coversWindow_iff_of_none (h : (start scThreshold a).2 = none) :
    CoversWindow scThreshold a outs ↔
      ∃ n, CoversIn n outs (start scThreshold a).1 a.startY.toNat := by
  unfold CoversWindow
  rw [h]
  rfl

theorem start_of_started (h : a.startY < a.sliceHeight) :
    ∃ s, (start scThreshold a).2 = some s ∧ s.line = 0 ∧ s.rect.startY = a.startY ∧
      s.actHeight = if (localInit scThreshold a).scWorkMode = .frame then a.rectHeight
        else a.sliceHeight - a.startY :=
  ⟨_, if_pos (decide_eq_true h), rfl, rfl, rfl⟩

theorem start_of_waiting (h : ¬ a.startY < a.sliceHeight) : (start scThreshold a).2 = none :=
  if_neg (by change ¬ decide (a.startY < a.sliceHeight) = true; rwa [decide_eq_true_iff])

theorem sound_start (hcrop : a.startY.toNat + a.rectHeight.toNat ≤ a.srcHeight.toNat)
    (hslice : 1 ≤ a.sliceHeight) : (start scThreshold a).1.Sound := by
  refine ⟨?_, lt_of_le_of_lt hcrop a.srcHeight.toNat_lt⟩
  change 0 < (if a.sliceHeight ≥ a.rectHeight ∧ a.dstWidth > scThreshold then CMR_SLICE_HEIGHT
    else a.sliceHeight).toNat
  by_cases hinternal : a.sliceHeight ≥ a.rectHeight ∧ a.dstWidth > scThreshold
  · rw [if_pos hinternal]
    decide
  · rw [if_neg hinternal]
    exact UInt32.le_iff_toNat_le.mp hslice

theorem Delivers.paced (h : Delivers scThreshold a outs) :
    (start scThreshold a).1.Paced outs
      (a.startY.toNat + linesOf (start scThreshold a).2) := by
  intro n hlt
  refine h n ?_
  change _ < a.startY.toNat + a.rectHeight.toNat at hlt
  omega

/-- What a window that starts in the first slice needs in order to be covered. -/
def FitsFirst (scThreshold : UInt32) (a : Args) : Prop :=
  (localInit scThreshold a).scWorkMode ≠ .frame ∧
    (localInit scThreshold a).sliceHeight = a.sliceHeight ∧
    LeavesRest a.srcWidth.toNat (localInit scThreshold a).sliceHeight.toNat
      a.sliceHeight.toNat (a.startY.toNat + a.rectHeight.toNat)

theorem fits_iff_of_started (h : a.startY < a.sliceHeight) :
    Fits scThreshold a ↔ FitsFirst scThreshold a := by
  rw [Fits]
  exact iff_of_eq (if_pos h)

theorem fitsFirst_of_coversWindow (hs : (start scThreshold a).1.Sound)
    (h : a.startY < a.sliceHeight) (hcovers : CoversWindow scThreshold a outs) :
    FitsFirst scThreshold a := by
  obtain ⟨s, hsome, hline, hstart, hact⟩ := @start_of_started scThreshold a h
  have hstarted : (start scThreshold a).1.isStarted = true := decide_eq_true h
  have hsum := toNat_add_sub (UInt32.le_of_lt h)
  rw [coversWindow_iff_of_slice hsome, hline, hstart] at hcovers
  obtain ⟨-, n, hn⟩ := hcovers
  obtain ⟨htotal, -, hrest⟩ := leavesRest_of_coversIn hs hstarted hn
  by_cases hframe : (localInit scThreshold a).scWorkMode = .frame
  · rw [hact, if_pos hframe] at hrest
    exact absurd hrest.1 (Nat.lt_irrefl _)
  · rw [hact, if_neg hframe, hsum] at hrest htotal
    exact ⟨hframe, UInt32.toNat_inj.mp htotal, hrest⟩

theorem coversWindow_of_fitsFirst (hs : (start scThreshold a).1.Sound)
    (hdelivers : Delivers scThreshold a outs) (h : a.startY < a.sliceHeight)
    (hfits : FitsFirst scThreshold a) : CoversWindow scThreshold a outs := by
  obtain ⟨hframe, hslice, hrest⟩ := hfits
  obtain ⟨s, hsome, hline, hstart, hact⟩ := @start_of_started scThreshold a h
  have hstarted : (start scThreshold a).1.isStarted = true := decide_eq_true h
  have hsum := toNat_add_sub (UInt32.le_of_lt h)
  have hpaced := hdelivers.paced
  rw [hsome] at hpaced
  change (start scThreshold a).1.Paced outs (a.startY.toNat + s.actHeight.toNat) at hpaced
  rw [hact, if_neg hframe, hsum] at hpaced
  rw [coversWindow_iff_of_slice hsome, hline, hstart, hact, if_neg hframe, hsum]
  refine ⟨⟨Nat.zero_add _, ?_, ?_, ?_⟩, ?_⟩
  · rw [show (0 : UInt32).toNat = 0 from rfl, Nat.zero_mul]
    exact Nat.two_pow_pos 32
  · rw [UInt32.lt_iff_toNat_lt] at h
    omega
  · change _ ≤ (localInit scThreshold a).sliceHeight.toNat
    rw [hslice]
    omega
  · exact exists_coversIn_of_leavesRest hs hpaced hstarted (congrArg UInt32.toNat hslice) rfl hrest

/-- Whatever the scaler thread counts, only a window that fits is covered. -/
theorem fits_of_coversWindow (hcrop : a.startY.toNat + a.rectHeight.toNat ≤ a.srcHeight.toNat)
    (hslice : 1 ≤ a.sliceHeight) (hcovers : CoversWindow scThreshold a outs) :
    Fits scThreshold a := by
  have hs : (start scThreshold a).1.Sound := sound_start hcrop hslice
  by_cases h : a.startY < a.sliceHeight
  · rw [fits_iff_of_started h]
    exact fitsFirst_of_coversWindow hs h hcovers
  · unfold Fits
    dsimp only
    rw [coversWindow_iff_of_none (start_of_waiting h)] at hcovers
    obtain ⟨n, hn⟩ := hcovers
    have hstarted : (start scThreshold a).1.isStarted = false := decide_eq_false h
    obtain ⟨m, hfirst, hm⟩ := opens_of_coversIn hs hstarted rfl hn
    rw [if_neg h]
    refine ⟨?_, hm.address, hm.inRange, m, hfirst, hm.rest⟩
    have hlt : a.startY.toNat < a.startY.toNat + a.rectHeight.toNat := hm.nonempty
    rw [UInt32.lt_iff_toNat_lt]
    change 0 < a.rectHeight.toNat
    omega

theorem coversWindow_of_fits (hcrop : a.startY.toNat + a.rectHeight.toNat ≤ a.srcHeight.toNat)
    (hslice : 1 ≤ a.sliceHeight) (hdelivers : Delivers scThreshold a outs)
    (hfits : Fits scThreshold a) : CoversWindow scThreshold a outs := by
  have hs : (start scThreshold a).1.Sound := sound_start hcrop hslice
  by_cases h : a.startY < a.sliceHeight
  · exact coversWindow_of_fitsFirst hs hdelivers h ((fits_iff_of_started h).mp hfits)
  · have hnone := @start_of_waiting scThreshold a h
    have hpaced := hdelivers.paced
    rw [hnone] at hpaced
    unfold Fits at hfits
    dsimp only at hfits
    rw [if_neg h] at hfits
    obtain ⟨hpos, haddress, hrange, m, hfirst, hrest⟩ := hfits
    rw [coversWindow_iff_of_none hnone]
    refine exists_coversIn_of_opens hfirst hs hpaced (decide_eq_false h) rfl rfl rfl rfl
      (UInt32.not_lt.mp h) ⟨?_, haddress, hrange, hrest⟩
    rw [UInt32.lt_iff_toNat_lt] at hpos
    change a.startY.toNat < a.startY.toNat + a.rectHeight.toNat
    change 0 < a.rectHeight.toNat at hpos
    omega

/-- The automatic slices cover the window exactly if it fits. -/
theorem coversWindow_iff_fits (scThreshold : UInt32) (a : Args) (outs : ℕ → UInt32)
    (hcrop : a.startY.toNat + a.rectHeight.toNat ≤ a.srcHeight.toNat)
    (hslice : 1 ≤ a.sliceHeight) (hdelivers : Delivers scThreshold a outs) :
    CoversWindow scThreshold a outs ↔ Fits scThreshold a :=
  ⟨fits_of_coversWindow hcrop hslice, coversWindow_of_fits hcrop hslice hdelivers⟩

/-- When the first call hands over the rest of the window, only the count before it matters. -/
theorem delivers_of_second {first second : Slice} (hfirst : (start scThreshold a).2 = some first)
    (hsecond : (next (outs 0) (start scThreshold a).1).2.1 = some second)
    (hall : a.rectHeight.toNat ≤ first.actHeight.toNat + second.actHeight.toNat)
    (hout : outs 0 < a.dstHeight) : Delivers scThreshold a outs := by
  intro n hlt
  cases n with
  | zero => exact hout
  | succ n =>
      rw [hfirst, handed, hsecond] at hlt
      simp only [linesOf, Option.map_some, Option.getD_some] at hlt
      omega

/-- The window of `height` lines from line `startY` on of a 640x480 source, in slices of 240
lines. -/
def vga (startY height : UInt32) : Args :=
  { sliceHeight := 240, startY, rectHeight := height, dstWidth := 320, dstHeight := 240
    tmpFrm := 0, srcWidth := 640, srcHeight := 480, startX := 0, rectWidth := 640
    addrY := 0x1000000, addrU := 0x2000000 }

/-- A window of 300 lines from line 100 on: 112 output lines come of the first slice. -/
theorem coversWindow_two_slices :
    CoversWindow 960 (vga 100 300) fun i => if i = 0 then 112 else 240 :=
  (coversWindow_iff_fits 960 (vga 100 300) _ (by decide) (by decide)
    (delivers_of_second rfl rfl (by decide) (by decide))).mpr
      ⟨by decide, rfl, by decide, by decide, by decide, by decide⟩

/-- The whole of 480 lines in slices of 240: the second slice is the last one, and the call
behind it finds the destination complete. -/
theorem no_last_at_multiple :
    ∃ (scThreshold : UInt32) (a : Args) (outs : ℕ → UInt32),
      a.startY.toNat + a.rectHeight.toNat ≤ a.srcHeight.toNat ∧ 1 ≤ a.sliceHeight ∧
        Delivers scThreshold a outs ∧ ¬ CoversWindow scThreshold a outs := by
  refine ⟨960, vga 0 480, fun i => if i = 0 then 120 else 240, by decide, by decide,
    delivers_of_second rfl rfl (by decide) (by decide), fun hcovers => ?_⟩
  obtain ⟨-, -, hrest⟩ := fitsFirst_of_coversWindow (sound_start (by decide) (by decide))
    (by decide) hcovers
  exact hrest.2.1 (by decide)

/-! ### Slices within the window -/

/-- Of a source that the 32 bits hold, slices lower than the window cover it exactly if it
starts in the first two of them and does not end with one. -/
theorem fits_iff_of_external (hcrop : a.startY.toNat + a.rectHeight.toNat ≤ a.srcHeight.toNat)
    (hslice : 1 ≤ a.sliceHeight) (hext : a.sliceHeight < a.rectHeight)
    (hheight : a.srcHeight.toNat < 2 ^ 31)
    (hsize : a.srcHeight.toNat * a.srcWidth.toNat < 2 ^ 32) :
    Fits scThreshold a ↔ a.startY.toNat < 2 * a.sliceHeight.toNat ∧
      ¬ a.sliceHeight.toNat ∣ a.startY.toNat + a.rectHeight.toNat := by
  have hnot : ¬ a.sliceHeight ≥ a.rectHeight := UInt32.not_le.mpr hext
  have hsame : (localInit scThreshold a).sliceHeight = a.sliceHeight :=
    if_neg fun h => hnot h.1
  have hmode : (localInit scThreshold a).scWorkMode = .sliceExternal := if_neg hnot
  have hpos : 0 < a.sliceHeight.toNat := UInt32.le_iff_toNat_le.mp hslice
  rw [UInt32.lt_iff_toNat_lt] at hext
  have hrest (k : ℕ) (hk : k * a.sliceHeight.toNat < a.startY.toNat + a.rectHeight.toNat) :
      LeavesRest a.srcWidth.toNat a.sliceHeight.toNat (k * a.sliceHeight.toNat)
          (a.startY.toNat + a.rectHeight.toNat) ↔
        ¬ a.sliceHeight.toNat ∣ a.startY.toNat + a.rectHeight.toNat := by
    have hdvd : a.sliceHeight.toNat ∣
        a.startY.toNat + a.rectHeight.toNat - k * a.sliceHeight.toNat ↔
          a.sliceHeight.toNat ∣ a.startY.toNat + a.rectHeight.toNat :=
      Nat.dvd_sub_iff_left hk.le (Nat.dvd_mul_left _ k)
    have hle := Nat.div_mul_le_self
      (a.startY.toNat + a.rectHeight.toNat - k * a.sliceHeight.toNat) a.sliceHeight.toNat
    have hlast : k * a.sliceHeight.toNat +
        (a.startY.toNat + a.rectHeight.toNat - k * a.sliceHeight.toNat) / a.sliceHeight.toNat *
          a.sliceHeight.toNat ≤ a.srcHeight.toNat := by omega
    unfold LeavesRest
    rw [hdvd]
    refine ⟨fun h => h.2.1, fun h => ⟨hk, h, by omega, ?_⟩⟩
    exact lt_of_le_of_lt (Nat.mul_le_mul_right _ hlast) hsize
  unfold Fits
  dsimp only
  rw [hsame, hmode]
  by_cases h : a.startY < a.sliceHeight
  · have hone := hrest 1 (by omega)
    rw [Nat.one_mul] at hone
    rw [if_pos h, hone]
    rw [UInt32.lt_iff_toNat_lt] at h
    refine ⟨fun hfits => ⟨by omega, hfits.2.2⟩, fun hfits => ⟨by decide, rfl, hfits.2⟩⟩
  · rw [if_neg h]
    have hle := UInt32.not_lt.mp h
    rw [UInt32.lt_iff_toNat_lt] at h
    constructor
    · rintro ⟨-, -, -, m, hfirst, hm⟩
      -- the height ready where the window starts is at most a slice behind its first line
      have hbounds : ∀ {r n}, FirstAbove a.sliceHeight a.startY r n → r ≤ a.startY →
          a.startY.toNat < n.toNat ∧ n.toNat ≤ a.startY.toNat + a.sliceHeight.toNat := by
        intro r n h hr
        induction h with
        | here h =>
            rw [UInt32.le_iff_toNat_le] at hr
            rw [UInt32.lt_iff_toNat_lt] at h
            rw [UInt32.toNat_add, Nat.mod_eq_of_lt (by omega)] at h ⊢
            omega
        | later h _ ih => exact ih h
      obtain ⟨hlt, hm_le⟩ := hbounds hfirst hle
      obtain ⟨rfl, hleaves⟩ := hm.resolve_left (by omega)
      have htwo : (2 * a.sliceHeight).toNat = 2 * a.sliceHeight.toNat := by
        rw [UInt32.toNat_mul]
        exact Nat.mod_eq_of_lt (by change 2 * _ < _; omega)
      rw [htwo] at hlt hleaves
      exact ⟨hlt, (hrest 2 hleaves.1).mp hleaves⟩
    · rintro ⟨hlt, hdvd⟩
      have htwo : (2 * a.sliceHeight).toNat = 2 * a.sliceHeight.toNat := by
        rw [UInt32.toNat_mul]
        exact Nat.mod_eq_of_lt (by change 2 * _ < _; omega)
      have hleaves := (hrest 2 (by omega)).mpr hdvd
      refine ⟨?_, hle, ?_, 2 * a.sliceHeight, ?_, .inr ⟨rfl, ?_⟩⟩
      · rw [UInt32.lt_iff_toNat_lt]
        exact lt_of_le_of_lt (Nat.zero_le _) hext
      · exact lt_of_le_of_lt (Nat.mul_le_mul_right _ (by omega)) hsize
      · rw [UInt32.two_mul]
        refine .here ?_
        rw [← UInt32.two_mul, UInt32.lt_iff_toNat_lt, htwo]
        exact hlt
      · rw [htwo]
        exact hleaves

end Window

end ScaleSlices

end Tarako
