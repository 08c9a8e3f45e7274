import Tarako.Lib.Renames
import Tarako.Lib.Text

/-!
# Rotation of the log files

`file_name_rotate` renames a log file `base` to `base.1`, `base.1` to `base.2` and so on, the
last file first. `fileNameRotate_spec` says where every content is afterwards, for every set of
files that are there before.
-/

namespace Tarako

namespace Slog

open Run Text Renames

abbrev Files (A : Type*) := List UInt8 → Option A

def MAXROLLLOGS : ℕ := 10

/-- `"%s.%d"`. -/
def rollName (buf : List UInt8) (i : ℕ) : List UInt8 := buf ++ 46 :: decimal i

/-- One turn of the loop of `file_name_rotate`. -/
def rotateTurn {A : Type*} (buf : List UInt8) (fs : Files A) (i : ℕ) : Files A :=
  let file1 := rollName buf i
  let file0 := if i - 1 = 0 then buf else rollName buf (i - 1)
  rename fs file0 file1

def fileNameRotate {A : Type*} (fs : Files A) (buf : List UInt8) : Files A :=
  run (rotateTurn buf) fs (descending MAXROLLLOGS)

/-- `base.i`, where `base.0` is `base`. -/
def indexName (base : List UInt8) (i : ℕ) : List UInt8 :=
  if i = 0 then base else rollName base i

theorem indexName_injective (base : List UInt8) : Function.Injective (indexName base) := by
  have hself : ∀ i, base ≠ rollName base i := by
    intro i h
    have hlen := congrArg List.length h
    rw [rollName, List.length_append, List.length_cons] at hlen
    omega
  intro i j h
  rw [indexName, indexName] at h
  split_ifs at h with hi hj hj
  · rw [hi, hj]
  · exact absurd h (hself j)
  · exact absurd h.symm (hself i)
  · have hdecimal : decimal i = decimal j := by
      simpa [rollName] using h
    rw [← digitsValue_decimal i, hdecimal, digitsValue_decimal]

variable {A : Type*}

theorem rotateTurn_eq (base : List UInt8) {i : ℕ} (hi : 0 < i) (fs : Files A) :
    rotateTurn base fs i = turn (indexName base) fs i := by
  rw [rotateTurn, turn, indexName, indexName, if_neg (Nat.ne_of_gt hi)]

theorem run_rotateTurn_eq {base : List UInt8} {es : List ℕ} (h : ∀ i ∈ es, 0 < i) (fs : Files A) :
    run (rotateTurn base) fs es = run (turn (indexName base)) fs es := by
  induction es generalizing fs with
  | nil => rfl
  | cons i es ih =>
      obtain ⟨hi, hes⟩ := List.forall_mem_cons.mp h
      rw [run_cons, run_cons, rotateTurn_eq base hi, ih hes]

theorem fileNameRotate_eq (fs : Files A) (base : List UInt8) :
    fileNameRotate fs base = run (turn (indexName base)) fs (descending MAXROLLLOGS) :=
  run_rotateTurn_eq (fun _ h => (mem_descending.mp h).1) fs

theorem fileNameRotate_succ (fs : Files A) (base : List UInt8) {i : ℕ} (hi : i < MAXROLLLOGS) :
    fileNameRotate fs base (indexName base (i + 1)) =
      (fs (indexName base i)).or
        (if i + 1 = MAXROLLLOGS then fs (indexName base MAXROLLLOGS) else none) := by
  rw [fileNameRotate_eq]
  by_cases hlast : i + 1 = MAXROLLLOGS
  · rw [if_pos hlast, ← hlast, run_turn_last (indexName_injective base)]
  · rw [if_neg hlast, Option.or_none]
    exact run_turn_of_lt (indexName_injective base) (by omega)

theorem fileNameRotate_base (fs : Files A) (base : List UInt8) :
    fileNameRotate fs base base = none := by
  rw [fileNameRotate_eq]
  exact run_turn_first (indexName_injective base) (by decide)

theorem fileNameRotate_of_ne (fs : Files A) {base name : List UInt8}
    (h : ∀ i ≤ MAXROLLLOGS, name ≠ indexName base i) : fileNameRotate fs base name = fs name := by
  rw [fileNameRotate_eq]
  refine run_turn_of_ne fun i hi => ?_
  have hrange := mem_descending.mp hi
  exact ⟨h (i - 1) (by omega), h i hrange.2⟩

theorem rotateTurn_of_none {fs : Files A} {base : List UInt8} {es es' : List ℕ} {i : ℕ}
    (hturns : descending MAXROLLLOGS = es ++ (i + 1) :: es') (h : fs (indexName base i) = none) :
    rotateTurn base (run (rotateTurn base) fs es) (i + 1) = run (rotateTurn base) fs es := by
  have hpos : ∀ j ∈ es, 0 < j := by
    intro j hj
    refine (mem_descending (n := MAXROLLLOGS).mp ?_).1
    rw [hturns]
    exact List.mem_append_left _ hj
  rw [run_rotateTurn_eq hpos, rotateTurn_eq base (Nat.succ_pos i)]
  exact rename_of_none ((run_turn_source (indexName_injective base) hturns).trans h)

/-- After `file_name_rotate` every file of the chain is one place further and `base` is gone.
The turn of a file that is not there changes nothing, so that its target stays unless it has
been moved before, and every content but that of the last file is still there. -/
theorem fileNameRotate_spec (fs : Files A) (base : List UInt8) :
    (∀ i < MAXROLLLOGS, ∀ c, fs (indexName base i) = some c →
      fileNameRotate fs base (indexName base (i + 1)) = some c) ∧
    fileNameRotate fs base base = none ∧
    (∀ es i es', descending MAXROLLLOGS = es ++ (i + 1) :: es' → fs (indexName base i) = none →
      rotateTurn base (run (rotateTurn base) fs es) (i + 1) = run (rotateTurn base) fs es) ∧
    (∀ i < MAXROLLLOGS, fs (indexName base i) = none →
      fileNameRotate fs base (indexName base (i + 1)) =
        if i + 1 = MAXROLLLOGS then fs (indexName base MAXROLLLOGS) else none) ∧
    ∀ name c, fs name = some c → name ≠ indexName base MAXROLLLOGS →
      (∃ i < MAXROLLLOGS, name = indexName base i ∧
        fileNameRotate fs base (indexName base (i + 1)) = some c) ∨
      (∀ i ≤ MAXROLLLOGS, name ≠ indexName base i) ∧ fileNameRotate fs base name = some c := by
  have hmoved : ∀ i < MAXROLLLOGS, ∀ c, fs (indexName base i) = some c →
      fileNameRotate fs base (indexName base (i + 1)) = some c := by
    intro i hi c hc
    rw [fileNameRotate_succ fs base hi, hc, Option.some_or]
  refine ⟨hmoved, fileNameRotate_base fs base, ?_, ?_, ?_⟩
  · intro es i es' hturns h
    exact rotateTurn_of_none hturns h
  · intro i hi h
    rw [fileNameRotate_succ fs base hi, h, Option.none_or]
  · intro name c hc hlast
    by_cases hname : ∃ i < MAXROLLLOGS, name = indexName base i
    · obtain ⟨i, hi, rfl⟩ := hname
      exact Or.inl ⟨i, hi, rfl, hmoved i hi c hc⟩
    · have hother : ∀ i ≤ MAXROLLLOGS, name ≠ indexName base i := by
        intro i hi heq
        rcases Nat.eq_or_lt_of_le hi with rfl | hlt
        · exact hlast heq
        · exact hname ⟨i, hlt, heq⟩
      refine Or.inr ⟨hother, ?_⟩
      rw [fileNameRotate_of_ne fs hother, hc]

end Slog

end Tarako
