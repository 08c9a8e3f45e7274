import Mathlib.Logic.Function.Basic
import Mathlib.Data.List.Pairwise
import Tarako.Lib.Run

/-!
# Renaming files along a chain

Files are a map from names to contents. `turn f` renames `f (i - 1)` to `f i`, and the turns for
`n, …, 1` move every file of the chain `f` one place up. The order of the turns is what keeps
the contents apart: a turn never writes over a file that has not been moved.
-/

namespace Renames

open Run

variable {N A : Type*} [DecidableEq N]

/-- `rename`: a file that is not there changes nothing. -/
def rename (fs : N → Option A) (old new : N) : N → Option A :=
  match fs old with
  | none => fs
  | some c => Function.update (Function.update fs old none) new (some c)

/-- `n, …, 1`. -/
def descending : ℕ → List ℕ
  | 0 => []
  | n + 1 => (n + 1) :: descending n

/-- One turn along the chain `f`. -/
def turn (f : ℕ → N) (fs : N → Option A) (i : ℕ) : N → Option A := rename fs (f (i - 1)) (f i)

variable {fs : N → Option A} {old new name : N} {f : ℕ → N}

theorem rename_of_none (h : fs old = none) : rename fs old new = fs := by
  rw [rename, h]

theorem rename_of_some {c : A} (h : fs old = some c) :
    rename fs old new = Function.update (Function.update fs old none) new (some c) := by
  rw [rename, h]

theorem rename_of_ne (hold : name ≠ old) (hnew : name ≠ new) :
    rename fs old new name = fs name := by
  cases h : fs old with
  | none => rw [rename_of_none h]
  | some c => rw [rename_of_some h, Function.update_of_ne hnew, Function.update_of_ne hold]

theorem rename_new : rename fs old new new = (fs old).or (fs new) := by
  cases h : fs old with
  | none => rw [rename_of_none h, Option.none_or]
  | some c => rw [rename_of_some h, Function.update_self, Option.some_or]

theorem rename_old (hne : old ≠ new) : rename fs old new old = none := by
  cases h : fs old with
  | none => rw [rename_of_none h, h]
  | some c => rw [rename_of_some h, Function.update_of_ne hne, Function.update_self]

theorem mem_descending {n i : ℕ} : i ∈ descending n ↔ 0 < i ∧ i ≤ n := by
  induction n with
  | zero =>
      simp only [descending, List.not_mem_nil, false_iff]
      omega
  | succ n ih =>
      rw [descending, List.mem_cons, ih]
      omega

theorem pairwise_descending (n : ℕ) : (descending n).Pairwise (fun i j => j < i) := by
  induction n with
  | zero => exact List.Pairwise.nil
  | succ n ih =>
      refine List.pairwise_cons.mpr ⟨fun j hj => ?_, ih⟩
      have hle := (mem_descending.mp hj).2
      omega

theorem run_turn_of_ne {es : List ℕ} (h : ∀ i ∈ es, name ≠ f (i - 1) ∧ name ≠ f i) :
    run (turn f) fs es name = fs name := by
  induction es generalizing fs with
  | nil => rfl
  | cons i es ih =>
      obtain ⟨⟨hold, hnew⟩, hes⟩ := List.forall_mem_cons.mp h
      rw [run_cons, ih hes]
      exact rename_of_ne hold hnew

section Chain

variable (hf : Function.Injective f) {n i : ℕ}

include hf

/-- The file that a turn renames is the one that was there at the start. -/
theorem run_turn_source {es es' : List ℕ} (h : descending n = es ++ (i + 1) :: es') :
    run (turn f) fs es (f i) = fs (f i) := by
  have hpairwise := pairwise_descending n
  rw [h, List.pairwise_append] at hpairwise
  refine run_turn_of_ne fun j hj => ?_
  have hlt := hpairwise.2.2 j hj (i + 1) List.mem_cons_self
  refine ⟨fun heq => ?_, fun heq => ?_⟩
  · have hij := hf heq
    omega
  · have hij := hf heq
    omega

/-- The last file of the chain takes the content of the one before it, if there is one. -/
theorem run_turn_last :
    run (turn f) fs (descending (n + 1)) (f (n + 1)) = (fs (f n)).or (fs (f (n + 1))) := by
  rw [descending, run_cons, run_turn_of_ne]
  · exact rename_new
  · intro j hj
    have hle := mem_descending.mp hj
    refine ⟨fun heq => ?_, fun heq => ?_⟩
    · have hij := hf heq
      omega
    · have hij := hf heq
      omega

/-- Every other file of the chain takes the content of the one before it. -/
theorem run_turn_of_lt (h : i + 1 < n) :
    run (turn f) fs (descending n) (f (i + 1)) = fs (f i) := by
  induction n generalizing fs with
  | zero => omega
  | succ n ih =>
      rw [descending, run_cons]
      have hold : f n ≠ f (n + 1) := fun heq => absurd (hf heq) (by omega)
      rcases Nat.eq_or_lt_of_le (Nat.le_of_lt_succ h) with rfl | hlt
      · have hempty : turn f fs (i + 1 + 1) (f (i + 1)) = none := rename_old hold
        have hkeep : turn f fs (i + 1 + 1) (f i) = fs (f i) :=
          rename_of_ne (fun heq => absurd (hf heq) (by omega))
            fun heq => absurd (hf heq) (by omega)
        rw [run_turn_last hf, hempty, hkeep, Option.or_none]
      · have hkeep : turn f fs (n + 1) (f i) = fs (f i) :=
          rename_of_ne (fun heq => absurd (hf heq) (by omega))
            fun heq => absurd (hf heq) (by omega)
        rw [ih hlt, hkeep]

theorem run_turn_first (h : 0 < n) : run (turn f) fs (descending n) (f 0) = none := by
  induction n generalizing fs with
  | zero => omega
  | succ n ih =>
      rw [descending, run_cons]
      by_cases hn : n = 0
      · have hold : f 0 ≠ f 1 := fun heq => absurd (hf heq) (by omega)
        rw [hn]
        exact rename_old hold
      · exact ih (Nat.pos_of_ne_zero hn)

end Chain

end Renames
