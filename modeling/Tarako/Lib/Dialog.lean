import Mathlib.Data.Int.Notation
import Mathlib.Data.List.Basic
import Mathlib.Tactic.SplitIfs

/-!
# Programs that make calls

A program of type `Dialog R α` makes calls `c`, each of which gives a result of type
`R c`, and yields a value in the end. Nothing is assumed about the results: `Yields m t a`
says that `m` makes exactly the calls of `t`, gets the results that `t` gives to them, and
yields `a`. Where the other side of the calls is known, `run` lets a state answer them.
-/

/-- A program that makes calls and yields a value. -/
inductive Dialog {C : Type} (R : C → Type) (α : Type) where
  | done (a : α)
  | call (c : C) (next : R c → Dialog R α)

namespace Dialog

variable {C : Type} {R : C → Type} {α β σ : Type}

abbrev Reply (R : C → Type) : Type := (c : C) × R c

def bind : Dialog R α → (α → Dialog R β) → Dialog R β
  | .done a, f => f a
  | .call c next, f => .call c fun r => (next r).bind f

instance : Monad (Dialog R) where
  pure := .done
  bind := bind

def ask (c : C) : Dialog R (R c) := .call c .done

/-- With the calls and results of `t` the program yields `a`. -/
def Yields : Dialog R α → List (Reply R) → α → Prop
  | .done b, t, a => t = [] ∧ a = b
  | .call c next, t, a => ∃ r rest, t = ⟨c, r⟩ :: rest ∧ (next r).Yields rest a

/-- The run against a state that answers the calls. -/
def run (answer : (c : C) → σ → R c × σ) : Dialog R α → σ → α × σ
  | .done a, s => (a, s)
  | .call c next, s => (next (answer c s).1).run answer (answer c s).2

/-- The calls of a run with their results. -/
def trace (answer : (c : C) → σ → R c × σ) : Dialog R α → σ → List (Reply R)
  | .done _, _ => []
  | .call c next, s => ⟨c, (answer c s).1⟩ :: (next (answer c s).1).trace answer (answer c s).2

/-- The programs of a list in order, up to the first with a result other than 0. -/
def untilError {ι : Type} (step : ι → Dialog R ℤ) : List ι → Dialog R ℤ
  | [] => pure 0
  | i :: rest => do
      let ret ← step i
      if ret ≠ 0 then pure ret else untilError step rest

/-! ### What is yielded -/

variable {t : List (Reply R)}

theorem yields_pure {a b : α} : (pure a : Dialog R α).Yields t b ↔ t = [] ∧ b = a := Iff.rfl

theorem yields_ask {c : C} {r : R c} : (ask c : Dialog R (R c)).Yields t r ↔ t = [⟨c, r⟩] := by
  constructor
  · rintro ⟨_, _, rfl, rfl, rfl⟩
    rfl
  · intro h
    exact ⟨r, [], h, rfl, rfl⟩

theorem yields_bind {m : Dialog R α} {f : α → Dialog R β} {b : β} :
    (m >>= f).Yields t b ↔
      ∃ t₁ a t₂, t = t₁ ++ t₂ ∧ m.Yields t₁ a ∧ (f a).Yields t₂ b := by
  induction m generalizing t with
  | done a =>
      constructor
      · intro h
        exact ⟨[], a, t, rfl, ⟨rfl, rfl⟩, h⟩
      · rintro ⟨_, _, t₂, rfl, ⟨rfl, rfl⟩, h⟩
        exact h
  | call c next ih =>
      constructor
      · rintro ⟨r, rest, rfl, hrest⟩
        obtain ⟨t₁, a, t₂, rfl, hm, hf⟩ := (ih r).mp hrest
        exact ⟨⟨c, r⟩ :: t₁, a, t₂, rfl, ⟨r, t₁, rfl, hm⟩, hf⟩
      · rintro ⟨_, a, t₂, rfl, ⟨r, t₁, rfl, hm⟩, hf⟩
        exact ⟨r, t₁ ++ t₂, rfl, (ih r).mpr ⟨t₁, a, t₂, rfl, hm, hf⟩⟩

theorem yields_ask_bind {c : C} {f : R c → Dialog R β} {b : β} :
    (ask c >>= f).Yields t b ↔ ∃ r rest, t = ⟨c, r⟩ :: rest ∧ (f r).Yields rest b := Iff.rfl

theorem yields_trace (answer : (c : C) → σ → R c × σ) (m : Dialog R α) (s : σ) :
    m.Yields (m.trace answer s) (m.run answer s).1 := by
  induction m generalizing s with
  | done a => exact ⟨rfl, rfl⟩
  | call c next ih => exact ⟨(answer c s).1, _, rfl, ih (answer c s).1 (answer c s).2⟩

theorem forall_mem_of_yields_untilError {ι : Type} {step : ι → Dialog R ℤ} {P : Reply R → Prop}
    (h : ∀ i t ret, (step i).Yields t ret → ∀ e ∈ t, P e) {l : List ι} {ret : ℤ}
    (ht : (untilError step l).Yields t ret) : ∀ e ∈ t, P e := by
  induction l generalizing t with
  | nil =>
      obtain ⟨rfl, -⟩ := yields_pure.mp ht
      exact fun _ he => nomatch he
  | cons i rest ih =>
      obtain ⟨t₁, a, t₂, rfl, hi, hrest⟩ := yields_bind.mp ht
      rw [List.forall_mem_append]
      refine ⟨h i t₁ a hi, ?_⟩
      split_ifs at hrest with ha
      · obtain ⟨rfl, -⟩ := yields_pure.mp hrest
        exact fun _ he => nomatch he
      · exact ih hrest

theorem yields_untilError_zero {ι : Type} {step : ι → Dialog R ℤ} {reply : ι → Reply R}
    (h : ∀ i t, (step i).Yields t 0 ↔ t = [reply i]) {l : List ι} :
    (untilError step l).Yields t 0 ↔ t = l.map reply := by
  induction l generalizing t with
  | nil => exact and_iff_left rfl
  | cons i rest ih =>
      rw [untilError, yields_bind, List.map_cons]
      constructor
      · rintro ⟨t₁, a, t₂, rfl, hi, hrest⟩
        split_ifs at hrest with ha
        · exact absurd (yields_pure.mp hrest).2.symm ha
        · obtain rfl := not_not.mp ha
          rw [(h i t₁).mp hi, ih.mp hrest]
          rfl
      · rintro rfl
        exact ⟨[reply i], 0, rest.map reply, rfl, (h i _).mpr rfl, ih.mpr rfl⟩

/-! ### Runs -/

variable {answer : (c : C) → σ → R c × σ} {s : σ}

@[simp] theorem run_pure (a : α) : (pure a : Dialog R α).run answer s = (a, s) := rfl

@[simp] theorem run_ask (c : C) : (ask c : Dialog R (R c)).run answer s = answer c s := rfl

@[simp] theorem run_bind (m : Dialog R α) (f : α → Dialog R β) :
    (m >>= f).run answer s = (f (m.run answer s).1).run answer (m.run answer s).2 := by
  induction m generalizing s with
  | done a => rfl
  | call c next ih => exact ih (answer c s).1

@[simp] theorem run_ite (p : Prop) [Decidable p] (m m' : Dialog R α) :
    (if p then m else m').run answer s = if p then m.run answer s else m'.run answer s := by
  split_ifs
  · rfl
  · rfl

theorem run_untilError {ι : Type} {step : ι → Dialog R ℤ} {f : ι → σ → σ}
    (h : ∀ i s, (step i).run answer s = (0, f i s)) (l : List ι) (s : σ) :
    (untilError step l).run answer s = (0, l.foldl (fun s i => f i s) s) := by
  induction l generalizing s with
  | nil => rfl
  | cons i rest ih =>
      rw [untilError, run_bind, h, run_ite, if_neg (not_not.mpr rfl), ih]
      rfl

/-- A list of programs ends with 0 if all of them do, where the state of the other side is
always the same. -/
theorem run_untilError_eq_zero_iff [Subsingleton σ] {ι : Type} (step : ι → Dialog R ℤ)
    (l : List ι) (s : σ) : ((untilError step l).run answer s).1 = 0 ↔
      ∀ i ∈ l, ((step i).run answer s).1 = 0 := by
  induction l with
  | nil => exact iff_of_true rfl fun _ hi => nomatch hi
  | cons i rest ih =>
      rw [untilError, run_bind, run_ite, List.forall_mem_cons,
        Subsingleton.elim ((step i).run answer s).2 s]
      by_cases hi : ((step i).run answer s).1 = 0
      · rw [if_neg (not_not.mpr hi), ih]
        exact (and_iff_right hi).symm
      · rw [if_pos hi]
        exact iff_of_false hi fun h => hi h.1

end Dialog
