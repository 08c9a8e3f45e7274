import Mathlib.Data.List.Infix
import Mathlib.Order.Basic

/-!
# Runs of a total step function

A system is a step function `step : σ → ε → σ` from a state and an event of its
environment to the next state; an event the system cannot take leaves the state
as it is. `run step s es` is the state after the events `es`, and
`Meets step P s es` says that every step of that run satisfies the condition `P`
on the state before the step and the event. An invariant is proved for one step
and then holds along every run that meets the condition.
-/

namespace Run

variable {σ ε : Type*}

/-- The state after the events `es`. -/
def run (step : σ → ε → σ) : σ → List ε → σ
  | s, [] => s
  | s, e :: es => run step (step s e) es

/-- Every step of the run from `s` over `es` satisfies `P`. -/
def Meets (step : σ → ε → σ) (P : σ → ε → Prop) : σ → List ε → Prop
  | _, [] => True
  | s, e :: es => P s e ∧ Meets step P (step s e) es

instance decidableMeets {step : σ → ε → σ} {P : σ → ε → Prop} [∀ s e, Decidable (P s e)] :
    ∀ (s : σ) (es : List ε), Decidable (Meets step P s es)
  | _, [] => .isTrue trivial
  | s, e :: es =>
      have : Decidable (Meets step P (step s e) es) := decidableMeets (step s e) es
      inferInstanceAs (Decidable (P s e ∧ Meets step P (step s e) es))

@[simp] theorem run_nil (step : σ → ε → σ) (s : σ) : run step s [] = s := rfl

@[simp] theorem run_cons (step : σ → ε → σ) (s : σ) (e : ε) (es : List ε) :
    run step s (e :: es) = run step (step s e) es := rfl

theorem run_append (step : σ → ε → σ) (s : σ) (es fs : List ε) :
    run step s (es ++ fs) = run step (run step s es) fs := by
  induction es generalizing s with
  | nil => rfl
  | cons e es ih => exact ih (step s e)

theorem meets_cons (step : σ → ε → σ) (P : σ → ε → Prop) (s : σ) (e : ε) (es : List ε) :
    Meets step P s (e :: es) ↔ P s e ∧ Meets step P (step s e) es := Iff.rfl

theorem meets_append (step : σ → ε → σ) (P : σ → ε → Prop) (s : σ) (es fs : List ε) :
    Meets step P s (es ++ fs) ↔
      Meets step P s es ∧ Meets step P (run step s es) fs := by
  induction es generalizing s with
  | nil => simp [Meets]
  | cons e es ih => rw [List.cons_append, meets_cons, meets_cons, run_cons, ih, and_assoc]

theorem Meets.mono {step : σ → ε → σ} {P Q : σ → ε → Prop}
    (hPQ : ∀ s e, P s e → Q s e) {s : σ} {es : List ε} (h : Meets step P s es) :
    Meets step Q s es := by
  induction es generalizing s with
  | nil => trivial
  | cons e es ih => exact ⟨hPQ s e h.1, ih h.2⟩

/-- A condition on the events alone is met by every run over such events. -/
theorem meets_of_forall_mem {step : σ → ε → σ} {P : ε → Prop} {es : List ε}
    (h : ∀ e ∈ es, P e) (s : σ) : Meets step (fun _ e => P e) s es := by
  induction es generalizing s with
  | nil => trivial
  | cons e es ih =>
      obtain ⟨he, hes⟩ := List.forall_mem_cons.mp h
      exact ⟨he, ih hes (step s e)⟩

/-- The induction over a run: what one step that meets `P` preserves holds at
the end of every run that meets `P`. -/
theorem invariant_run {step : σ → ε → σ} {P : σ → ε → Prop} {Inv : σ → Prop}
    (hstep : ∀ s e, P s e → Inv s → Inv (step s e)) {s : σ} {es : List ε}
    (hes : Meets step P s es) (hs : Inv s) : Inv (run step s es) := by
  induction es generalizing s with
  | nil => exact hs
  | cons e es ih => exact ih hes.2 (hstep s e hes.1 hs)

/-- What every step of the run can rely on: `P`, and an invariant that `P` preserves. -/
theorem Meets.of_invariant {step : σ → ε → σ} {P Q : σ → ε → Prop} {Inv : σ → Prop}
    (hstep : ∀ s e, P s e → Inv s → Inv (step s e)) (hPQ : ∀ s e, P s e → Inv s → Q s e)
    {s : σ} {es : List ε} (hes : Meets step P s es) (hs : Inv s) : Meets step Q s es := by
  induction es generalizing s with
  | nil => trivial
  | cons e es ih => exact ⟨hPQ s e hes.1 hs, ih hes.2 (hstep s e hes.1 hs)⟩

/-- The same over every state that the run reaches, the states between its
events included. -/
theorem invariant_prefix {step : σ → ε → σ} {P : σ → ε → Prop} {Inv : σ → Prop}
    (hstep : ∀ s e, P s e → Inv s → Inv (step s e)) {s : σ} {es fs : List ε}
    (hfs : fs <+: es) (hes : Meets step P s es) (hs : Inv s) : Inv (run step s fs) := by
  obtain ⟨gs, rfl⟩ := hfs
  exact invariant_run hstep ((meets_append step P s fs gs).mp hes).1 hs

/-- The runs with `Q` in every state are those that meet `P`, when the steps that meet `P`
keep an invariant which gives `Q`, and out of the invariant only they lead to `Q`. -/
theorem forall_prefix_iff_meets_of_invariant {step : σ → ε → σ} {P : σ → ε → Prop}
    {Inv Q : σ → Prop} (hsub : ∀ s, Inv s → Q s)
    (hstep : ∀ s e, P s e → Inv s → Inv (step s e))
    (hconv : ∀ s e, Inv s → Q (step s e) → P s e) {s : σ} (hs : Inv s) (es : List ε) :
    (∀ fs, fs <+: es → Q (run step s fs)) ↔ Meets step P s es := by
  constructor
  · intro h
    induction es generalizing s with
    | nil => trivial
    | cons e es ih =>
        have he : P s e :=
          hconv s e hs (h [e] ((List.prefix_cons_inj e).mpr List.nil_prefix))
        refine ⟨he, ih (hstep s e he hs) fun fs hfs => ?_⟩
        exact h (e :: fs) ((List.prefix_cons_inj e).mpr hfs)
  · intro h fs hfs
    have hinv := invariant_prefix hstep hfs h hs
    exact hsub _ hinv

/-- When a step keeps `Q` exactly if it meets `P`, the runs that meet `P` are those with
`Q` in every state. -/
theorem forall_prefix_iff_meets {step : σ → ε → σ} {P : σ → ε → Prop} {Inv Q : σ → Prop}
    (hinv : ∀ s e, Inv s → Inv (step s e))
    (hiff : ∀ s e, Inv s → Q s → (Q (step s e) ↔ P s e)) {s : σ} (hs : Inv s) (hq : Q s)
    (es : List ε) : (∀ fs, fs <+: es → Q (run step s fs)) ↔ Meets step P s es :=
  @forall_prefix_iff_meets_of_invariant σ ε step P (fun s => Inv s ∧ Q s) Q (fun _ h => h.2)
    (fun s e hP h => ⟨hinv s e h.1, (hiff s e h.1 h.2).mpr hP⟩)
    (fun s e h => (hiff s e h.1 h.2).mp) s ⟨hs, hq⟩ es

end Run
