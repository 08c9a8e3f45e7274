import Tarako.Lib.Prog

/-!
# What a computation cannot tell apart

`Respects R m` says that `m` does the same on states that `R` relates: it stops for the same
reason, or yields the same value and states that `R` relates again. There is a rule for each way
to build a computation. `loop_eq_of_lt` is about the number of turns that a loop may have.
-/

namespace Prog

variable {σ ε α β τ ρ : Type} {R : σ → σ → Prop}

/-- The outcomes of two runs are the same, but for what `R` relates. -/
inductive Alike (R : σ → σ → Prop) : Except ε (α × σ) → Except ε (α × σ) → Prop
  | stopped (e : ε) : Alike R (.error e) (.error e)
  | yielded (a : α) {s t : σ} (h : R s t) : Alike R (.ok (a, s)) (.ok (a, t))

def Respects (R : σ → σ → Prop) (m : Prog σ ε α) : Prop := ∀ s t, R s t → Alike R (m s) (m t)

/-- What comes behind a computation matters only where that yields. -/
theorem bind_apply_congr {m : Prog σ ε α} {f g : α → Prog σ ε β} {s : σ}
    (h : ∀ a t, Yields m s a t → f a t = g a t) : (m >>= f) s = (m >>= g) s := by
  change (m s >>= fun p => f p.1 p.2) = (m s >>= fun p => g p.1 p.2)
  cases hm : m s with
  | error e => rfl
  | ok p => exact h p.1 p.2 hm

theorem bind_apply_of_yields {m : Prog σ ε α} {f : α → Prog σ ε β} {s t : σ} {a : α}
    (h : Yields m s a t) : (m >>= f) s = f a t := by
  have hok : m s = .ok (a, t) := h
  change (m s >>= fun p => f p.1 p.2) = _
  rw [hok]
  rfl

theorem respects_pure (a : α) : Respects R (pure a : Prog σ ε α) := fun _ _ h => .yielded a h

theorem respects_throw (e : ε) : Respects R (throw e : Prog σ ε α) := fun _ _ _ => .stopped e

theorem respects_bind {m : Prog σ ε α} {f : α → Prog σ ε β} (hm : Respects R m)
    (hf : ∀ a, Respects R (f a)) : Respects R (m >>= f) := by
  intro s t hst
  have halike := hm s t hst
  change Alike R (m s >>= fun p => f p.1 p.2) (m t >>= fun p => f p.1 p.2)
  generalize m s = x at halike ⊢
  generalize m t = y at halike ⊢
  cases halike with
  | stopped e => exact .stopped e
  | yielded a hR => exact hf a _ _ hR

theorem respects_get {f : σ → Prog σ ε β} (hsame : ∀ s t, R s t → f s = f t)
    (hf : ∀ s, Respects R (f s)) : Respects R (get >>= f) := by
  intro s t hst
  change Alike R (f s s) (f t t)
  rw [hsame s t hst]
  exact hf t s t hst

theorem respects_modify {f : σ → σ} (hf : ∀ s t, R s t → R (f s) (f t)) :
    Respects R (modify f : Prog σ ε PUnit) := by
  intro s t hst
  have halike : Alike R (.ok (PUnit.unit, f s) : Except ε (PUnit × σ)) (.ok (PUnit.unit, f t)) :=
    .yielded _ (hf s t hst)
  exact halike

theorem respects_ite {p : Prop} [Decidable p] {m m' : Prog σ ε α} (hm : Respects R m)
    (hm' : Respects R m') : Respects R (if p then m else m') := by
  split_ifs
  · exact hm
  · exact hm'

theorem respects_check (e : ε) (p : Prop) [Decidable p] :
    Respects R (check e p : Prog σ ε Unit) := respects_ite (respects_pure ()) (respects_throw e)

theorem respects_each {body : ℕ → Prog σ ε Unit} (h : ∀ i, Respects R (body i)) (k i : ℕ) :
    Respects R (each body k i) := by
  induction k generalizing i with
  | zero => exact respects_pure ()
  | succ k ih => exact respects_bind (h i) fun _ => ih (i + 1)

theorem respects_loop {body : τ → Prog σ ε (τ ⊕ ρ)} (h : ∀ t, Respects R (body t)) (stuck : ε)
    (n : ℕ) (t : τ) : Respects R (loop body stuck n t) := by
  induction n generalizing t with
  | zero => exact respects_throw stuck
  | succ n ih =>
      refine respects_bind (h t) fun x => ?_
      cases x with
      | inl t' => exact ih t'
      | inr r => exact respects_pure r

theorem loop_of_turn {body : τ → Prog σ ε (τ ⊕ ρ)} {n : ℕ} {t t' : τ} {s u : σ}
    (h : Yields (body t) s (.inl t') u) (stuck : ε) :
    loop body stuck (n + 1) t s = loop body stuck n t' u := by
  rw [loop]
  exact bind_apply_of_yields h

/-- How often a loop that lowers a measure may turn does not matter. -/
theorem loop_eq_of_lt {body : τ → Prog σ ε (τ ⊕ ρ)} {w : τ × σ → ℕ}
    (hw : ∀ x y, Turn body x y → w y < w x) (stuck : ε) {n k : ℕ} {t : τ} {s : σ}
    (hn : w (t, s) < n) (hk : w (t, s) < k) : loop body stuck n t s = loop body stuck k t s := by
  induction n generalizing k t s with
  | zero => exact absurd hn (Nat.not_lt_zero _)
  | succ n ih =>
      cases k with
      | zero => exact absurd hk (Nat.not_lt_zero _)
      | succ k =>
          refine bind_apply_congr fun x u hturn => ?_
          cases x with
          | inl t' =>
              have hlt : w (t', u) < w (t, s) := hw (t, s) (t', u) hturn
              exact ih (by omega) (by omega)
          | inr r => rfl

end Prog
