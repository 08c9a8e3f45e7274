import Tarako.Lib.Prog

/-!
# Computations that consume their input

A `Source` says how a state holds its input, a list of units, and what else is in it.
`Consumes S m d c a c'` is a triple for a computation that reads: started where the rest of the
state is `c` and the input begins with `d`, it takes exactly `d`, yields `a` and leaves the rest
`c'`, whatever follows in the input. `Loops` is the same of a loop that has more turns than units.
-/

namespace Prog

/-- How a state holds its input, and what else is in it. -/
structure Source (σ ι κ : Type) where
  input : σ → List ι
  rest : σ → κ

variable {σ ε α β τ ρ ι κ : Type} {S : Source σ ι κ} {c c' c'' : κ} {d d' : List ι}

/-- `m` takes `d` from the input, and the rest of the state from `c` to `c'`. -/
def Consumes (S : Source σ ι κ) (m : Prog σ ε α) (d : List ι) (c : κ) (a : α) (c' : κ) : Prop :=
  ∀ s r, S.input s = d ++ r → S.rest s = c →
    ∃ t, Yields m s a t ∧ S.input t = r ∧ S.rest t = c'

/-- The loop takes `d`, if it may turn more often than `d` has units. -/
def Loops (S : Source σ ι κ) (body : τ → Prog σ ε (τ ⊕ ρ)) (stuck : ε) (t : τ) (d : List ι)
    (c : κ) (r : ρ) (c' : κ) : Prop :=
  ∀ n, d.length < n → Consumes S (loop body stuck n t) d c r c'

theorem consumes_of_wp {m : Prog σ ε α} {a : α}
    (h : ∀ s r, S.input s = d ++ r → S.rest s = c →
      wp (fun _ => False) m (fun b t => b = a ∧ S.input t = r ∧ S.rest t = c') s) :
    Consumes S m d c a c' := by
  intro s r hin hrest
  obtain ⟨b, t, ht, rfl, hleft⟩ := exists_yields_of_wp (h s r hin hrest)
  exact ⟨t, ht, hleft⟩

theorem consumes_pure (a : α) : Consumes S (pure a : Prog σ ε α) [] c a c :=
  fun s _ hin hrest => ⟨s, rfl, hin, hrest⟩

theorem consumes_bind {m : Prog σ ε α} {f : α → Prog σ ε β} {a : α} {b : β}
    (hm : Consumes S m d c a c') (hf : Consumes S (f a) d' c' b c'') :
    Consumes S (m >>= f) (d ++ d') c b c'' := by
  intro s r hin hrest
  rw [List.append_assoc] at hin
  obtain ⟨u, hu, hinu, hrestu⟩ := hm s (d' ++ r) hin hrest
  obtain ⟨t, ht, hleft⟩ := hf u r hinu hrestu
  exact ⟨t, yields_bind.mpr ⟨a, u, hu, ht⟩, hleft⟩

theorem consumes_stay {m : Prog σ ε α} {f : α → Prog σ ε β} {a : α} {b : β}
    (hm : Consumes S m [] c a c') (hf : Consumes S (f a) d c' b c'') :
    Consumes S (m >>= f) d c b c'' := by
  have h := consumes_bind hm hf
  rwa [List.nil_append] at h

theorem consumes_last {m : Prog σ ε α} {f : α → Prog σ ε β} {a : α} {b : β}
    (hm : Consumes S m d c a c') (hf : Consumes S (f a) [] c' b c'') :
    Consumes S (m >>= f) d c b c'' := by
  have h := consumes_bind hm hf
  rwa [List.append_nil] at h

theorem consumes_check (e : ε) {p : Prop} [Decidable p] (hp : p) :
    Consumes S (check e p : Prog σ ε Unit) [] c () c := by
  rw [check, if_pos hp]
  exact consumes_pure ()

theorem consumes_modify {f : σ → σ} {g : κ → κ} (hin : ∀ s, S.input (f s) = S.input s)
    (hrest : ∀ s, S.rest (f s) = g (S.rest s)) :
    Consumes S (modify f : Prog σ ε PUnit) [] c ⟨⟩ (g c) := by
  intro s r hs hc
  refine ⟨f s, rfl, (hin s).trans hs, ?_⟩
  rw [hrest, hc]

/-- What comes behind `get` knows the rest of the state, and that the input is long enough. -/
theorem consumes_get {f : σ → Prog σ ε β} {b : β}
    (hf : ∀ s, S.rest s = c → d.length ≤ (S.input s).length → Consumes S (f s) d c b c') :
    Consumes S (get >>= f) d c b c' := by
  intro s r hin hrest
  have hlen : d.length ≤ (S.input s).length := by
    rw [hin, List.length_append]
    exact Nat.le_add_right _ _
  obtain ⟨t, ht, hleft⟩ := hf s hrest hlen s r hin hrest
  exact ⟨t, yields_bind.mpr ⟨s, s, rfl, ht⟩, hleft⟩

theorem consumes_pos {p : Prop} [Decidable p] {m m' : Prog σ ε α} {a : α} (hp : p)
    (h : Consumes S m d c a c') : Consumes S (if p then m else m') d c a c' := by
  rw [if_pos hp]
  exact h

theorem consumes_neg {p : Prop} [Decidable p] {m m' : Prog σ ε α} {a : α} (hp : ¬ p)
    (h : Consumes S m' d c a c') : Consumes S (if p then m else m') d c a c' := by
  rw [if_neg hp]
  exact h

/-- A counting loop: turn `j` takes `data j`, and the rest from `state j` to
`state (j + 1)`. -/
theorem consumes_each {body : ℕ → Prog σ ε Unit} (data : ℕ → List ι) (state : ℕ → κ) {k i : ℕ}
    (h : ∀ j, i ≤ j → j < i + k → Consumes S (body j) (data j) (state j) () (state (j + 1))) :
    Consumes S (each body k i) ((List.range' i k).flatMap data) (state i) () (state (i + k)) := by
  induction k generalizing i with
  | zero => exact consumes_pure ()
  | succ k ih =>
      have hfirst := h i (Nat.le_refl i) (by omega)
      have hrest := ih (i := i + 1) (fun j hj hlt => h j (by omega) (by omega))
      rw [List.range'_succ, List.flatMap_cons]
      rw [Nat.add_right_comm] at hrest
      exact consumes_bind hfirst hrest

/-! ## Loops with variables -/

section Loops

variable {body : τ → Prog σ ε (τ ⊕ ρ)} {stuck : ε} {t t' : τ} {r : ρ}

theorem Loops.leave (h : Consumes S (body t) d c (.inr r) c') :
    Loops S body stuck t d c r c' := by
  intro n hn
  cases n with
  | zero => exact absurd hn (Nat.not_lt_zero _)
  | succ n => exact consumes_last h (consumes_pure r)

theorem Loops.turn (h : Consumes S (body t) d c (.inl t') c') (hd : d ≠ [])
    (hrest : Loops S body stuck t' d' c' r c'') : Loops S body stuck t (d ++ d') c r c'' := by
  intro n hn
  have hpos := List.length_pos_iff.mpr hd
  rw [List.length_append] at hn
  cases n with
  | zero => exact absurd hn (Nat.not_lt_zero _)
  | succ n => exact consumes_bind h (hrest n (by omega))

theorem Loops.consumes_get (size : σ → ℕ) (h : Loops S body stuck t d c r c')
    (hsize : ∀ s, size s = (S.input s).length) :
    Consumes S (get >>= fun s => loop body stuck (size s + 1) t) d c r c' :=
  Prog.consumes_get fun s _ hlen => h _ (by rw [hsize]; omega)

end Loops

end Prog
