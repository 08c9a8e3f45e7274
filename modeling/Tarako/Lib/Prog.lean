import Mathlib.Logic.Relation
import Mathlib.Order.Basic
import Mathlib.Tactic.SplitIfs

/-!
# Computations on a state that can stop

A computation of type `Prog σ ε α` runs on a state and either yields a value and the next
state or stops for a reason of type `ε`. `wp E m Q s` says of the run of `m` on `s` that it
stops only for reasons in `E` and that what it yields satisfies `Q`; it has one rule for
each way to build a computation, and each rule is an equivalence. `each` counts through a
loop and `loop` runs a loop with variables of its own, as long as a measure of the state
falls.
-/

/-- A computation with state `σ` that can stop with a reason of type `ε`. -/
abbrev Prog (σ ε α : Type) := StateT σ (Except ε) α

namespace Prog

variable {σ ε τ ρ α β : Type}

def Yields (m : Prog σ ε α) (s : σ) (a : α) (s' : σ) : Prop := m s = .ok (a, s')

/-- The run of `m` on `s` stops only for reasons in `E` and yields only what satisfies `Q`. -/
def wp (E : ε → Prop) (m : Prog σ ε α) (Q : α → σ → Prop) (s : σ) : Prop :=
  match m s with
  | .error e => E e
  | .ok (a, s') => Q a s'

instance {E : ε → Prop} {Q : α → σ → Prop} [DecidablePred E] [∀ a s, Decidable (Q a s)]
    (m : Prog σ ε α) (s : σ) : Decidable (wp E m Q s) :=
  match h : m s with
  | .error e => decidable_of_iff (E e) (by rw [wp, h])
  | .ok (a, s') => decidable_of_iff (Q a s') (by rw [wp, h])

/-- Whenever the computation yields, the states before and after are related. -/
def Keeps (R : σ → σ → Prop) (m : Prog σ ε α) : Prop := ∀ s a s', Yields m s a s' → R s s'

/-- Go on only if `p` holds. -/
def check (e : ε) (p : Prop) [Decidable p] : Prog σ ε Unit := if p then pure () else throw e

/-- `k` turns of a loop, from `i` on. -/
def each (body : ℕ → Prog σ ε Unit) : ℕ → ℕ → Prog σ ε Unit
  | 0, _ => pure ()
  | k + 1, i => do
      body i
      each body k (i + 1)

/-- At most `n` turns of a loop with variables of type `τ`; a turn goes on with their new
values or leaves the loop. -/
def loop (body : τ → Prog σ ε (τ ⊕ ρ)) (stuck : ε) : ℕ → τ → Prog σ ε ρ
  | 0, _ => throw stuck
  | n + 1, t => do
      match ← body t with
      | .inl t' => loop body stuck n t'
      | .inr r => pure r

/-- One turn of the loop, which goes on. -/
def Turn (body : τ → Prog σ ε (τ ⊕ ρ)) (x y : τ × σ) : Prop := Yields (body x.1) x.2 (.inl y.1) y.2

/-- The turns that the loop comes to. -/
def Comes (body : τ → Prog σ ε (τ ⊕ ρ)) : τ × σ → τ × σ → Prop :=
  Relation.ReflTransGen (Turn body)

/-! ## Weakest preconditions -/

variable {E : ε → Prop} {Q : α → σ → Prop} {s : σ}

theorem wp_iff {m : Prog σ ε α} : wp E m Q s ↔
    (∀ e, m s = .error e → E e) ∧ ∀ a s', Yields m s a s' → Q a s' := by
  rw [wp]
  constructor
  · intro h
    constructor
    · intro e he
      rwa [he] at h
    · intro a s' hs'
      rwa [hs'] at h
  · rintro ⟨hstop, hyield⟩
    cases hm : m s with
    | error e => exact hstop e hm
    | ok p => exact hyield p.1 p.2 hm

theorem wp_of_yields {m : Prog σ ε α} {a : α} {s' : σ} (h : Yields m s a s') :
    wp E m Q s ↔ Q a s' := by
  rw [wp, h]

theorem wp_mono {E' : ε → Prop} {Q' : α → σ → Prop} {m : Prog σ ε α} (h : wp E m Q s)
    (hE : ∀ e, E e → E' e) (hQ : ∀ a s', Q a s' → Q' a s') : wp E' m Q' s := by
  rw [wp_iff] at h ⊢
  exact ⟨fun e he => hE e (h.1 e he), fun a s' hs' => hQ a s' (h.2 a s' hs')⟩

theorem wp_congr {m : Prog σ ε α} {Q' : α → σ → Prop} (h : ∀ a s', Q a s' ↔ Q' a s') :
    wp E m Q s ↔ wp E m Q' s :=
  ⟨fun hm => wp_mono hm (fun _ he => he) fun a s' => (h a s').mp,
    fun hm => wp_mono hm (fun _ he => he) fun a s' => (h a s').mpr⟩

theorem wp_and {E' : ε → Prop} {Q' : α → σ → Prop} {m : Prog σ ε α} (h : wp E m Q s)
    (h' : wp E' m Q' s) : wp (fun e => E e ∧ E' e) m (fun a t => Q a t ∧ Q' a t) s := by
  rw [wp_iff] at h h' ⊢
  exact ⟨fun e he => ⟨h.1 e he, h'.1 e he⟩, fun a s' hs' => ⟨h.2 a s' hs', h'.2 a s' hs'⟩⟩

theorem wp_true (m : Prog σ ε α) (s : σ) : wp (fun _ => True) m (fun _ _ => True) s :=
  wp_iff.mpr ⟨fun _ _ => trivial, fun _ _ _ => trivial⟩

theorem exists_yields_of_wp {m : Prog σ ε α} (h : wp (fun _ => False) m Q s) :
    ∃ a s', Yields m s a s' ∧ Q a s' := by
  rw [wp] at h
  cases hm : m s with
  | error e =>
      rw [hm] at h
      exact h.elim
  | ok p =>
      rw [hm] at h
      exact ⟨p.1, p.2, hm, h⟩

@[simp] theorem wp_pure (a : α) : wp E (pure a : Prog σ ε α) Q s ↔ Q a s := Iff.rfl

@[simp] theorem wp_throw (e : ε) : wp E (throw e : Prog σ ε α) Q s ↔ E e := Iff.rfl

@[simp] theorem wp_get {Q : σ → σ → Prop} : wp E (get : Prog σ ε σ) Q s ↔ Q s s := Iff.rfl

@[simp] theorem wp_modify (f : σ → σ) {Q : PUnit → σ → Prop} :
    wp E (modify f : Prog σ ε PUnit) Q s ↔ Q ⟨⟩ (f s) := Iff.rfl

@[simp] theorem wp_bind (m : Prog σ ε α) (f : α → Prog σ ε β) {Q : β → σ → Prop} :
    wp E (m >>= f) Q s ↔ wp E m (fun a => wp E (f a) Q) s := by
  change (match m s >>= fun p => f p.1 p.2 with
    | .error e => E e
    | .ok (b, t) => Q b t) ↔ _
  rw [wp]
  cases m s with
  | error e => exact Iff.rfl
  | ok p => exact Iff.rfl

/-- What comes behind a computation that stops only for reasons in `E`. -/
theorem wp_bind_of_wp {m : Prog σ ε α} (h : wp E m (fun _ _ => True) s)
    (f : α → Prog σ ε β) {Q : β → σ → Prop} :
    wp E (m >>= f) Q s ↔ ∀ a s', Yields m s a s' → wp E (f a) Q s' := by
  rw [wp_bind, wp_iff]
  exact ⟨fun hm => hm.2, fun hm => ⟨(wp_iff.mp h).1, hm⟩⟩

@[simp] theorem wp_map (m : Prog σ ε α) (f : α → β) {Q : β → σ → Prop} :
    wp E (f <$> m) Q s ↔ wp E m (fun a => Q (f a)) s := by
  rw [map_eq_pure_bind, wp_bind]
  exact Iff.rfl

@[simp] theorem wp_check (e : ε) (p : Prop) [Decidable p] {Q : Unit → σ → Prop} :
    wp E (check e p : Prog σ ε Unit) Q s ↔ (p → Q () s) ∧ (¬p → E e) := by
  rw [check]
  split_ifs with hp
  · simp [hp]
  · simp [hp]

@[simp] theorem wp_ite (p : Prop) [Decidable p] (m m' : Prog σ ε α) :
    wp E (if p then m else m') Q s ↔ (p → wp E m Q s) ∧ (¬p → wp E m' Q s) := by
  split_ifs with hp
  · simp [hp]
  · simp [hp]

/-! ## What is yielded -/

theorem yields_pure {a b : α} {t : σ} : Yields (pure a : Prog σ ε α) s b t ↔ b = a ∧ t = s := by
  constructor
  · intro h
    cases h
    exact ⟨rfl, rfl⟩
  · rintro ⟨rfl, rfl⟩
    rfl

theorem not_yields_throw {e : ε} {b : α} {t : σ} : ¬ Yields (throw e : Prog σ ε α) s b t :=
  fun h => nomatch h

theorem yields_bind {m : Prog σ ε α} {f : α → Prog σ ε β} {b : β} {t : σ} :
    Yields (m >>= f) s b t ↔ ∃ a u, Yields m s a u ∧ Yields (f a) u b t := by
  change (m s >>= fun p => f p.1 p.2) = .ok (b, t) ↔ _
  constructor
  · intro h
    cases hm : m s with
    | error e =>
        rw [hm] at h
        cases h
    | ok p =>
        rw [hm] at h
        exact ⟨p.1, p.2, hm, h⟩
  · rintro ⟨a, u, hm, hf⟩
    have hok : m s = .ok (a, u) := hm
    rw [hok]
    exact hf

theorem yields_check {e : ε} {p : Prop} [Decidable p] {u : Unit} {t : σ} :
    Yields (check e p : Prog σ ε Unit) s u t ↔ p ∧ t = s := by
  rw [check]
  split_ifs with hp
  · rw [yields_pure, and_iff_right hp]
    exact and_iff_right rfl
  · exact iff_of_false not_yields_throw fun h => hp h.1

theorem exists_comes_of_yields {body : τ → Prog σ ε (τ ⊕ ρ)} {stuck : ε} {n : ℕ} {t : τ} {r : ρ}
    {u : σ} (h : Yields (loop body stuck n t) s r u) :
    ∃ x, Comes body (t, s) x ∧ Yields (body x.1) x.2 (.inr r) u := by
  induction n generalizing t s with
  | zero => exact absurd h not_yields_throw
  | succ n ih =>
      obtain ⟨a, v, hbody, hrest⟩ := yields_bind.mp h
      cases a with
      | inl t' =>
          obtain ⟨x, hx, hyields⟩ := ih hrest
          have hturn : Turn body (t, s) (t', v) := hbody
          exact ⟨x, .head hturn hx, hyields⟩
      | inr r' =>
          obtain ⟨rfl, rfl⟩ := yields_pure.mp hrest
          exact ⟨(t, s), .refl, hbody⟩

/-! ## What every outcome keeps -/

section Keeps

variable {R : σ → σ → Prop}

theorem keeps_comp {S T : σ → σ → Prop} (h : ∀ a b c, R a b → S b c → T a c)
    {m : Prog σ ε α} {f : α → Prog σ ε β} (hm : Keeps R m) (hf : ∀ a, Keeps S (f a)) :
    Keeps T (m >>= f) := by
  intro s b t hyields
  obtain ⟨a, u, hu, ht⟩ := yields_bind.mp hyields
  exact h s u t (hm s a u hu) (hf a u b t ht)

theorem keeps_iff_wp {m : Prog σ ε α} :
    Keeps R m ↔ ∀ s, wp (fun _ => True) m (fun _ => R s) s := by
  simp only [wp_iff]
  exact ⟨fun h s => ⟨fun _ _ => trivial, h s⟩, fun h s => (h s).2⟩

theorem keeps_bind (htrans : ∀ a b c, R a b → R b c → R a c) {m : Prog σ ε α}
    {f : α → Prog σ ε β} (hm : Keeps R m) (hf : ∀ a, Keeps R (f a)) : Keeps R (m >>= f) :=
  keeps_comp htrans hm hf

theorem keeps_pure (hrefl : ∀ a, R a a) (a : α) : Keeps R (pure a : Prog σ ε α) :=
  keeps_iff_wp.mpr hrefl

theorem keeps_throw (e : ε) : Keeps R (throw e : Prog σ ε α) :=
  keeps_iff_wp.mpr fun _ => trivial

theorem keeps_get (hrefl : ∀ a, R a a) : Keeps R (get : Prog σ ε σ) :=
  keeps_iff_wp.mpr hrefl

theorem keeps_modify {f : σ → σ} (h : ∀ s, R s (f s)) : Keeps R (modify f : Prog σ ε PUnit) :=
  keeps_iff_wp.mpr h

theorem keeps_check (hrefl : ∀ a, R a a) (e : ε) (p : Prop) [Decidable p] :
    Keeps R (check e p : Prog σ ε Unit) := by
  rw [keeps_iff_wp]
  intro s
  rw [wp_check]
  exact ⟨fun _ => hrefl s, fun _ => trivial⟩

theorem keeps_ite {p : Prop} [Decidable p] {m m' : Prog σ ε α} (hm : Keeps R m)
    (hm' : Keeps R m') : Keeps R (if p then m else m') := by
  split_ifs
  · exact hm
  · exact hm'

theorem keeps_each (hrefl : ∀ a, R a a) (htrans : ∀ a b c, R a b → R b c → R a c)
    {body : ℕ → Prog σ ε Unit} (h : ∀ i, Keeps R (body i)) (k i : ℕ) :
    Keeps R (each body k i) := by
  induction k generalizing i with
  | zero => exact keeps_pure hrefl ()
  | succ k ih => exact keeps_bind htrans (h i) fun _ => ih (i + 1)

theorem keeps_loop (hrefl : ∀ a, R a a) (htrans : ∀ a b c, R a b → R b c → R a c)
    {body : τ → Prog σ ε (τ ⊕ ρ)} (h : ∀ t, Keeps R (body t)) (stuck : ε) (n : ℕ) (t : τ) :
    Keeps R (loop body stuck n t) := by
  induction n generalizing t with
  | zero => exact keeps_throw stuck
  | succ n ih =>
      refine keeps_bind htrans (h t) fun x => ?_
      cases x with
      | inl t' => exact ih t'
      | inr r => exact keeps_pure hrefl r

end Keeps

section Maintains

variable {I : σ → Prop} {F : ε → Prop}

/-- The invariant is kept, and a run that fails leaves what satisfies `F`. -/
def Maintains (I : σ → Prop) (F : ε → Prop) (m : Prog σ ε α) : Prop :=
  ∀ s, I s → wp F m (fun _ t => I t) s

theorem maintains_pure (a : α) : Maintains I F (pure a : Prog σ ε α) := fun _ hs => hs

theorem maintains_bind {m : Prog σ ε α} {f : α → Prog σ ε β} (hm : Maintains I F m)
    (hf : ∀ a, Maintains I F (f a)) : Maintains I F (m >>= f) := by
  intro s hs
  rw [wp_bind]
  exact wp_mono (hm s hs) (fun _ he => he) fun a t ht => hf a t ht

theorem maintains_ite {p : Prop} [Decidable p] {m m' : Prog σ ε α} (hm : Maintains I F m)
    (hm' : Maintains I F m') : Maintains I F (if p then m else m') := by
  split_ifs
  · exact hm
  · exact hm'

end Maintains

/-! ## Loops -/

theorem wp_each {body : ℕ → Prog σ ε Unit} {I : σ → Prop} {n : ℕ}
    (h : ∀ i s, i < n → I s → wp E (body i) (fun _ => I) s) {k i : ℕ} (hk : i + k ≤ n)
    (hs : I s) : wp E (each body k i) (fun _ => I) s := by
  induction k generalizing i s with
  | zero => exact hs
  | succ k ih =>
      rw [each, wp_bind]
      exact wp_mono (h i s (by omega) hs) (fun _ he => he) fun _ s' hs' => ih (by omega) hs'

/-- What a loop may do when it is left. -/
def Leaves (Q : ρ → σ → Prop) : τ ⊕ ρ → σ → Prop
  | .inl _, _ => True
  | .inr r, s => Q r s

/-- A loop that lowers a measure does what each of the turns does that it comes to. -/
theorem wp_loop_iff {body : τ → Prog σ ε (τ ⊕ ρ)} {w : τ × σ → ℕ}
    (hw : ∀ x y, Turn body x y → w y < w x) (stuck : ε) {Q : ρ → σ → Prop} {n : ℕ} {t : τ}
    {s : σ} (hn : w (t, s) < n) : wp E (loop body stuck n t) Q s ↔
      ∀ x, Comes body (t, s) x → wp E (body x.1) (Leaves Q) x.2 := by
  induction n generalizing t s with
  | zero => exact absurd hn (Nat.not_lt_zero _)
  | succ n ih =>
      rw [loop, wp_bind]
      constructor
      · intro h x hx
        obtain rfl | ⟨y, hy, hrest⟩ := hx.cases_head
        · refine wp_mono h (fun _ he => he) fun a s' ha => ?_
          cases a with
          | inl t' => trivial
          | inr r => exact ha
        · have hlt : w (y.1, y.2) < w (t, s) := hw (t, s) y hy
          have hy' := (wp_of_yields hy).mp h
          exact (ih (by omega)).mp hy' x hrest
      · intro h
        rw [wp_iff]
        have hhere := wp_iff.mp (h (t, s) .refl)
        refine ⟨hhere.1, fun a s' ha => ?_⟩
        cases a with
        | inl t' =>
            have hturn : Turn body (t, s) (t', s') := ha
            have hlt := hw _ _ hturn
            exact (ih (by omega)).mpr fun x hx => h x (.head hturn hx)
        | inr r => exact hhere.2 (.inr r) s' ha

theorem Comes.of_keeps {body : τ → Prog σ ε (τ ⊕ ρ)} {R : σ → σ → Prop} (hrefl : ∀ a, R a a)
    (htrans : ∀ a b c, R a b → R b c → R a c) (h : ∀ t, Keeps R (body t)) {x y : τ × σ}
    (hxy : Comes body x y) : R x.2 y.2 := by
  induction hxy with
  | refl => exact hrefl x.2
  | tail _ hturn ih => exact htrans _ _ _ ih (h _ _ _ _ hturn)

end Prog
