import Mathlib.Data.List.Basic

/-!
# Readers of a sequence of items

A reader is a computation on a state that may fail. `Next` says which items a state has
still to offer. A reader of some items takes them from every state that offers them
first; about what it yields something is told when the items are good. Readers that
follow each other read their items one after the other.
-/

namespace TextReader

variable {σ ι α β : Type} (Next : List ι → σ → Prop) (good : ι → Prop)

/-- `m` takes the items `xs`, and what it yields satisfies `Q` when all of them are
good. -/
def Reads (m : StateT σ Option α) (xs : List ι) (Q : α → Prop) : Prop :=
  ∀ ys s, Next (xs ++ ys) s →
    ∃ a s', m s = some (a, s') ∧ Next ys s' ∧ ((∀ x ∈ xs, good x) → Q a)

/-- `n` readings, one after the other. -/
def array (m : StateT σ Option α) : (n : ℕ) → StateT σ Option (Vector α n)
  | 0 => pure #v[]
  | n + 1 => do
      let v ← array m n
      let a ← m
      pure (v.push a)

namespace Reads

variable {Next good} {m : StateT σ Option α} {xs ys : List ι} {Q : α → Prop}

theorem pure {a : α} (h : Q a) : Reads Next good (pure a) [] Q :=
  fun _ s hs => ⟨a, s, rfl, hs, fun _ => h⟩

/-- What comes second must read its items whatever the first has yielded. -/
theorem bind {k : α → StateT σ Option β} {R : β → Prop} (hm : Reads Next good m xs Q)
    (hk : ∀ a, Reads Next good (k a) ys fun b => Q a → R b) :
    Reads Next good (m >>= k) (xs ++ ys) R := by
  intro zs s h
  rw [List.append_assoc] at h
  obtain ⟨a, s', hrun, hnext, ha⟩ := hm (ys ++ zs) s h
  obtain ⟨b, s'', hrun', hnext', hb⟩ := hk a zs s' hnext
  refine ⟨b, s'', ?_, hnext', fun hgood => ?_⟩
  · change (m s).bind (fun p => k p.1 p.2) = _
    rw [hrun]
    exact hrun'
  · exact hb (fun x hx => hgood x (List.mem_append_right _ hx))
      (ha fun x hx => hgood x (List.mem_append_left _ hx))

theorem map {f : α → β} {R : β → Prop} (hm : Reads Next good m xs Q) (h : ∀ a, Q a → R (f a)) :
    Reads Next good (f <$> m) xs R := by
  have hbind := hm.bind (k := fun a => Pure.pure (f a)) (R := R) fun a => pure (h a)
  rwa [List.append_nil, bind_pure_comp] at hbind

theorem array (item : β → ι) (f : β → α) (hm : ∀ b, Reads Next good m [item b] (· = f b)) :
    ∀ {n : ℕ} (v : Vector β n),
      Reads Next good (TextReader.array m n) (v.toList.map item) (· = v.map f)
  | 0, v => by
      obtain rfl : v = #v[] := by simp
      have h : Reads Next good (Pure.pure (#v[] : Vector α 0)) [] (· = #v[]) := pure rfl
      simpa [TextReader.array] using h
  | n + 1, v => by
      have h : Reads Next good (TextReader.array m (n + 1))
          (v.pop.toList.map item ++ ([item v.back] ++ [])) (· = (v.pop.map f).push (f v.back)) :=
        (array item f hm v.pop).bind fun w => (hm v.back).bind fun a => pure (by
          rintro rfl rfl
          rfl)
      rw [← Vector.push_pop_back v, Vector.toList_push, Vector.map_push, List.map_append]
      exact h

end Reads

end TextReader
