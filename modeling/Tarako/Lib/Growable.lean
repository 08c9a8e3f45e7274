import Mathlib.Algebra.Group.Nat.Defs
import Mathlib.Data.List.Nodup

/-!
# Arrays that grow by doubling

An array in allocated memory, with its length and a recorded capacity. When it is full, the
capacity is doubled and memory for that many elements is asked for; if it is not granted, the
new capacity stays recorded. `sound_add_iff` says when an addition keeps the array inside its
memory.
-/

/-- `entries` are the elements up to the recorded length, `allocated` the number of elements
there is memory for, and `overrun` says that an element has been written outside of it. -/
structure Growable (α : Type*) where
  entries : List α
  size : ℕ
  allocated : ℕ
  overrun : Bool

namespace Growable

/-- The first capacity and the size of an element in bytes. -/
structure Layout where
  first : ℕ
  elemSize : ℕ

variable {α κ : Type*} (c : Layout)

def empty : Growable α where
  entries := []
  size := 0
  allocated := 0
  overrun := false

/-- The capacity of an array that was full. -/
def grownSize (g : Growable α) : ℕ := if g.size = 0 then c.first else g.size * 2

/-- The elements that have room in the memory for `n` of them, asked for in bytes with a
32-bit word. -/
def room (n : ℕ) : ℕ := n * c.elemSize % 2 ^ 32 / c.elemSize

/-- Room for one more element; the result says if the memory has been granted. -/
def reserve (granted : Bool) (g : Growable α) : Growable α × Bool :=
  if g.size ≤ g.entries.length then
    if granted then
      ({ g with size := g.grownSize c, allocated := room c (g.grownSize c) }, true)
    else ({ g with size := g.grownSize c }, false)
  else (g, true)

/-- An element written behind the last one. -/
def push (x : α) (g : Growable α) : Growable α :=
  { g with
    entries := g.entries ++ [x]
    overrun := g.overrun || g.allocated ≤ g.entries.length }

variable [DecidableEq κ] (key : α → κ)

/-- An element with a new key is added; the result says if it has been. -/
def add (granted : Bool) (x : α) (g : Growable α) : Growable α × Bool :=
  if key x ∈ g.entries.map key then (g, false)
  else
    let r := g.reserve c granted
    if r.2 then (r.1.push x, true) else (r.1, false)

/-- All writes stayed in the memory, which has room for the recorded length, and the keys are
distinct. -/
structure Sound (g : Growable α) : Prop where
  length_le : g.entries.length ≤ g.allocated
  inside : g.overrun = false
  nodup : (g.entries.map key).Nodup

/-- There is memory for one more element: an array that is not full has the memory of its
capacity, and what is granted to a full one is enough. -/
def HasRoom (granted : Bool) (g : Growable α) : Prop :=
  if g.size ≤ g.entries.length then granted = true → g.entries.length < room c (g.grownSize c)
  else g.entries.length < g.allocated

omit [DecidableEq κ] in
theorem sound_empty : (empty : Growable α).Sound key :=
  ⟨Nat.le_refl 0, rfl, List.nodup_nil⟩

variable {c} {g : Growable α} {granted : Bool} {x : α}

theorem entries_reserve : (g.reserve c granted).1.entries = g.entries := by
  unfold reserve
  split
  · split <;> rfl
  · rfl

theorem entries_add_of_failed (h : (g.add c key granted x).2 = false) :
    (g.add c key granted x).1.entries = g.entries := by
  unfold add at h ⊢
  by_cases hdup : key x ∈ g.entries.map key
  · rw [if_pos hdup]
  · rw [if_neg hdup] at h ⊢
    dsimp only at h ⊢
    split at h
    · cases h
    · rw [if_neg (by assumption)]
      exact entries_reserve

theorem entries_add_of_added (h : (g.add c key granted x).2 = true) :
    (g.add c key granted x).1.entries = g.entries ++ [x] := by
  unfold add at h ⊢
  by_cases hdup : key x ∈ g.entries.map key
  · rw [if_pos hdup] at h
    cases h
  · rw [if_neg hdup] at h ⊢
    dsimp only at h ⊢
    split at h
    · rw [if_pos (by assumption)]
      exact congrArg (· ++ [x]) entries_reserve
    · cases h

omit [DecidableEq κ] in
/-- An element that is written is inside the memory exactly if it has room there. -/
theorem sound_push_iff (hin : g.overrun = false) (hnodup : (g.entries.map key).Nodup)
    (hnew : key x ∉ g.entries.map key) :
    (g.push x).Sound key ↔ g.entries.length < g.allocated := by
  constructor
  · intro h
    have hinside := h.inside
    simpa [push, hin] using hinside
  · intro hlt
    refine ⟨?_, ?_, ?_⟩
    · rw [push, List.length_append, List.length_singleton]
      exact hlt
    · simp [push, hin, hlt]
    · rw [push, List.map_append, List.map_singleton, List.nodup_append]
      refine ⟨hnodup, List.nodup_singleton _, ?_⟩
      rintro a ha b hb rfl
      rw [List.mem_singleton] at hb
      exact hnew (hb ▸ ha)

/-- An addition keeps the array inside its memory exactly if the element is not new or has
room. -/
theorem sound_add_iff (c : Layout) (h : g.Sound key) (granted : Bool) (x : α) :
    (g.add c key granted x).1.Sound key ↔
      (key x ∉ g.entries.map key → g.HasRoom c granted) := by
  by_cases hdup : key x ∈ g.entries.map key
  · rw [add, if_pos hdup]
    exact iff_of_true h fun hnew => absurd hdup hnew
  · rw [add, if_neg hdup, HasRoom, reserve, imp_iff_right hdup]
    dsimp only
    by_cases hfull : g.size ≤ g.entries.length
    · rw [if_pos hfull, if_pos hfull]
      cases granted with
      | true =>
          rw [if_pos rfl, if_pos rfl, imp_iff_right rfl]
          exact sound_push_iff key h.inside h.nodup hdup
      | false =>
          rw [if_neg Bool.false_ne_true, if_neg Bool.false_ne_true]
          exact iff_of_true ⟨h.length_le, h.inside, h.nodup⟩ fun hcon => by cases hcon
    · rw [if_neg hfull, if_neg hfull, if_pos rfl]
      exact sound_push_iff key h.inside h.nodup hdup

omit [DecidableEq κ] in
theorem map_modify {l : List α} {f : α → α} (hf : ∀ a, key (f a) = key a) (i : ℕ) :
    (l.modify i f).map key = l.map key := by
  refine List.ext_getElem? fun j => ?_
  rw [List.getElem?_map, List.getElem?_map]
  by_cases hij : i = j
  · rw [hij, List.getElem?_modify_eq, Option.map_eq_map, Option.map_map]
    exact congrArg (Option.map · l[j]?) (funext hf)
  · rw [List.getElem?_modify_ne _ _ hij]

omit [DecidableEq κ] in
theorem Sound.modify (h : g.Sound key) {f : α → α} (hf : ∀ a, key (f a) = key a) (i : ℕ) :
    { g with entries := g.entries.modify i f }.Sound key := by
  refine ⟨?_, h.inside, ?_⟩
  · rw [List.length_modify]
    exact h.length_le
  · rw [map_modify key hf]
    exact h.nodup

end Growable
