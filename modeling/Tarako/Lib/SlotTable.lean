import Mathlib.Data.List.Basic

/-!
# Tables with reusable slots

A table of slots that are free (`none`) or in use, such as the descriptors of a
process. A new entry always takes the lowest free slot, and a freed slot is taken
again by the next entry that finds no lower one.
-/

namespace SlotTable

variable {α : Type*}

/-- What slot `i` holds; a slot past the end is free. -/
def get (t : List (Option α)) (i : ℕ) : Option α := t[i]?.join

def lowestFree (t : List (Option α)) : ℕ := t.findIdx Option.isNone

/-- `a` in the lowest free slot. -/
def alloc (t : List (Option α)) (a : α) : List (Option α) :=
  if lowestFree t < t.length then t.set (lowestFree t) (some a) else t ++ [some a]

def free (t : List (Option α)) (i : ℕ) : List (Option α) := t.set i none

/-- `a` in slot `i`, in a table that grows to hold it. -/
def put (t : List (Option α)) (i : ℕ) (a : α) : List (Option α) :=
  (t ++ List.replicate (i + 1 - t.length) none).set i (some a)

theorem lowestFree_le_length (t : List (Option α)) : lowestFree t ≤ t.length :=
  List.findIdx_le_length

theorem get_of_length_le {t : List (Option α)} {i : ℕ} (h : t.length ≤ i) : get t i = none := by
  rw [get, List.getElem?_eq_none h]
  rfl

theorem mem_of_get {t : List (Option α)} {i : ℕ} {a : α} (h : get t i = some a) : some a ∈ t := by
  have hlt : i < t.length := by
    by_contra hle
    rw [get_of_length_le (Nat.not_lt.mp hle)] at h
    cases h
  rw [get, List.getElem?_eq_getElem hlt, Option.join_some] at h
  exact List.mem_of_getElem h

theorem get_lowestFree (t : List (Option α)) : get t (lowestFree t) = none := by
  by_cases h : lowestFree t < t.length
  · have hnone : t[lowestFree t].isNone := List.findIdx_getElem (w := h)
    rw [get, List.getElem?_eq_getElem h, Option.isNone_iff_eq_none.mp hnone]
    rfl
  · exact get_of_length_le (Nat.not_lt.mp h)

theorem lowestFree_le_of_get {t : List (Option α)} {i : ℕ} (h : get t i = none) :
    lowestFree t ≤ i := by
  by_contra hlt
  have hi : i < t.length :=
    Nat.lt_of_lt_of_le (Nat.not_le.mp hlt) (lowestFree_le_length t)
  have hsome := List.not_of_lt_findIdx (Nat.not_le.mp hlt)
  rw [get, List.getElem?_eq_getElem hi, Option.join_some] at h
  simp [h] at hsome

theorem get_alloc (t : List (Option α)) (a : α) (i : ℕ) :
    get (alloc t a) i = if i = lowestFree t then some a else get t i := by
  rw [alloc]
  by_cases h : lowestFree t < t.length
  · rw [if_pos h, get, List.getElem?_set]
    by_cases hi : i = lowestFree t
    · subst hi
      simp [h]
    · simp [hi, Ne.symm hi, get]
  · have hlen : lowestFree t = t.length :=
      Nat.le_antisymm (lowestFree_le_length t) (Nat.not_lt.mp h)
    rw [if_neg h, hlen, get]
    by_cases hi : i = t.length
    · subst hi
      simp
    · rw [if_neg hi]
      by_cases hlt : i < t.length
      · rw [List.getElem?_append_left hlt, get]
      · rw [get_of_length_le (Nat.not_lt.mp hlt), List.getElem?_eq_none]
        · rfl
        · rw [List.length_append, List.length_singleton]
          omega

theorem get_alloc_of_some {t : List (Option α)} {i : ℕ} {b : α} (h : get t i = some b) (a : α) :
    get (alloc t a) i = some b := by
  have hne : i ≠ lowestFree t := by
    rintro rfl
    rw [get_lowestFree] at h
    cases h
  rw [get_alloc, if_neg hne, h]

theorem get_free (t : List (Option α)) (i j : ℕ) :
    get (free t i) j = if j = i then none else get t j := by
  rw [free, get, List.getElem?_set]
  by_cases hj : j = i
  · subst hj
    by_cases hlt : j < t.length <;> simp [hlt]
  · simp [hj, Ne.symm hj, get]

theorem getElem?_of_get {t : List (Option α)} {i : ℕ} {a : α} (h : get t i = some a) :
    t[i]? = some (some a) :=
  Option.join_eq_some_iff.mp h

theorem get_findIdx {t : List (Option α)} {p : Option α → Bool} {a : α}
    (h : get t (t.findIdx p) = some a) : p (some a) := by
  obtain ⟨hlt, heq⟩ := List.getElem?_eq_some_iff.mp (getElem?_of_get h)
  rw [← heq]
  exact List.findIdx_getElem

theorem exists_get_findIdx {t : List (Option α)} {p : Option α → Bool} (hnone : p none = false)
    {i : ℕ} {a : α} (hi : get t i = some a) (ha : p (some a)) :
    ∃ b, get t (t.findIdx p) = some b := by
  have hlt : t.findIdx p < t.length :=
    List.findIdx_lt_length_of_exists ⟨some a, mem_of_get hi, ha⟩
  have hp : p t[t.findIdx p] := List.findIdx_getElem
  rw [get, List.getElem?_eq_getElem hlt, Option.join_some]
  cases hb : t[t.findIdx p] with
  | none =>
      rw [hb, hnone] at hp
      cases hp
  | some b => exact ⟨b, rfl⟩

theorem lowestFree_lt_iff (t : List (Option α)) :
    lowestFree t < t.length ↔ ∃ i < t.length, get t i = none := by
  constructor
  · intro h
    exact ⟨lowestFree t, h, get_lowestFree t⟩
  · rintro ⟨i, hi, hnone⟩
    rw [get, List.getElem?_eq_getElem hi, Option.join_some] at hnone
    exact List.findIdx_lt_length_of_exists ⟨t[i], List.getElem_mem hi, by simp [hnone]⟩

/-- A table with a free slot has one after another slot is freed. -/
theorem lowestFree_free_lt {t : List (Option α)} (h : lowestFree t < t.length) (i : ℕ) :
    lowestFree (free t i) < (free t i).length := by
  rw [lowestFree_lt_iff] at h ⊢
  obtain ⟨j, hj, hnone⟩ := h
  refine ⟨j, by rwa [free, List.length_set], ?_⟩
  rw [get_free, hnone, ite_self]

theorem get_put (t : List (Option α)) (i : ℕ) (a : α) (j : ℕ) :
    get (put t i a) j = if j = i then some a else get t j := by
  rw [put, get, List.getElem?_set]
  by_cases hj : j = i
  · subst hj
    have hlen : j < (t ++ List.replicate (j + 1 - t.length) none).length := by
      rw [List.length_append, List.length_replicate]
      omega
    simp only [if_true, if_pos hlen, Option.join_some]
  · rw [if_neg (Ne.symm hj), if_neg hj, get]
    by_cases hlt : j < t.length
    · rw [List.getElem?_append_left hlt]
    · rw [List.getElem?_append_right (Nat.not_lt.mp hlt), List.getElem?_replicate,
        List.getElem?_eq_none (Nat.not_lt.mp hlt)]
      split_ifs <;> rfl

end SlotTable
