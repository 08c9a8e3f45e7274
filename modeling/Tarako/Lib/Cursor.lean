import Mathlib.Data.List.Basic
import Mathlib.Data.List.TakeWhile

/-!
# Cursors over a sequence

Searching a sequence from a position on and cutting a range out of it. The position of
what is not found is `none`: as the end of a range it is the end of the sequence, and as
a number it is the greatest of its type, so that adding to it starts again at zero.
-/

namespace Cursor

variable {ε α : Type*}

/-- `k` positions behind `p`, for `k` that is not zero. -/
def advance (p : Option ℕ) (k : ℕ) : ℕ :=
  match p with
  | some i => i + k
  | none => k - 1

/-- The elements from `pos` to the end of the range; a range that starts behind the
sequence is an error. -/
def substr (outOfRange : ε) (s : List α) (pos : ℕ) (stop : Option ℕ) :
    Except ε (List α) :=
  if pos ≤ s.length then
    .ok (match stop with
      | some q => (s.drop pos).take (q - pos)
      | none => s.drop pos)
  else .error outOfRange

/-- A prefix without `c` of a sequence that has `c` behind `l` is a prefix of `l`. -/
theorem prefix_of_not_mem {c : α} {t l post : List α} (ht : t <+: l ++ c :: post)
    (hc : c ∉ t) : t <+: l := by
  rcases List.prefix_or_prefix_of_prefix ht (List.prefix_append l _) with h | ⟨m, rfl⟩
  · exact h
  · obtain ⟨n, hn⟩ := ht
    rw [List.append_assoc, List.append_cancel_left_eq] at hn
    cases m with
    | nil => simp
    | cons a m =>
      obtain ⟨rfl, -⟩ := List.cons.inj hn
      exact absurd (by simp) hc

theorem forall_not_mem_singleton {c : α} {s : List α} (h : c ∉ s) : ∀ a ∈ s, a ∉ [c] := by
  intro a ha
  rw [List.mem_singleton]
  rintro rfl
  exact h ha

section

variable (e : ε)

theorem substr_append (pre mid post : List α) :
    substr e (pre ++ (mid ++ post)) pre.length (some (pre.length + mid.length)) = .ok mid := by
  rw [substr, if_pos (by simp)]
  simp

theorem substr_append_none (pre post : List α) :
    substr e (pre ++ post) pre.length none = .ok post := by
  rw [substr, if_pos (by simp)]
  simp

end

variable [DecidableEq α]

/-- The first position from `pos` on at which one of `set` stands. -/
def findFirstOf (set s : List α) (pos : ℕ) : Option ℕ :=
  ((s.drop pos).findIdx? (· ∈ set)).map (pos + ·)

theorem findFirstOf_eq_none {set s : List α} (h : ∀ a ∈ s, a ∉ set) (pos : ℕ) :
    findFirstOf set s pos = none := by
  rw [findFirstOf, Option.map_eq_none_iff, List.findIdx?_eq_none_iff]
  intro a ha
  simpa using h a (List.mem_of_mem_drop ha)

/-- A search that starts where the known part of the sequence ends stops at the first
element it looks for. -/
theorem findFirstOf_append (set pre : List α) {mid : List α} (hmid : ∀ a ∈ mid, a ∉ set)
    {c : α} (hc : c ∈ set) (post : List α) :
    findFirstOf set (pre ++ (mid ++ c :: post)) pre.length
      = some (pre.length + mid.length) := by
  have hfind : (mid ++ c :: post).findIdx? (· ∈ set) = some mid.length := by
    rw [List.findIdx?_append, List.findIdx?_eq_none_iff.mpr (by simpa using hmid)]
    simp [List.findIdx?_cons, hc]
  rw [findFirstOf, List.drop_left, hfind, Option.map_some]

/-- A sequence in two parts: what stands before the first of `set`, and the rest. -/
theorem exists_cut (set l : List α) : ∃ mid rest, l = mid ++ rest ∧ (∀ a ∈ mid, a ∉ set) ∧
    ∀ c ∈ rest.head?, c ∈ set := by
  refine ⟨l.takeWhile (· ∉ set), l.dropWhile (· ∉ set),
    (List.takeWhile_append_dropWhile ..).symm, ?_, ?_⟩
  · intro a ha
    simpa using List.mem_takeWhile_imp ha
  · intro c hc
    have hhead := List.head?_dropWhile_not (fun a => decide (a ∉ set)) l
    rw [Option.mem_def.mp hc] at hhead
    simpa using hhead

section

variable (set pre : List α) {mid rest : List α} (hmid : ∀ a ∈ mid, a ∉ set)
  (hrest : ∀ c ∈ rest.head?, c ∈ set)

include hmid hrest

theorem findFirstOf_cut : findFirstOf set (pre ++ (mid ++ rest)) pre.length
    = if rest = [] then none else some (pre.length + mid.length) := by
  cases rest with
  | nil =>
    have hnone : mid.findIdx? (· ∈ set) = none := by
      rw [List.findIdx?_eq_none_iff]
      simpa using hmid
    rw [if_pos rfl, List.append_nil, findFirstOf, List.drop_left, hnone, Option.map_none]
  | cons c post =>
    rw [if_neg (List.cons_ne_nil c post)]
    exact findFirstOf_append set pre hmid (hrest c rfl) post

theorem substr_cut {ε : Type*} (e : ε) : substr e (pre ++ (mid ++ rest)) pre.length
    (findFirstOf set (pre ++ (mid ++ rest)) pre.length) = .ok mid := by
  rw [findFirstOf_cut set pre hmid hrest]
  cases rest with
  | nil => simpa using substr_append_none e pre mid
  | cons c post => exact substr_append e pre mid (c :: post)

end

/-- The part of a sequence before the first of `set` can be cut out. -/
theorem exists_substr_findFirstOf {ε : Type*} (e : ε) (set s : List α) :
    ∃ t, substr e s 0 (findFirstOf set s 0) = .ok t ∧ t <+: s ∧ ∀ a ∈ t, a ∉ set := by
  obtain ⟨mid, rest, rfl, hmid, hrest⟩ := exists_cut set s
  exact ⟨mid, substr_cut set [] hmid hrest e, List.prefix_append mid rest, hmid⟩

end Cursor
