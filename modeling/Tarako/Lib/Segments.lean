import Mathlib.Data.List.Basic
import Mathlib.Data.List.DropRight

/-!
# Segments of a stream

The segments of a list are what stands between the elements that end one; `ended p l` are the
segments that have ended and are not empty, in their order, and `closed p l` is the list up to the
end of the last one.
-/

namespace Segments

variable {α : Type*} (p : α → Bool)

def ended (l : List α) : List (List α) := (l.splitOnP p).dropLast.filter fun s => !s.isEmpty

def closed (l : List α) : List α := l.rdropWhile fun a => !p a

variable {p} {s l : List α} {a : α}

@[simp] theorem ended_nil : ended p [] = [] := by
  simp [ended, List.splitOnP_nil]

theorem ended_append_cons (hs : ∀ b ∈ s, p b = false) (ha : p a = true) :
    ended p (s ++ a :: l) = (if s = [] then [] else [s]) ++ ended p l := by
  have hone : s.splitOnP p = [s] := List.splitOnP_eq_singleton hs
  have hne : l.splitOnP p ≠ [] := List.splitOnP_ne_nil p l
  rw [ended, List.splitOnP_append_cons s l ha, hone, List.singleton_append,
    List.dropLast_cons_of_ne_nil hne, ended]
  by_cases hnil : s = []
  · subst hnil
    rfl
  · rw [if_neg hnil, List.filter_cons_of_pos (by simpa using hnil)]
    rfl

theorem ended_of_forall (h : ∀ b ∈ l, p b = false) : ended p l = [] := by
  rw [ended, List.splitOnP_eq_singleton h]
  rfl

theorem ended_cons_of_pos (ha : p a = true) : ended p (a :: l) = ended p l :=
  ended_append_cons (fun _ hb => absurd hb List.not_mem_nil) ha

theorem ended_dropWhile_append (s l : List α) :
    ended p (s.dropWhile p ++ l) = ended p (s ++ l) := by
  induction s with
  | nil => rfl
  | cons a s ih =>
      by_cases ha : p a = true
      · rw [List.dropWhile_cons_of_pos ha, ih, List.cons_append, ended_cons_of_pos ha]
      · rw [List.dropWhile_cons_of_neg ha]

/-- No element ends a segment, or there is a first one that does. -/
theorem exists_first (l : List α) :
    (∀ b ∈ l, p b = false) ∨
      ∃ s a t, l = s ++ a :: t ∧ (∀ b ∈ s, p b = false) ∧ p a = true := by
  cases hfind : l.find? p with
  | none =>
      left
      intro b hb
      exact Bool.eq_false_iff.mpr (List.find?_eq_none.mp hfind b hb)
  | some a =>
      right
      obtain ⟨ha, s, t, hl, hs⟩ := List.find?_eq_some_iff_append.mp hfind
      exact ⟨s, a, t, hl, fun b hb => by simpa using hs b hb, ha⟩

theorem closed_of_forall (h : ∀ b ∈ l, p b = false) : closed p l = [] := by
  rw [closed, List.rdropWhile_eq_nil_iff]
  intro b hb
  rw [h b hb]
  rfl

theorem closed_append_cons (s : List α) (ha : p a = true) :
    closed p (s ++ a :: l) = s ++ a :: closed p l := by
  have hsplit : (s ++ a :: l).reverse = l.reverse ++ a :: s.reverse := by
    rw [List.reverse_append, List.reverse_cons, List.append_assoc, List.singleton_append]
  have hstop : (a :: s.reverse).dropWhile (fun b => !p b) = a :: s.reverse :=
    List.dropWhile_cons_of_neg (by rw [ha]; decide)
  rw [closed, closed, List.rdropWhile, List.rdropWhile, hsplit, List.dropWhile_append, hstop]
  split_ifs with hempty
  · rw [List.isEmpty_iff.mp hempty, List.reverse_cons, List.reverse_reverse]
    rfl
  · rw [List.reverse_append, List.reverse_cons, List.reverse_reverse, List.append_assoc,
      List.singleton_append]

/-- What is before the last end belongs to the closed part, whether it ends a segment or not. -/
theorem closed_cons_of_mem {b : α} (hb : b ∈ a :: l) (hend : p b = true) :
    closed p (a :: l) = a :: closed p l := by
  rcases List.mem_cons.mp hb with rfl | hmem
  · exact closed_append_cons [] hend
  · obtain ⟨s, t, rfl⟩ := List.append_of_mem hmem
    rw [closed_append_cons s hend]
    exact closed_append_cons (a :: s) hend

end Segments
