import Mathlib.Data.List.TakeWhile

/-!
# Tokens between runs of a separator

One call of `strtok` with a single separator: separators in front are skipped, and the
token ends before the next of them or with the text. What is left begins behind that
separator. Where only separators are left there is no token.
-/

namespace Strtok

variable {α : Type*} [DecidableEq α] (c : α)

/-- The next token and what is left. -/
def next (s : List α) : Option (List α × List α) :=
  match s.dropWhile (· = c) with
  | [] => none
  | a :: l => some ((a :: l).takeWhile (· ≠ c), ((a :: l).dropWhile (· ≠ c)).tail)

variable {c}

@[simp] theorem next_cons_self (s : List α) : next c (c :: s) = next c s := by
  rw [next, List.dropWhile_cons_of_pos (by simp)]
  rfl

theorem next_of_head {a : α} (ha : a ≠ c) (s : List α) :
    next c (a :: s) = some ((a :: s).takeWhile (· ≠ c), ((a :: s).dropWhile (· ≠ c)).tail) := by
  rw [next, List.dropWhile_cons_of_neg (by simpa using ha)]

section

variable {f : List α} (hne : f ≠ []) (hf : c ∉ f)

include hne hf

theorem next_append (rest : List α) : next c (f ++ c :: rest) = some (f, rest) := by
  obtain ⟨a, l, rfl⟩ := List.exists_cons_of_ne_nil hne
  have hall : ∀ b ∈ a :: l, decide (b ≠ c) = true := by
    intro b hb
    rw [decide_eq_true_eq]
    rintro rfl
    exact hf hb
  have ha : a ≠ c := of_decide_eq_true (hall a (List.mem_cons_self ..))
  rw [List.cons_append, next_of_head ha, ← List.cons_append,
    List.takeWhile_append_of_pos hall, List.dropWhile_append_of_pos hall,
    List.takeWhile_cons_of_neg (by simp), List.dropWhile_cons_of_neg (by simp), List.append_nil,
    List.tail_cons]

theorem next_self : next c f = some (f, []) := by
  obtain ⟨a, l, rfl⟩ := List.exists_cons_of_ne_nil hne
  have hall : ∀ b ∈ a :: l, decide (b ≠ c) = true := by
    intro b hb
    rw [decide_eq_true_eq]
    rintro rfl
    exact hf hb
  have ha : a ≠ c := of_decide_eq_true (hall a (List.mem_cons_self ..))
  rw [next_of_head ha, List.takeWhile_eq_self_iff.mpr hall, List.dropWhile_eq_nil_iff.mpr hall,
    List.tail_nil]

end

theorem exists_next {s : List α} {b : α} (hb : b ∈ s) (hne : b ≠ c) :
    ∃ token rest, next c s = some (token, rest) := by
  cases hdrop : s.dropWhile (· = c) with
  | nil =>
    have hall := List.dropWhile_eq_nil_iff.mp hdrop b hb
    exact absurd (of_decide_eq_true hall) hne
  | cons a l => exact ⟨_, _, by rw [next, hdrop]⟩

theorem not_mem_of_next {s token rest : List α} (h : next c s = some (token, rest)) :
    c ∉ token := by
  unfold next at h
  cases hdrop : s.dropWhile (· = c) with
  | nil => simp [hdrop] at h
  | cons a l =>
    simp only [hdrop, Option.some.injEq, Prod.mk.injEq] at h
    rw [← h.1]
    intro hmem
    simpa using List.mem_takeWhile_imp hmem

end Strtok
