import Mathlib.Data.List.Basic

/-!
# A file in pieces

What the calls of `read` on a file deliver: the pieces of the file in their order, with an
empty one where a call fails. A call takes at most what it asks for, and the rest of a piece
is left for the next one; behind the last piece every call finds the end of the file.
-/

namespace Pieces

variable {α : Type*}

/-- A call that asks for `n` elements, and the pieces it leaves. -/
def read (n : ℕ) : List (List α) → List α × List (List α)
  | [] => ([], [])
  | piece :: rest =>
      if piece.length ≤ n then (piece, rest) else (piece.take n, piece.drop n :: rest)

/-- What can be read before a call fails. -/
def readable : List (List α) → List α
  | [] => []
  | [] :: _ => []
  | (a :: piece) :: rest => a :: piece ++ readable rest

/-- Calls that ask for what is missing of `n` elements, until one of them delivers nothing;
each of them delivers an element at least. -/
def fill : ℕ → ℕ → List (List α) → List α × List (List α)
  | 0, _, pieces => ([], pieces)
  | fuel + 1, n, pieces =>
      match read n pieces with
      | ([], rest) => ([], rest)
      | (a :: got, rest) =>
          if n - (a :: got).length = 0 then (a :: got, rest)
          else
            let more := fill fuel (n - (a :: got).length) rest
            (a :: got ++ more.1, more.2)

variable {n fuel : ℕ} {pieces : List (List α)}

theorem readable_of_forall_ne_nil (h : ∀ piece ∈ pieces, piece ≠ []) :
    readable pieces = pieces.flatten := by
  induction pieces with
  | nil => rfl
  | cons piece rest ih =>
      obtain ⟨hne, hrest⟩ := List.forall_mem_cons.mp h
      obtain ⟨a, piece, rfl⟩ := List.exists_cons_of_ne_nil hne
      rw [readable, ih hrest, List.flatten_cons]

theorem readable_prefix_flatten (pieces : List (List α)) :
    readable pieces <+: pieces.flatten := by
  induction pieces with
  | nil => exact List.prefix_rfl
  | cons piece rest ih =>
      cases piece with
      | nil => exact List.nil_prefix
      | cons a piece =>
          rw [readable, List.flatten_cons]
          exact (List.prefix_append_right_inj _).mpr ih

theorem read_flatten (n : ℕ) (pieces : List (List α)) :
    (read n pieces).1 ++ (read n pieces).2.flatten = pieces.flatten := by
  cases pieces with
  | nil => rfl
  | cons piece rest =>
      rw [read]
      split_ifs with hle
      · rfl
      · rw [List.flatten_cons, ← List.append_assoc, List.take_append_drop, List.flatten_cons]

/-- A call delivers the start of what can be read, or nothing when that is nothing. -/
theorem read_cases (hn : 0 < n) (pieces : List (List α)) :
    (∃ rest, read n pieces = ([], rest) ∧ readable pieces = []) ∨
      ∃ a got rest, read n pieces = (a :: got, rest) ∧ (a :: got).length ≤ n ∧
        readable pieces = a :: got ++ readable rest := by
  cases pieces with
  | nil => exact .inl ⟨[], rfl, rfl⟩
  | cons piece rest =>
      cases piece with
      | nil =>
          have hle : ([] : List α).length ≤ n := Nat.zero_le n
          exact .inl ⟨rest, by rw [read, if_pos hle], rfl⟩
      | cons a piece =>
          right
          by_cases hle : (a :: piece).length ≤ n
          · exact ⟨a, piece, rest, if_pos hle, hle, rfl⟩
          · obtain ⟨n, rfl⟩ : ∃ m, n = m + 1 := ⟨n - 1, by omega⟩
            have hdrop : (a :: piece).drop (n + 1) ≠ [] := by
              rw [ne_eq, List.drop_eq_nil_iff]
              exact hle
            obtain ⟨b, behind, hbehind⟩ := List.exists_cons_of_ne_nil hdrop
            refine ⟨a, piece.take n, _, if_neg hle, List.length_take_le (n + 1) (a :: piece), ?_⟩
            rw [hbehind, readable, readable, ← hbehind, ← List.append_assoc]
            exact congrArg (· ++ readable rest) (List.take_append_drop (n + 1) (a :: piece)).symm

/-- The calls take what can be read, up to `n` elements, and leave the rest when that was
enough. -/
theorem fill_spec (hn : 0 < n) (hfuel : n ≤ fuel) (pieces : List (List α)) :
    (fill fuel n pieces).1 = (readable pieces).take n ∧
      (n ≤ (readable pieces).length →
        readable (fill fuel n pieces).2 = (readable pieces).drop n) := by
  induction fuel generalizing n pieces with
  | zero => exact absurd hfuel (Nat.not_le.mpr hn)
  | succ fuel ih =>
      obtain ⟨rest, hread, hnone⟩ | ⟨a, got, rest, hread, hlength, hsome⟩ := read_cases hn pieces
      · rw [fill, hread, hnone]
        refine ⟨List.take_nil.symm, fun hle => ?_⟩
        exact absurd hle (Nat.not_le.mpr hn)
      · have htake : (a :: got ++ readable rest).take n =
            a :: got ++ (readable rest).take (n - (a :: got).length) := by
          rw [List.take_append, List.take_of_length_le hlength]
        have hdrop : (a :: got ++ readable rest).drop n =
            (readable rest).drop (n - (a :: got).length) := by
          rw [List.drop_append, List.drop_of_length_le hlength, List.nil_append]
        rw [fill, hread, hsome, htake, hdrop]
        simp only
        split_ifs with hzero
        · rw [hzero, List.take_zero, List.append_nil]
          exact ⟨rfl, fun _ => rfl⟩
        · obtain ⟨hmore, hleft⟩ := ih (Nat.pos_of_ne_zero hzero)
            (by rw [List.length_cons]; omega) rest
          refine ⟨congrArg (a :: got ++ ·) hmore, fun hle => hleft ?_⟩
          rw [List.length_append] at hle
          omega

end Pieces
