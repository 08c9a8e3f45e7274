import Mathlib.Data.List.TakeWhile
import Mathlib.Data.List.Count

/-!
# Fields between runs of a separator

A text is split at the first run of a separator, again and again; the last field is the
rest of the text and can hold separators. `join` writes the fields with one separator
between two of them, and `split` reads them back.
-/

namespace Fields

variable {α : Type*} (c : α)

/-- The fields `fs` and `last` with one separator between two of them. -/
def join (fs : List (List α)) (last : List α) : List α :=
  fs.foldr (fun f text => f ++ c :: text) last

section Split

variable [DecidableEq α]

/-- The text before the first separator, and what follows the run that begins there. -/
def next (src : List α) : Option (List α × List α) :=
  match src.dropWhile (· ≠ c) with
  | [] => none
  | rest => some (src.takeWhile (· ≠ c), rest.dropWhile (· = c))

/-- The first `n` fields and the rest. -/
def split : ℕ → List α → Option (List (List α) × List α)
  | 0, src => some ([], src)
  | n + 1, src =>
      (next c src).bind fun field =>
        (split n field.2).map fun fields => (field.1 :: fields.1, fields.2)

end Split

variable {c}

@[simp] theorem join_nil (last : List α) : join c [] last = last := rfl

@[simp] theorem join_cons (f : List α) (fs : List (List α)) (last : List α) :
    join c (f :: fs) last = f ++ c :: join c fs last := rfl

theorem join_append (fs : List (List α)) (last m : List α) :
    join c fs (last ++ m) = join c fs last ++ m := by
  induction fs with
  | nil => rfl
  | cons f fs ih => rw [join_cons, join_cons, ih, List.append_assoc, List.cons_append]

theorem mem_join {a : α} {fs : List (List α)} {last : List α} (h : a ∈ join c fs last) :
    a = c ∨ (∃ f ∈ fs, a ∈ f) ∨ a ∈ last := by
  induction fs with
  | nil => exact Or.inr (Or.inr h)
  | cons f fs ih =>
    rw [join_cons, List.mem_append, List.mem_cons] at h
    rcases h with h | h | h
    · exact Or.inr (Or.inl ⟨f, List.mem_cons_self .., h⟩)
    · exact Or.inl h
    · refine (ih h).imp id (Or.imp_left ?_)
      rintro ⟨g, hg, hmem⟩
      exact ⟨g, List.mem_cons_of_mem f hg, hmem⟩

variable [DecidableEq α]

theorem exists_replicate_append_dropWhile (l : List α) :
    ∃ k, l = List.replicate k c ++ l.dropWhile (· = c) ∧ (l.dropWhile (· = c)).head? ≠ some c := by
  refine ⟨(l.takeWhile (· = c)).length, ?_, ?_⟩
  · have hrun : l.takeWhile (· = c) = List.replicate (l.takeWhile (· = c)).length c :=
      List.eq_replicate_of_mem fun b hb => by simpa using List.mem_takeWhile_imp hb
    rw [← hrun, List.takeWhile_append_dropWhile]
  · intro hhead
    have hnot := List.head?_dropWhile_not (fun b => decide (b = c)) l
    rw [hhead] at hnot
    simp at hnot

theorem next_eq_some {src f rest : List α} (h : next c src = some (f, rest)) :
    ∃ k, src = f ++ c :: (List.replicate k c ++ rest) ∧ c ∉ f ∧ rest.head? ≠ some c := by
  unfold next at h
  cases hdrop : src.dropWhile (· ≠ c) with
  | nil =>
      rw [hdrop] at h
      cases h
  | cons b tail =>
      rw [hdrop] at h
      obtain ⟨rfl, rfl⟩ := Prod.mk.inj (Option.some.inj h)
      have hb : b = c := by
        have hnot := List.head?_dropWhile_not (fun b => decide (b ≠ c)) src
        rw [hdrop] at hnot
        simpa using hnot
      subst hb
      obtain ⟨k, htail, hhead⟩ := exists_replicate_append_dropWhile (c := b) tail
      have hcons : (b :: tail).dropWhile (· = b) = tail.dropWhile (· = b) :=
        List.dropWhile_cons_of_pos (by simp)
      refine ⟨k, ?_, ?_, hcons ▸ hhead⟩
      · rw [hcons, ← htail, ← hdrop, List.takeWhile_append_dropWhile]
      · intro hmem
        have hne := List.mem_takeWhile_imp hmem
        simp at hne

theorem next_append {f : List α} (hf : c ∉ f) (rest : List α) (hrest : rest.head? ≠ some c) :
    next c (f ++ c :: rest) = some (f, rest) := by
  have hne : ∀ b ∈ f, (decide (b ≠ c)) = true := by
    intro b hb
    rw [decide_eq_true_eq]
    rintro rfl
    exact hf hb
  have hdrop : (f ++ c :: rest).dropWhile (· ≠ c) = c :: rest := by
    rw [List.dropWhile_append_of_pos hne, List.dropWhile_cons_of_neg (by simp)]
  have htake : (f ++ c :: rest).takeWhile (· ≠ c) = f := by
    rw [List.takeWhile_append_of_pos hne, List.takeWhile_cons_of_neg (by simp), List.append_nil]
  have hrun : (c :: rest).dropWhile (· = c) = rest := by
    rw [List.dropWhile_cons_of_pos (by simp)]
    cases rest with
    | nil => rfl
    | cons b rest =>
        rw [List.dropWhile_cons_of_neg]
        rintro hb
        exact hrest (by rw [List.head?_cons, of_decide_eq_true hb])
  rw [next, hdrop, htake]
  simp only [hrun]

/-- Fields that are not empty and hold no separator are read back. -/
theorem split_join {fs : List (List α)} {last : List α} (hfs : ∀ f ∈ fs, c ∉ f ∧ f ≠ [])
    (hlast : last.head? ≠ some c) : split c fs.length (join c fs last) = some (fs, last) := by
  induction fs with
  | nil => rfl
  | cons f fs ih =>
      obtain ⟨⟨hf, -⟩, hfs⟩ := List.forall_mem_cons.mp hfs
      have hhead : (join c fs last).head? ≠ some c := by
        cases fs with
        | nil => exact hlast
        | cons g gs =>
            obtain ⟨⟨hg, hne⟩, -⟩ := List.forall_mem_cons.mp hfs
            obtain ⟨b, g, rfl⟩ := List.exists_cons_of_ne_nil hne
            rw [join_cons, List.cons_append, List.head?_cons, ne_eq, Option.some.injEq]
            rintro rfl
            exact hg List.mem_cons_self
      rw [List.length_cons, join_cons, split, next_append hf _ hhead, Option.bind_some, ih hfs]
      rfl

/-- What a split gives: the fields hold no separator and are not empty, and the text
holds them in this order. -/
theorem of_split {n : ℕ} {src : List α} (hsrc : src.head? ≠ some c) {fs : List (List α)}
    {last : List α} (h : split c n src = some (fs, last)) :
    fs.length = n ∧ (∀ f ∈ fs, c ∉ f ∧ f ≠ [] ∧ f ⊆ src.dropLast) ∧ last.head? ≠ some c ∧
      last <:+ src ∧ (join c fs last).length ≤ src.length := by
  induction n generalizing src fs last with
  | zero =>
      cases h
      refine ⟨rfl, ?_, hsrc, List.suffix_rfl, Nat.le_refl _⟩
      intro f hf
      cases hf
  | succ n ih =>
      rw [split] at h
      obtain ⟨⟨f, rest⟩, hnext, h⟩ := Option.bind_eq_some_iff.mp h
      obtain ⟨⟨fs', last'⟩, hsplit, heq⟩ := Option.map_eq_some_iff.mp h
      cases heq
      obtain ⟨k, rfl, hf, hhead⟩ := next_eq_some hnext
      obtain ⟨hlen, hfields, hlast, hsuffix, hle⟩ := ih hhead hsplit
      have hsuf : rest <:+ f ++ c :: (List.replicate k c ++ rest) :=
        ⟨f ++ c :: List.replicate k c, by simp⟩
      refine ⟨by rw [List.length_cons, hlen], ?_, hlast, hsuffix.trans hsuf, ?_⟩
      · rw [List.forall_mem_cons]
        refine ⟨⟨hf, ?_, ?_⟩, fun g hg => ?_⟩
        · rintro rfl
          exact hsrc rfl
        · rw [List.dropLast_append_of_ne_nil (List.cons_ne_nil _ _)]
          exact List.subset_append_left _ _
        · obtain ⟨hcg, hne, hsub⟩ := hfields g hg
          refine ⟨hcg, hne, fun b hb => ?_⟩
          have hrest : rest ≠ [] := by
            rintro rfl
            exact absurd (hsub hb) (by simp)
          have hdrop : (f ++ c :: (List.replicate k c ++ rest)).dropLast =
              (f ++ c :: List.replicate k c) ++ rest.dropLast := by
            rw [← List.dropLast_append_of_ne_nil hrest]
            simp
          rw [hdrop]
          exact List.mem_append_right _ (hsub hb)
      · change (join c (f :: fs') last').length ≤ _
        rw [join_cons, List.length_append, List.length_cons, List.length_append,
          List.length_cons, List.length_append]
        omega

end Fields
