import Mathlib.Data.List.Basic

/-!
# Reading a text line by line

`fgets` reads up to and including a newline, and stops before that when its buffer is
full; the next call goes on from there. A line that does not fit into the buffer is
therefore read as several.
-/

namespace Lines

def newline : UInt8 := 10

/-- What repeated calls of `fgets` read when there is room for `size` bytes in the
buffer, and for `left` more in the line that has been begun. -/
def fgetsFrom (size : ℕ) : ℕ → List UInt8 → List (List UInt8)
  | _, [] => []
  | left, b :: text =>
      if b = newline ∨ left ≤ 1 then [b] :: fgetsFrom size size text
      else
        match fgetsFrom size (left - 1) text with
        | [] => [[b]]
        | line :: lines => (b :: line) :: lines

/-- What repeated calls of `fgets` read, with room for `size` bytes. -/
def fgets (size : ℕ) (text : List UInt8) : List (List UInt8) := fgetsFrom size size text

variable {size left : ℕ} {l rest : List UInt8}

theorem fgetsFrom_line (hl : newline ∉ l) (hleft : l.length < left) :
    fgetsFrom size left (l ++ newline :: rest) = (l ++ [newline]) :: fgets size rest := by
  induction l generalizing left with
  | nil => simp [fgetsFrom, fgets]
  | cons b l ih =>
      rw [List.mem_cons, not_or] at hl
      rw [List.length_cons] at hleft
      have hmore : ¬ (b = newline ∨ left ≤ 1) := by
        rintro (hb | hle)
        · exact hl.1 hb.symm
        · omega
      rw [List.cons_append, fgetsFrom, if_neg hmore, ih hl.2 (by omega)]
      rfl

theorem fgets_line (hl : newline ∉ l) (hfits : l.length < size) :
    fgets size (l ++ newline :: rest) = (l ++ [newline]) :: fgets size rest :=
  fgetsFrom_line hl hfits

theorem fgetsFrom_last (hl : newline ∉ l) (hne : l ≠ []) (hleft : l.length ≤ left) :
    fgetsFrom size left l = [l] := by
  induction l generalizing left with
  | nil => exact absurd rfl hne
  | cons b l ih =>
      rw [List.mem_cons, not_or] at hl
      rw [List.length_cons] at hleft
      by_cases hnil : l = []
      · rw [hnil, fgetsFrom]
        split_ifs <;> rfl
      · have hpos : 0 < l.length := List.length_pos_iff.mpr hnil
        have hmore : ¬ (b = newline ∨ left ≤ 1) := by
          rintro (hb | hle)
          · exact hl.1 hb.symm
          · omega
        rw [fgetsFrom, if_neg hmore, ih hl.2 hnil (by omega)]

theorem fgets_last (hl : newline ∉ l) (hne : l ≠ []) (hfits : l.length ≤ size) :
    fgets size l = [l] :=
  fgetsFrom_last hl hne hfits

theorem fgets_lines {lines : List (List UInt8)}
    (h : ∀ l ∈ lines, newline ∉ l ∧ l.length < size) :
    fgets size (lines.flatMap (· ++ [newline])) = lines.map (· ++ [newline]) := by
  induction lines with
  | nil => rfl
  | cons l lines ih =>
      obtain ⟨⟨hl, hfits⟩, hlines⟩ := List.forall_mem_cons.mp h
      rw [List.flatMap_cons, List.append_assoc, List.singleton_append, fgets_line hl hfits,
        ih hlines, List.map_cons]

theorem count_lines {lines : List (List UInt8)} (h : ∀ l ∈ lines, newline ∉ l) :
    (lines.flatMap (· ++ [newline])).count newline = lines.length := by
  induction lines with
  | nil => rfl
  | cons l lines ih =>
      obtain ⟨hl, hlines⟩ := List.forall_mem_cons.mp h
      rw [List.flatMap_cons, List.count_append, List.count_append, List.count_eq_zero.mpr hl,
        ih hlines, List.length_cons, List.count_singleton_self]
      omega

/-- Every text is a list of lines and what is behind the last newline. -/
theorem exists_lines (text : List UInt8) : ∃ (lines : List (List UInt8)) (last : List UInt8),
    text = lines.flatMap (· ++ [newline]) ++ last ∧ (∀ l ∈ lines, newline ∉ l) ∧
      newline ∉ last := by
  induction text with
  | nil => exact ⟨[], [], rfl, by simp, by simp⟩
  | cons b text ih =>
      obtain ⟨lines, last, rfl, hlines, hlast⟩ := ih
      by_cases hb : b = newline
      · rw [hb]
        exact ⟨[] :: lines, last, rfl, List.forall_mem_cons.mpr ⟨List.not_mem_nil, hlines⟩, hlast⟩
      · cases lines with
        | nil => exact ⟨[], b :: last, rfl, hlines, by simp [Ne.symm hb, hlast]⟩
        | cons l lines =>
            obtain ⟨hl, hlines⟩ := List.forall_mem_cons.mp hlines
            refine ⟨(b :: l) :: lines, last, rfl, List.forall_mem_cons.mpr ⟨?_, hlines⟩, hlast⟩
            simp [Ne.symm hb, hl]

/-- What is read at once fits into the buffer, and has a newline at its end at most. -/
theorem of_mem_fgetsFrom (hleft : left ≤ size) (hpos : 0 < left) {text line : List UInt8}
    (h : line ∈ fgetsFrom size left text) :
    line ≠ [] ∧ line.length ≤ size ∧ newline ∉ line.dropLast := by
  have hmain : ∀ text left, 0 < left → left ≤ size →
      (∀ line ∈ (fgetsFrom size left text).head?, line ≠ [] ∧ line.length ≤ left ∧
        newline ∉ line.dropLast) ∧
      ∀ line ∈ (fgetsFrom size left text).tail, line ≠ [] ∧ line.length ≤ size ∧
        newline ∉ line.dropLast := by
    intro text
    induction text with
    | nil => exact fun left _ _ => ⟨by simp [fgetsFrom], by simp [fgetsFrom]⟩
    | cons b text ih =>
        intro left hpos hleft
        rw [fgetsFrom]
        split_ifs with hend
        · refine ⟨?_, fun line hline => ?_⟩
          · rintro line ⟨⟩
            exact ⟨List.cons_ne_nil _ _, hpos, by simp⟩
          · obtain ⟨hhead, htail⟩ := ih size (by omega) (Nat.le_refl _)
            rw [List.tail_cons] at hline
            cases hlines : fgetsFrom size size text with
            | nil =>
                rw [hlines] at hline
                cases hline
            | cons first lines =>
                rw [hlines] at hline hhead htail
                rcases List.mem_cons.mp hline with rfl | hline
                · exact hhead _ rfl
                · exact htail line hline
        · rw [not_or] at hend
          obtain ⟨hhead, htail⟩ := ih (left - 1) (by omega) (by omega)
          cases hlines : fgetsFrom size (left - 1) text with
          | nil =>
              refine ⟨?_, fun line hline => by cases hline⟩
              rintro line ⟨⟩
              exact ⟨List.cons_ne_nil _ _, hpos, by simp⟩
          | cons first lines =>
              rw [hlines] at hhead htail
              obtain ⟨hne, hlen, hnot⟩ := hhead first rfl
              refine ⟨?_, fun line hline => htail line hline⟩
              rintro line ⟨⟩
              refine ⟨List.cons_ne_nil _ _, ?_, ?_⟩
              · rw [List.length_cons]
                omega
              · rw [List.dropLast_cons_of_ne_nil hne, List.mem_cons, not_or]
                exact ⟨fun heq => hend.1 heq.symm, hnot⟩
  obtain ⟨hhead, htail⟩ := hmain text left hpos hleft
  cases hlines : fgetsFrom size left text with
  | nil =>
      rw [hlines] at h
      cases h
  | cons first lines =>
      rw [hlines] at h hhead htail
      rcases List.mem_cons.mp h with rfl | h
      · obtain ⟨hne, hlen, hnot⟩ := hhead _ rfl
        exact ⟨hne, Nat.le_trans hlen hleft, hnot⟩
      · exact htail line h

theorem of_mem_fgets (hsize : 0 < size) {text line : List UInt8} (h : line ∈ fgets size text) :
    line ≠ [] ∧ line.length ≤ size ∧ newline ∉ line.dropLast :=
  of_mem_fgetsFrom (Nat.le_refl size) hsize h

end Lines
