import Mathlib.Data.List.Basic
import Tarako.Lib.Hex

/-!
# Texts with percent escapes

A text in which a byte stands for itself or as `%` and two hexadecimal digits, of either
case. Any bytes at all are such a text up to an escape that the end of the text cuts.
-/

namespace Escape

open Hex

def percent : UInt8 := 37

/-- One byte as it stands in a text: itself, or `%` and two characters. -/
inductive Piece where
  | literal (b : UInt8)
  | escape (high low : UInt8)
  deriving DecidableEq, Repr

namespace Piece

def text : Piece → List UInt8
  | literal b => [b]
  | escape high low => [percent, high, low]

/-- The byte that a piece stands for. -/
def byte : Piece → UInt8
  | literal b => b
  | escape high low => UInt8.ofNat (16 * digitValue high + digitValue low)

/-- A literal byte is not taken for an escape. -/
def Plain : Piece → Prop
  | literal b => b ≠ percent
  | escape _ _ => True

/-- A piece of an encoding that keeps the bytes `reserved` for other use. -/
def WellFormed (reserved : List UInt8) : Piece → Prop
  | literal b => b ≠ percent ∧ b ∉ reserved
  | escape high low => isHexDigit high ∧ isHexDigit low

theorem WellFormed.plain {reserved : List UInt8} {piece : Piece}
    (h : piece.WellFormed reserved) : piece.Plain := by
  cases piece with
  | literal b => exact h.1
  | escape high low => trivial

end Piece

/-- The text of a list of pieces. -/
def encoded (pieces : List Piece) : List UInt8 := pieces.flatMap Piece.text

/-- What a list of pieces stands for. -/
def decoded (pieces : List Piece) : List UInt8 := pieces.map Piece.byte

/-- A reserved byte that is neither `%` nor a digit is not in the text. -/
theorem not_mem_encoded {reserved : List UInt8} {pieces : List Piece}
    (h : ∀ p ∈ pieces, p.WellFormed reserved) {c : UInt8} (hc : c ∈ reserved)
    (hpercent : c ≠ percent) (hdigit : isHexDigit c = false) : c ∉ encoded pieces := by
  intro hmem
  obtain ⟨piece, hpiece, hin⟩ := List.mem_flatMap.mp hmem
  have hwell := h piece hpiece
  cases piece with
  | literal b =>
    rw [List.mem_singleton.mp hin] at hc
    exact hwell.2 hc
  | escape high low =>
    simp only [Piece.text, List.mem_cons, List.not_mem_nil, or_false] at hin
    rcases hin with heq | rfl | rfl
    · exact hpercent heq
    · exact Bool.false_ne_true (hdigit.symm.trans hwell.1)
    · exact Bool.false_ne_true (hdigit.symm.trans hwell.2)

theorem exists_pieces (s : List UInt8) : ∃ (pieces : List Piece) (cut : List UInt8),
    s = encoded pieces ++ cut ∧ (∀ p ∈ pieces, p.Plain) ∧
      (cut = [] ∨ cut = [percent] ∨ ∃ high, cut = [percent, high]) := by
  induction hn : s.length using Nat.strong_induction_on generalizing s with
  | _ n ih =>
    match s, hn with
    | [], _ => exact ⟨[], [], rfl, by simp, .inl rfl⟩
    | b :: s, hn =>
      by_cases hb : b = percent
      · subst hb
        match s, hn with
        | [], _ => exact ⟨[], [percent], rfl, by simp, .inr (.inl rfl)⟩
        | [high], _ => exact ⟨[], [percent, high], rfl, by simp, .inr (.inr ⟨high, rfl⟩)⟩
        | high :: low :: s, hn =>
          simp only [List.length_cons] at hn
          obtain ⟨pieces, cut, hs, hplain, hcut⟩ := ih s.length (by omega) s rfl
          refine ⟨.escape high low :: pieces, cut, ?_, ?_, hcut⟩
          · rw [hs]
            rfl
          · exact List.forall_mem_cons.mpr ⟨trivial, hplain⟩
      · rw [List.length_cons] at hn
        obtain ⟨pieces, cut, hs, hplain, hcut⟩ := ih s.length (by omega) s rfl
        refine ⟨.literal b :: pieces, cut, ?_, ?_, hcut⟩
        · rw [hs]
          rfl
        · exact List.forall_mem_cons.mpr ⟨hb, hplain⟩

end Escape
