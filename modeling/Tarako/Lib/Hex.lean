import Mathlib.Algebra.Order.Ring.Nat
import Mathlib.Data.List.TakeWhile
import Tarako.Lib.Text

/-!
# Hexadecimal numbers

The value of hexadecimal digits in a text, and `strtoul` and `strtol` in base 16 where `long`
has 32 bits; `strtoul16` on a text that starts with neither white space nor a sign. Memory is a
list of bytes; they read up to the first byte that is no digit.
-/

namespace Hex

def isHexDigit (b : UInt8) : Bool :=
  (48 ≤ b && b ≤ 57) || (97 ≤ b && b ≤ 102) || (65 ≤ b && b ≤ 70)

def digitValue (b : UInt8) : ℕ :=
  if b ≤ 57 then b.toNat - 48 else if b ≤ 70 then b.toNat - 55 else b.toNat - 87

/-- The value of the digits `l` after a part of value `n`. -/
def value (n : ℕ) (l : List UInt8) : ℕ := l.foldl (fun n b => 16 * n + digitValue b) n

/-- `strtoul(s, NULL, 16)`; a number that is too large gives the largest. -/
def strtoul16 (s : List UInt8) : ℕ :=
  let digits := match s with
    | 48 :: x :: t => if x = 120 ∨ x = 88 then t else s
    | _ => s
  min (value 0 (digits.takeWhile isHexDigit)) (2 ^ 32 - 1)

/-- The digits at the start of a text, or behind a `0x` there. -/
def leadingDigits (s : List UInt8) : List UInt8 :=
  let digits := match s with
    | 48 :: x :: t => if x = 120 ∨ x = 88 then t else s
    | _ => s
  digits.takeWhile isHexDigit

/-- `strtol(s, &end, 16)`; it stops at the ends of the range. -/
def strtol16 (s : List UInt8) : ℤ :=
  match s.dropWhile Text.isSpace with
  | [] => 0
  | b :: t =>
      if b = 45 then max (-2 ^ 31) (-value 0 (leadingDigits t))
      else if b = 43 then min (2 ^ 31 - 1) (value 0 (leadingDigits t))
      else min (2 ^ 31 - 1) (value 0 (leadingDigits (b :: t)))

/-- `strtoul(s, &end, 16)` on any text, and whether it finds a number, so that `end` is not
`s`. A minus sign wraps a number that is not too large. -/
def strtoulSigned16 (s : List UInt8) : ℕ × Bool :=
  match s.dropWhile Text.isSpace with
  | [] => (0, false)
  | b :: t =>
      let digits := leadingDigits (if b = 45 ∨ b = 43 then t else b :: t)
      let n := value 0 digits
      (if 2 ^ 32 ≤ n then 2 ^ 32 - 1 else if b = 45 then (2 ^ 32 - n) % 2 ^ 32 else n,
        !digits.isEmpty)

/-- `%x` of an `int` of 32 bits. -/
def hexInt (n : ℤ) : List UInt8 :=
  (Nat.toDigits 16 (n % 2 ^ 32).toNat).map fun c => UInt8.ofNat c.toNat

theorem digitValue_lt {b : UInt8} (h : isHexDigit b) : digitValue b < 16 := by
  simp only [isHexDigit, Bool.or_eq_true, Bool.and_eq_true, decide_eq_true_eq,
    UInt8.le_iff_toNat_le] at h
  simp only [digitValue, UInt8.le_iff_toNat_le]
  simp only [UInt8.reduceToNat] at *
  split_ifs <;> omega

theorem zero_not_isHexDigit : isHexDigit 0 = false := by decide

theorem value_lt {l : List UInt8} (h : ∀ b ∈ l, isHexDigit b) (n : ℕ) :
    value n l < (n + 1) * 16 ^ l.length := by
  induction l generalizing n with
  | nil => simp [value]
  | cons b l ih =>
    have hb := digitValue_lt (h b (List.mem_cons_self ..))
    have hl := ih (fun c hc => h c (List.mem_cons_of_mem _ hc)) (16 * n + digitValue b)
    calc value n (b :: l) < (16 * n + digitValue b + 1) * 16 ^ l.length := hl
      _ ≤ (16 * (n + 1)) * 16 ^ l.length := Nat.mul_le_mul_right _ (by omega)
      _ = (n + 1) * 16 ^ (b :: l).length := by
        rw [List.length_cons, Nat.pow_succ, Nat.mul_comm 16 (n + 1), Nat.mul_assoc,
          Nat.mul_comm 16 (16 ^ l.length)]

theorem value_inj {l m : List UInt8} (hl : ∀ b ∈ l, isHexDigit b) (hm : ∀ b ∈ m, isHexDigit b)
    (hlength : l.length = m.length) {n k : ℕ} :
    value n l = value k m ↔ n = k ∧ l.map digitValue = m.map digitValue := by
  induction l generalizing m n k with
  | nil =>
      obtain rfl := List.eq_nil_of_length_eq_zero hlength.symm
      exact (and_iff_left rfl).symm
  | cons b l ih =>
      cases m with
      | nil => cases hlength
      | cons c m =>
          obtain ⟨hb, hl⟩ := List.forall_mem_cons.mp hl
          obtain ⟨hc, hm⟩ := List.forall_mem_cons.mp hm
          have hblt := digitValue_lt hb
          have hclt := digitValue_lt hc
          change value (16 * n + digitValue b) l = value (16 * k + digitValue c) m ↔ _
          rw [ih hl hm (Nat.succ.inj hlength), List.map_cons, List.map_cons, List.cons.injEq,
            ← and_assoc]
          refine and_congr_left fun _ => ?_
          omega

theorem takeWhile_isHexDigit_append {l : List UInt8} (h : ∀ b ∈ l, isHexDigit b) {c : UInt8}
    (hc : isHexDigit c = false) (m : List UInt8) :
    (l ++ c :: m).takeWhile isHexDigit = l := by
  rw [List.takeWhile_append_of_pos h, List.takeWhile_cons_of_neg (by simp [hc]), List.append_nil]

/-- A number of at most eight digits is read back, if a byte that is no digit ends it. -/
theorem strtoul16_append {l : List UInt8} (h : ∀ b ∈ l, isHexDigit b) (hlength : l.length ≤ 8)
    {c : UInt8} (hc : isHexDigit c = false) (m : List UInt8) :
    strtoul16 (48 :: 120 :: (l ++ c :: m)) = value 0 l := by
  have hlt := value_lt h 0
  have hpow : 16 ^ l.length ≤ 16 ^ 8 := Nat.pow_le_pow_right (by decide) hlength
  simp only [strtoul16, true_or, if_true, takeWhile_isHexDigit_append h hc]
  omega

theorem value_dropLast (l : List UInt8) : value 0 l.dropLast ≤ value 0 l / 16 := by
  by_cases hl : l = []
  · rw [hl]
    exact Nat.zero_le _
  · conv_rhs => rw [← List.dropLast_concat_getLast hl, value, List.foldl_append]
    exact (Nat.le_div_iff_mul_le (by decide)).mpr (by
      rw [Nat.mul_comm]
      exact Nat.le_add_right _ _)

theorem leadingDigits_of_digits {l : List UInt8} (h : ∀ b ∈ l, isHexDigit b) :
    leadingDigits l = l := by
  have htake : l.takeWhile isHexDigit = l := List.takeWhile_eq_self_iff.mpr h
  unfold leadingDigits
  split
  · next x t =>
      have hx : ¬ (x = 120 ∨ x = 88) := by
        rintro (rfl | rfl)
        · exact absurd (h 120 (by simp)) (by decide)
        · exact absurd (h 88 (by simp)) (by decide)
      rw [if_neg hx, htake]
  · exact htake

theorem strtol16_of_digits {l : List UInt8} (h : ∀ b ∈ l, isHexDigit b) :
    strtol16 l = (min (2 ^ 31 - 1) (value 0 l) : ℕ) := by
  cases l with
  | nil => rfl
  | cons b t =>
      have hb := h b (List.mem_cons_self ..)
      have hspace : Text.isSpace b = false := by
        by_contra hspace
        rw [Bool.not_eq_false] at hspace
        simp only [isHexDigit, Text.isSpace, Bool.or_eq_true, Bool.and_eq_true,
          decide_eq_true_eq, beq_iff_eq, UInt8.le_iff_toNat_le, ← UInt8.toNat_inj] at hb hspace
        simp only [UInt8.reduceToNat] at hb hspace
        omega
      have hminus : b ≠ 45 := by
        rintro rfl
        exact absurd hb (by decide)
      have hplus : b ≠ 43 := by
        rintro rfl
        exact absurd hb (by decide)
      have hdrop : (b :: t).dropWhile Text.isSpace = b :: t :=
        List.dropWhile_cons_of_neg (by rw [hspace]; exact Bool.false_ne_true)
      rw [strtol16, hdrop]
      simp only [if_neg hminus, if_neg hplus, leadingDigits_of_digits h]
      omega

end Hex
