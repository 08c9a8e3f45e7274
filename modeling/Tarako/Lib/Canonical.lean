import Mathlib.Algebra.BigOperators.Ring.Finset
import Mathlib.Algebra.Order.BigOperators.Group.Finset
import Mathlib.Tactic.Ring

/-!
# Canonical prefix codes

A canonical code is given by the number `count l` of its codes of each length: the codes of one
length are consecutive numbers, and the first of a length is twice the number behind the last of
the length before. A decoder reads bit after bit and compares with the greatest code of each
length. It inverts the code exactly as long as the lengths are not over-subscribed, which is the
Kraft inequality.
-/

namespace Canonical

/-- The first code of each length. -/
def first (count : ℕ → ℕ) : ℕ → ℕ
  | 0 => 0
  | l + 1 => 2 * (first count l + count l)

/-- The number of shorter codes. -/
def index (count : ℕ → ℕ) (l : ℕ) : ℕ := ∑ i ∈ Finset.range l, count i

/-- How much of the `2 ^ l` words of length `l` the codes up to that length take. -/
def kraft (count : ℕ → ℕ) (l : ℕ) : ℕ := ∑ i ∈ Finset.range (l + 1), count i * 2 ^ (l - i)

/-- The lowest `l` bits of a number, the highest of them first. -/
def codeBits : ℕ → ℕ → List Bool
  | 0, _ => []
  | l + 1, c => c.testBit l :: codeBits l c

theorem codeBits_of_dvd {l c : ℕ} (h : 2 ^ l ∣ c) : codeBits l c = List.replicate l false := by
  induction l with
  | zero => rfl
  | succ l ih =>
      have hbit : c.testBit l = false := by
        obtain ⟨k, rfl⟩ := h
        rw [Nat.testBit_two_pow_mul, decide_eq_false (by omega), Bool.false_and]
      rw [codeBits, hbit, ih (Nat.dvd_trans (Nat.pow_dvd_pow 2 (Nat.le_succ l)) h),
        List.replicate_succ]

theorem div_two_pow_succ (c d : ℕ) :
    2 * (c / 2 ^ (d + 1)) + (c.testBit d).toNat = c / 2 ^ d := by
  have hbit : (c.testBit d).toNat = c / 2 ^ d % 2 := by
    rw [Nat.testBit_eq_decide_div_mod_eq]
    rcases Nat.mod_two_eq_zero_or_one (c / 2 ^ d) with h | h <;> simp [h]
  rw [hbit, Nat.pow_succ, ← Nat.div_div_eq_div_mul]
  omega

/-! ## The Kraft sum -/

section

variable {count : ℕ → ℕ}

theorem kraft_succ (l : ℕ) : kraft count (l + 1) = 2 * kraft count l + count (l + 1) := by
  rw [kraft, Finset.sum_range_succ, Nat.sub_self, Nat.pow_zero, Nat.mul_one, kraft,
    Finset.mul_sum]
  congr 1
  refine Finset.sum_congr rfl fun i hi => ?_
  rw [Finset.mem_range] at hi
  rw [Nat.succ_sub (Nat.le_of_lt_succ hi), Nat.pow_succ]
  ring

theorem first_add_count (l : ℕ) : first count l + count l = kraft count l := by
  induction l with
  | zero => simp [first, kraft]
  | succ l ih => rw [first, ih, kraft_succ]

theorem first_succ (l : ℕ) : first count (l + 1) = 2 * kraft count l := by
  rw [first, first_add_count]

/-- The words that begin with a code come before all longer codes. -/
theorem pow_mul_kraft_le_first (m d : ℕ) :
    2 ^ (d + 1) * kraft count m ≤ first count (m + d + 1) := by
  induction d with
  | zero => rw [first_succ, Nat.add_zero, Nat.pow_one]
  | succ d ih =>
      have hle : first count (m + d + 1) ≤ kraft count (m + d + 1) := by
        rw [← first_add_count]
        exact Nat.le_add_right _ _
      calc 2 ^ (d + 1 + 1) * kraft count m = 2 * (2 ^ (d + 1) * kraft count m) := by
            rw [Nat.pow_succ]
            ring
        _ ≤ 2 * kraft count (m + d + 1) := Nat.mul_le_mul_left 2 (ih.trans hle)
        _ = first count (m + (d + 1) + 1) := by rw [← first_succ]; rfl

/-- Lengths that are not over-subscribed are not when the longer ones are left out. -/
theorem kraft_le_pow {L : ℕ} (h : kraft count L ≤ 2 ^ L) {l : ℕ} (hl : l ≤ L) :
    kraft count l ≤ 2 ^ l := by
  induction L with
  | zero =>
      obtain rfl : l = 0 := Nat.le_zero.mp hl
      exact h
  | succ L ih =>
      rcases Nat.lt_or_eq_of_le hl with hlt | rfl
      · refine ih ?_ (Nat.le_of_lt_succ hlt)
        rw [kraft_succ, Nat.pow_succ] at h
        omega
      · exact h

theorem exists_first_over {L : ℕ} (h : 2 ^ L < kraft count L) :
    ∃ l ≤ L, 2 ^ l < kraft count l ∧ ∀ m < l, kraft count m ≤ 2 ^ m := by
  have hex : ∃ l, l ≤ L ∧ 2 ^ l < kraft count l := ⟨L, Nat.le_refl L, h⟩
  refine ⟨Nat.find hex, (Nat.find_spec hex).1, (Nat.find_spec hex).2, fun m hm => ?_⟩
  have hle : m ≤ L := Nat.le_trans (Nat.le_of_lt hm) (Nat.find_spec hex).1
  exact Nat.not_lt.mp fun hlt => Nat.find_min hex hm ⟨hle, hlt⟩

/-- Below the shortest length that is over-subscribed there is room for a first code. -/
theorem first_le_pow {l : ℕ} (hl : 0 < l) (h : ∀ m < l, kraft count m ≤ 2 ^ m) :
    first count l ≤ 2 ^ l := by
  obtain ⟨m, rfl⟩ := Nat.exists_eq_succ_of_ne_zero (Nat.ne_of_gt hl)
  have hm := h m (Nat.lt_succ_self m)
  rw [Nat.succ_eq_add_one, first_succ, Nat.pow_succ]
  omega

theorem first_eq_zero {l : ℕ} (hl : 0 < l) (h : index count l = 0) : first count l = 0 := by
  obtain ⟨m, rfl⟩ := Nat.exists_eq_succ_of_ne_zero (Nat.ne_of_gt hl)
  rw [Nat.succ_eq_add_one, first_succ, kraft, Finset.sum_eq_zero, Nat.mul_zero]
  intro x hx
  rw [Nat.succ_eq_add_one, index, Finset.sum_eq_zero_iff] at h
  rw [h x hx, Nat.zero_mul]

theorem index_succ (l : ℕ) : index count (l + 1) = index count l + count l :=
  Finset.sum_range_succ count l

theorem index_mono {l m : ℕ} (h : l ≤ m) : index count l ≤ index count m :=
  Finset.sum_le_sum_of_subset (Finset.range_mono h)

end

/-! ## Decoding -/

/-- What a decoder knows of each length: whether there are codes of it, the place of the first
of them, and the greatest one, or for a length without codes the number that its first one
would be. -/
structure Registers where
  active : ℕ → Bool
  base : ℕ → ℕ
  max : ℕ → ℕ

namespace Registers

variable (r : Registers)

/-- The first code of a length, by the registers of the length before. -/
def first : ℕ → ℕ
  | 0 => 0
  | 1 => 0
  | l + 2 => 2 * (r.max (l + 1) + (r.active (l + 1)).toNat)

/-- The place of the next code, and what is behind it, when `l` bits have been read with the
value `code`. -/
def decodeFrom (L : ℕ) : ℕ → ℕ → List Bool → Option (ℕ × List Bool)
  | _, _, [] => none
  | l, code, b :: bs =>
      if r.active (l + 1) ∧ 2 * code + b.toNat ≤ r.max (l + 1) then
        some (r.base (l + 1) + (2 * code + b.toNat - r.first (l + 1)), bs)
      else if l + 1 < L then decodeFrom L (l + 1) (2 * code + b.toNat) bs
      else none

/-- Decoding with codes of at most `L` bits. -/
def decode (L : ℕ) (bs : List Bool) : Option (ℕ × List Bool) := r.decodeFrom L 0 0 bs

/-- The registers are those of the code with the numbers `count`. -/
structure Describes (count : ℕ → ℕ) (L : ℕ) : Prop where
  active : ∀ l, 0 < l → l ≤ L → (r.active l = true ↔ count l ≠ 0)
  base : ∀ l, 0 < l → l ≤ L → count l ≠ 0 → r.base l = index count l
  max : ∀ l, 0 < l → l ≤ L → count l ≠ 0 → r.max l + 1 = kraft count l
  unused : ∀ l, 0 < l → l < L → count l = 0 → r.max l = kraft count l

variable {r}

theorem Describes.first_eq {count : ℕ → ℕ} {L : ℕ} (h : r.Describes count L) (h0 : count 0 = 0)
    {l : ℕ} (hl : 0 < l) (hL : l ≤ L) : r.first l = Canonical.first count l := by
  obtain ⟨l, rfl⟩ := Nat.exists_eq_succ_of_ne_zero (Nat.ne_of_gt hl)
  cases l with
  | zero => simp [Registers.first, Canonical.first, h0]
  | succ l =>
      have hactive := h.active (l + 1) (Nat.succ_pos l) (by omega)
      rw [first_succ, Registers.first]
      by_cases hcount : count (l + 1) = 0
      · have hoff : r.active (l + 1) = false := by
          simpa [hcount] using hactive
        rw [h.unused (l + 1) (Nat.succ_pos l) (by omega) hcount, hoff, Bool.toNat_false,
          Nat.add_zero]
      · rw [hactive.mpr hcount, Bool.toNat_true,
          h.max (l + 1) (Nat.succ_pos l) (by omega) hcount]

/-- A code that is not over-subscribed is read back, whatever is behind it. -/
theorem Describes.decode_codeBits {count : ℕ → ℕ} {L : ℕ} (h : r.Describes count L)
    (h0 : count 0 = 0) (hkraft : kraft count L ≤ 2 ^ L) {l j : ℕ} (hl : 0 < l) (hL : l ≤ L)
    (hj : j < count l) (tail : List Bool) :
    r.decode L (codeBits l (Canonical.first count l + j) ++ tail) =
      some (index count l + j, tail) := by
  set c := Canonical.first count l + j with hc
  have hsum := @first_add_count count l
  have hcount : count l ≠ 0 := Nat.ne_of_gt (Nat.zero_lt_of_lt hj)
  -- `d` bits of the code are left
  have hstep : ∀ d, 0 < d → d ≤ l →
      r.decodeFrom L (l - d) (c / 2 ^ d) (codeBits d c ++ tail) =
        some (index count l + j, tail) := by
    intro d hd hdl
    induction d with
    | zero => omega
    | succ d ih =>
        rw [codeBits, List.cons_append, decodeFrom, div_two_pow_succ]
        cases d with
        | zero =>
            have hlen : l - (0 + 1) + 1 = l := by omega
            have hmax := h.max l hl hL hcount
            rw [Nat.pow_zero, Nat.div_one, hlen, h.first_eq h0 hl hL, h.base l hl hL hcount,
              if_pos ⟨(h.active l hl hL).mpr hcount, by omega⟩, hc, Nat.add_sub_cancel_left]
            rfl
        | succ d =>
            have hlen : l - (d + 1 + 1) + 1 = l - (d + 1) := by omega
            have hbefore := @pow_mul_kraft_le_first count (l - (d + 1)) d
            have hl' : l - (d + 1) + d + 1 = l := by omega
            rw [hl'] at hbefore
            have hge : kraft count (l - (d + 1)) ≤ c / 2 ^ (d + 1) := by
              rw [Nat.le_div_iff_mul_le (Nat.two_pow_pos _), Nat.mul_comm]
              omega
            have hskip : ¬ (r.active (l - (d + 1)) = true ∧
                c / 2 ^ (d + 1) ≤ r.max (l - (d + 1))) := by
              rintro ⟨hon, hle⟩
              have hused := (h.active _ (by omega) (by omega)).mp hon
              have hmax := h.max _ (by omega) (by omega) hused
              omega
            rw [hlen, if_neg hskip, if_pos (by omega)]
            exact ih (Nat.succ_pos d) (by omega)
  have hlt : c < 2 ^ l := by
    have := kraft_le_pow hkraft hL
    omega
  have hall := hstep l hl (Nat.le_refl l)
  rwa [Nat.sub_self, Nat.div_eq_of_lt hlt] at hall

theorem decode_zeros {L l : ℕ} (hl : 0 < l) (hL : l ≤ L) (hon : r.active l = true)
    (hoff : ∀ m, 0 < m → m < l → r.active m = false) (tail : List Bool) :
    r.decode L (List.replicate l false ++ tail) = some (r.base l, tail) := by
  have hstep : ∀ d, 0 < d → d ≤ l →
      r.decodeFrom L (l - d) 0 (List.replicate d false ++ tail) = some (r.base l, tail) := by
    intro d hd hdl
    induction d with
    | zero => omega
    | succ d ih =>
        rw [List.replicate_succ, List.cons_append, decodeFrom]
        cases d with
        | zero =>
            have hlen : l - (0 + 1) + 1 = l := by omega
            rw [hlen, hon]
            simp
        | succ d =>
            have hlen : l - (d + 1 + 1) + 1 = l - (d + 1) := by omega
            have hskip := hoff (l - (d + 1)) (by omega) (by omega)
            rw [hlen, hskip, if_neg (by simp), if_pos (by omega)]
            exact ih (Nat.succ_pos d) (by omega)
  have hall := hstep l hl (Nat.le_refl l)
  rwa [Nat.sub_self] at hall

end Registers

end Canonical
