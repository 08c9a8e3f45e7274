import Mathlib.Algebra.Ring.Int.Defs
import Mathlib.Algebra.Ring.Nat
import Mathlib.Data.Int.Basic
import Mathlib.Data.List.TakeWhile

/-!
# C strings and decimal numbers

Text in memory is a list of bytes that ends at its first NUL. `cutAt` is `strchr`
together with the store of a NUL over what it found: the text before the separator
and the memory behind it. `decimal` is what `%d` prints for a number that is not
negative, `padded` is `%5d`, and `atoi` reads numbers back.
-/

namespace Text

/-- What holds of every byte of a text, by a computation over the text and not over all bytes. -/
theorem forall_mem_of_all {p : UInt8 → Prop} [DecidablePred p] {l : List UInt8}
    (h : l.all fun b => decide (p b)) : ∀ b ∈ l, p b := by
  intro b hb
  exact of_decide_eq_true (List.all_eq_true.mp h b hb)

/-- The C string at the start of `l`. -/
def cstring (l : List UInt8) : List UInt8 := l.takeWhile (· ≠ 0)

/-- What is computed for each number below 256 holds of every byte. -/
theorem forall_byte {p : UInt8 → Prop} (h : ∀ n : Fin 256, p (UInt8.ofNat n)) (b : UInt8) :
    p b := by
  have hb := h ⟨b.toNat, b.toNat_lt⟩
  rwa [UInt8.ofNat_toNat] at hb

/-- The text before the first `c` and the memory after it; `none` when the string
ends before. -/
def cutAt (c : UInt8) : List UInt8 → Option (List UInt8 × List UInt8)
  | [] => none
  | b :: l =>
      if b = c then some ([], l)
      else if b = 0 then none
      else (cutAt c l).map fun r => (b :: r.1, r.2)

theorem cstring_append_of_not_mem {l : List UInt8} (h : 0 ∉ l) (m : List UInt8) :
    cstring (l ++ m) = l ++ cstring m := by
  apply List.takeWhile_append_of_pos
  intro b hb
  simpa using ne_of_mem_of_not_mem hb h

theorem cstring_of_not_mem {l : List UInt8} (h : 0 ∉ l) : cstring l = l := by
  simpa [cstring] using cstring_append_of_not_mem h []

theorem cstring_append_of_mem {l : List UInt8} (h : 0 ∈ l) (m : List UInt8) :
    cstring (l ++ m) = cstring l := by
  induction l with
  | nil => simp at h
  | cons b l ih =>
      by_cases hb : b = 0
      · simp [cstring, hb]
      · have hl : 0 ∈ l := by simpa [Ne.symm hb] using h
        simpa [cstring, hb] using ih hl

@[simp] theorem cstring_append_replicate (l : List UInt8) (n : ℕ) :
    cstring (l ++ List.replicate n 0) = cstring l := by
  by_cases h : 0 ∈ l
  · exact cstring_append_of_mem h _
  · rw [cstring_append_of_not_mem h, cstring_of_not_mem h]
    cases n <;> simp [cstring, List.replicate_succ]

theorem zero_not_mem_cstring (l : List UInt8) : 0 ∉ cstring l :=
  fun h => absurd (List.mem_takeWhile_imp h) (by decide)

theorem length_cstring_le (l : List UInt8) : (cstring l).length ≤ l.length :=
  (List.takeWhile_prefix _).length_le

/-! ## Separators -/

theorem cutAt_append {c : UInt8} {s : List UInt8} (hc : c ∉ s) (hz : 0 ∉ s)
    (m : List UInt8) : cutAt c (s ++ c :: m) = some (s, m) := by
  induction s with
  | nil => simp [cutAt]
  | cons b s ih =>
      rw [List.mem_cons, not_or] at hc hz
      rw [List.cons_append, cutAt, if_neg (Ne.symm hc.1), if_neg (Ne.symm hz.1),
        ih hc.2 hz.2]
      rfl

theorem cstring_of_cutAt {c : UInt8} {l s m : List UInt8} (hc : c ≠ 0)
    (h : cutAt c l = some (s, m)) : cstring l = s ++ c :: cstring m := by
  induction l generalizing s with
  | nil => simp [cutAt] at h
  | cons b l ih =>
      rw [cutAt] at h
      split_ifs at h with hb hz
      · cases h
        simp [cstring, hb, hc]
      · obtain ⟨⟨t, n⟩, hr, heq⟩ := Option.map_eq_some_iff.mp h
        cases heq
        have hl := ih hr
        simp only [cstring, ne_eq, decide_not] at hl
        simp [cstring, hz, hl]

/-! ## Numbers -/

def isDigit (b : UInt8) : Bool := 48 ≤ b && b ≤ 57

def isSpace (b : UInt8) : Bool := b == 32 || (9 ≤ b && b ≤ 13)

/-- The value of the digits at the start of a text, after a part of value `n`. -/
def digitsValue : ℕ → List UInt8 → ℕ
  | n, [] => n
  | n, b :: l => if isDigit b then digitsValue (10 * n + (b.toNat - 48)) l else n

def atoi : List UInt8 → ℤ
  | [] => 0
  | b :: l =>
      if isSpace b then atoi l
      else if b = 45 then -(digitsValue 0 l : ℤ)
      else if b = 43 then digitsValue 0 l
      else digitsValue 0 (b :: l)

/-- `%d`. -/
def decimal (n : ℕ) : List UInt8 := (Nat.toDigits 10 n).map fun c => UInt8.ofNat c.toNat

/-- `%d`, for any number. -/
def decimalInt (n : ℤ) : List UInt8 :=
  if n < 0 then 45 :: decimal n.natAbs else decimal n.natAbs

/-- `atoi` where `long` has 32 bits: `strtol` stops at the ends of the range. -/
def atoi32 (l : List UInt8) : ℤ := max (-2 ^ 31) (min (2 ^ 31 - 1) (atoi l))

/-- The text of `s`, which is ASCII. -/
def ofAscii (s : List Char) : List UInt8 := s.map fun c => UInt8.ofNat c.toNat

/-- `%5d`. -/
def padded (n : ℕ) : List UInt8 := (decimal n).leftpad 5 32

theorem toNat_ofNat_digit {c : Char} (h : c.isDigit) :
    (UInt8.ofNat c.toNat).toNat = c.toNat ∧ 48 ≤ c.toNat ∧ c.toNat ≤ 57 := by
  have hrange : 48 ≤ c.toNat ∧ c.toNat ≤ 57 := by
    simpa [Char.isDigit, UInt32.le_iff_toNat_le] using h
  refine ⟨?_, hrange⟩
  rw [UInt8.toNat_ofNat']
  exact Nat.mod_eq_of_lt (by omega)

theorem isDigit_of_mem_decimal {n : ℕ} {b : UInt8} (h : b ∈ decimal n) : isDigit b := by
  obtain ⟨c, hc, rfl⟩ := List.mem_map.mp h
  obtain ⟨heq, hle, hge⟩ :=
    toNat_ofNat_digit (Nat.isDigit_of_mem_toDigits (by decide) (by decide) hc)
  simp only [isDigit, Bool.and_eq_true, decide_eq_true_eq, UInt8.le_iff_toNat_le, heq]
  exact ⟨hle, hge⟩

theorem length_decimal_le_iff {n k : ℕ} (hk : 0 < k) :
    (decimal n).length ≤ k ↔ n < 10 ^ k := by
  rw [decimal, List.length_map]
  exact Nat.length_toDigits_le_iff (by decide) hk

theorem length_decimal_pos (n : ℕ) : 0 < (decimal n).length := by
  rw [decimal, List.length_map]
  exact Nat.length_toDigits_pos

theorem digitsValue_map {l : List Char} (h : ∀ c ∈ l, c.isDigit) (n : ℕ) :
    digitsValue n (l.map fun c => UInt8.ofNat c.toNat) = Nat.ofDigitChars 10 l n := by
  induction l generalizing n with
  | nil => simp [digitsValue]
  | cons c l ih =>
      obtain ⟨hc, hl⟩ := List.forall_mem_cons.mp h
      obtain ⟨heq, hle, hge⟩ := toNat_ofNat_digit hc
      have hdigit : isDigit (UInt8.ofNat c.toNat) := by
        simp only [isDigit, Bool.and_eq_true, decide_eq_true_eq, UInt8.le_iff_toNat_le, heq]
        exact ⟨hle, hge⟩
      rw [List.map_cons, digitsValue, if_pos hdigit, ih hl, Nat.ofDigitChars_cons, heq]
      rfl

theorem digitsValue_decimal (n : ℕ) : digitsValue 0 (decimal n) = n := by
  rw [decimal, digitsValue_map, Nat.ofDigitChars_ten_toDigits]
  intro c hc
  exact Nat.isDigit_of_mem_toDigits (by decide) (by decide) hc

theorem atoi_of_isDigit {b : UInt8} (h : isDigit b) (l : List UInt8) :
    atoi (b :: l) = digitsValue 0 (b :: l) := by
  obtain ⟨hle, hge⟩ : 48 ≤ b.toNat ∧ b.toNat ≤ 57 := by
    simpa [isDigit, UInt8.le_iff_toNat_le] using h
  have hspace : isSpace b = false := by
    simp only [isSpace, Bool.or_eq_false_iff, beq_eq_false_iff_ne, ne_eq,
      Bool.and_eq_false_iff, decide_eq_false_iff_not, ← UInt8.toNat_inj, UInt8.le_iff_toNat_le]
    have h32 : (32 : UInt8).toNat = 32 := rfl
    have h13 : (13 : UInt8).toNat = 13 := rfl
    omega
  have hminus : b ≠ 45 := by
    rintro rfl
    exact absurd hle (by decide)
  have hplus : b ≠ 43 := by
    rintro rfl
    exact absurd hle (by decide)
  rw [atoi, hspace, if_neg hminus, if_neg hplus]
  simp

theorem atoi_decimal (n : ℕ) : atoi (decimal n) = n := by
  cases hn : decimal n with
  | nil => exact absurd (length_decimal_pos n) (by simp [hn])
  | cons b l =>
      have hb : b ∈ decimal n := by simp [hn]
      rw [atoi_of_isDigit (isDigit_of_mem_decimal hb), ← hn, digitsValue_decimal]

theorem atoi_replicate_space (k : ℕ) (l : List UInt8) :
    atoi (List.replicate k 32 ++ l) = atoi l := by
  induction k with
  | zero => rfl
  | succ k ih =>
      rw [List.replicate_succ, List.cons_append, atoi, if_pos (by decide), ih]

theorem atoi_padded (n : ℕ) : atoi (padded n) = n := by
  rw [padded, List.leftpad, atoi_replicate_space, atoi_decimal]

theorem length_padded {n : ℕ} (h : n ≤ 99999) : (padded n).length = 5 := by
  have hle : (decimal n).length ≤ 5 := (length_decimal_le_iff (by decide)).mpr (by omega)
  rw [padded, List.length_leftpad]
  exact Nat.max_eq_left hle

theorem mem_padded {n : ℕ} {b : UInt8} (h : b ∈ padded n) : b = 32 ∨ isDigit b := by
  rw [padded, List.leftpad, List.mem_append] at h
  rcases h with h | h
  · exact Or.inl (List.eq_of_mem_replicate h)
  · exact Or.inr (isDigit_of_mem_decimal h)

theorem exists_padded_eq_cons {n : ℕ} (h : n ≤ 9999) : ∃ l, padded n = 32 :: l := by
  have hle : (decimal n).length ≤ 4 := (length_decimal_le_iff (by decide)).mpr (by omega)
  obtain ⟨k, hk⟩ : ∃ k, 5 - (decimal n).length = k + 1 :=
    ⟨4 - (decimal n).length, by omega⟩
  exact ⟨List.replicate k 32 ++ decimal n, by
    rw [padded, List.leftpad, hk, List.replicate_succ, List.cons_append]⟩

theorem sub_le_nine {b : UInt8} (h : isDigit b) : b.toNat - 48 ≤ 9 := by
  have hle : 48 ≤ b.toNat ∧ b.toNat ≤ 57 := by
    simpa [isDigit, UInt8.le_iff_toNat_le] using h
  omega

theorem digitsValue_singleton_le (b : UInt8) : digitsValue 0 [b] ≤ 9 := by
  rw [digitsValue]
  split_ifs with h
  · simpa [digitsValue] using sub_le_nine h
  · exact Nat.zero_le _

theorem digitsValue_cons_le {b c : UInt8} (hc : isDigit c = false) (l : List UInt8) :
    digitsValue 0 (b :: c :: l) ≤ 9 := by
  rw [digitsValue]
  split_ifs with h
  · simpa [digitsValue, hc] using sub_le_nine h
  · exact Nat.zero_le _

theorem atoi_singleton_le (b : UInt8) : atoi [b] ≤ 9 := by
  have hle := digitsValue_singleton_le b
  rw [atoi]
  split_ifs
  · exact Int.le_of_lt (by decide : atoi [] < 9)
  · exact Int.le_of_lt (by decide : -(digitsValue 0 [] : ℤ) < 9)
  · exact Int.le_of_lt (by decide : (digitsValue 0 [] : ℤ) < 9)
  · omega

/-- Two bytes before a space that are neither white space nor a number of two digits. -/
theorem atoi_cons_cons_space_le {x y : UInt8} (hspace : ¬ (isSpace x ∧ isSpace y))
    (hdigit : ¬ (isDigit x ∧ isDigit y)) (l : List UInt8) : atoi (x :: y :: 32 :: l) ≤ 9 := by
  have hy := digitsValue_cons_le (b := y) (c := 32) rfl l
  have hzero : digitsValue 0 (32 :: l) = 0 := rfl
  rw [atoi]
  split_ifs with hx hminus hplus
  · -- `x` is skipped
    rw [atoi, if_neg fun h => hspace ⟨hx, h⟩]
    split_ifs <;> omega
  · omega
  · omega
  · by_cases hxd : isDigit x = true
    · have hyd : isDigit y = false := by
        simpa using fun h => hdigit ⟨hxd, h⟩
      have hle := digitsValue_cons_le (b := x) hyd (32 :: l)
      omega
    · rw [digitsValue, if_neg hxd]
      omega

/-! ## Numbers with a sign -/

theorem length_decimal_mono {m n : ℕ} (h : m ≤ n) :
    (decimal m).length ≤ (decimal n).length := by
  rw [length_decimal_le_iff (length_decimal_pos n)]
  exact Nat.lt_of_le_of_lt h ((length_decimal_le_iff (length_decimal_pos n)).mp (Nat.le_refl _))

theorem digitsValue_append {n : ℕ} {l m : List UInt8} (hl : ∀ b ∈ l, isDigit b)
    (hm : ∀ b ∈ m.head?, isDigit b = false) : digitsValue n (l ++ m) = digitsValue n l := by
  induction l generalizing n with
  | nil =>
      cases m with
      | nil => rfl
      | cons b m => simp [digitsValue, hm b rfl]
  | cons b l ih =>
      obtain ⟨hb, hl⟩ := List.forall_mem_cons.mp hl
      rw [List.cons_append, digitsValue, digitsValue, if_pos hb, if_pos hb, ih hl]

theorem atoi_decimalInt_append (n : ℤ) {m : List UInt8}
    (hm : ∀ b ∈ m.head?, isDigit b = false) : atoi (decimalInt n ++ m) = n := by
  have hvalue : digitsValue 0 (decimal n.natAbs ++ m) = n.natAbs := by
    rw [digitsValue_append (fun b hb => isDigit_of_mem_decimal hb) hm, digitsValue_decimal]
  unfold decimalInt
  split_ifs with hneg
  · rw [List.cons_append, atoi, if_neg (by decide), if_pos rfl, hvalue]
    omega
  · cases hn : decimal n.natAbs with
    | nil => exact absurd (length_decimal_pos n.natAbs) (by simp [hn])
    | cons b l =>
        have hb : b ∈ decimal n.natAbs := by simp [hn]
        rw [List.cons_append, atoi_of_isDigit (isDigit_of_mem_decimal hb), ← List.cons_append,
          ← hn, hvalue]
        omega

theorem atoi32_mem_range (l : List UInt8) : -2 ^ 31 ≤ atoi32 l ∧ atoi32 l < 2 ^ 31 := by
  rw [atoi32]
  omega

theorem atoi32_decimalInt_append {n : ℤ} (hn : -2 ^ 31 ≤ n ∧ n < 2 ^ 31) {m : List UInt8}
    (hm : ∀ b ∈ m.head?, isDigit b = false) : atoi32 (decimalInt n ++ m) = n := by
  rw [atoi32, atoi_decimalInt_append n hm]
  omega

theorem length_decimalInt_pos (n : ℤ) : 0 < (decimalInt n).length := by
  unfold decimalInt
  split_ifs
  · exact Nat.succ_pos _
  · exact length_decimal_pos _

theorem mem_decimalInt {n : ℤ} {b : UInt8} (h : b ∈ decimalInt n) : b = 45 ∨ isDigit b := by
  unfold decimalInt at h
  split_ifs at h
  · rcases List.mem_cons.mp h with rfl | h
    · exact Or.inl rfl
    · exact Or.inr (isDigit_of_mem_decimal h)
  · exact Or.inr (isDigit_of_mem_decimal h)

theorem digitsValue_lt (n : ℕ) (l : List UInt8) :
    digitsValue n l < (n + 1) * 10 ^ l.length := by
  induction l generalizing n with
  | nil => simp [digitsValue]
  | cons b l ih =>
      rw [digitsValue, List.length_cons]
      have hpow : 0 < 10 ^ l.length := Nat.pow_pos (by decide)
      split_ifs with hb
      · calc digitsValue (10 * n + (b.toNat - 48)) l
            < (10 * n + (b.toNat - 48) + 1) * 10 ^ l.length := ih _
          _ ≤ ((n + 1) * 10) * 10 ^ l.length := by
              have hle := sub_le_nine hb
              exact Nat.mul_le_mul_right _ (by omega)
          _ = (n + 1) * 10 ^ (l.length + 1) := by rw [Nat.pow_succ', Nat.mul_assoc]
      · calc n < n + 1 := Nat.lt_succ_self n
          _ = (n + 1) * 1 := (Nat.mul_one _).symm
          _ ≤ (n + 1) * 10 ^ (l.length + 1) := Nat.mul_le_mul_left _ (Nat.pow_pos (by decide))

theorem length_decimal_digitsValue_le {l : List UInt8} (hl : l ≠ []) :
    (decimal (digitsValue 0 l)).length ≤ l.length := by
  rw [length_decimal_le_iff (List.length_pos_iff.mpr hl)]
  simpa using digitsValue_lt 0 l

theorem length_decimalInt_le_of_natAbs (n : ℤ) :
    (decimalInt n).length ≤ (decimal n.natAbs).length + 1 := by
  unfold decimalInt
  split_ifs <;> simp

/-- A number has no more digits than the text that it is read from. -/
theorem length_decimalInt_atoi_le {l : List UInt8} (hl : l ≠ []) :
    (decimalInt (atoi l)).length ≤ l.length := by
  induction l with
  | nil => exact absurd rfl hl
  | cons b l ih =>
      have hzero : (decimalInt 0).length ≤ (b :: l).length := by
        rw [List.length_cons]
        exact Nat.succ_le_succ (Nat.zero_le _)
      rw [atoi]
      split_ifs
      · by_cases hnil : l = []
        · rw [hnil] at hzero ⊢
          exact hzero
        · exact Nat.le_succ_of_le (ih hnil)
      · by_cases hnil : l = []
        · rw [hnil] at hzero ⊢
          exact hzero
        · have hle := length_decimal_digitsValue_le hnil
          have habs := length_decimalInt_le_of_natAbs (-(digitsValue 0 l : ℤ))
          rw [Int.natAbs_neg, Int.natAbs_natCast] at habs
          rw [List.length_cons]
          omega
      · by_cases hnil : l = []
        · rw [hnil] at hzero ⊢
          exact hzero
        · rw [decimalInt, if_neg (by omega), Int.natAbs_natCast]
          exact Nat.le_succ_of_le (length_decimal_digitsValue_le hnil)
      · rw [decimalInt, if_neg (by omega), Int.natAbs_natCast]
        exact length_decimal_digitsValue_le (List.cons_ne_nil b l)

theorem length_decimalInt_atoi32_le {l : List UInt8} (hl : l ≠ []) :
    (decimalInt (atoi32 l)).length ≤ l.length := by
  refine Nat.le_trans ?_ (length_decimalInt_atoi_le hl)
  by_cases hneg : atoi l < 0
  · have hneg32 : atoi32 l < 0 := by
      rw [atoi32]
      omega
    rw [decimalInt, decimalInt, if_pos hneg, if_pos hneg32, List.length_cons, List.length_cons]
    refine Nat.succ_le_succ (length_decimal_mono ?_)
    rw [atoi32]
    omega
  · have hneg32 : ¬ atoi32 l < 0 := by
      rw [atoi32]
      omega
    rw [decimalInt, decimalInt, if_neg hneg, if_neg hneg32]
    refine length_decimal_mono ?_
    rw [atoi32]
    omega

end Text
