import Mathlib.Data.Nat.ModEq
import Tarako.Lib.Words

/-!
# End-around-carry sums

Numbers up to `m` are added with the carry out of the top added in again at the bottom.
Such a sum is the ordinary one reduced modulo `m`, where a sum that is not zero is never
reduced to zero. The checksums over 16-bit words take `m = 65535`, add up in 32 bits and
fold the carries in at the end.
-/

namespace OnesSum

/-- Addition with the carry taken around. -/
def add (m a b : ℕ) : ℕ := if a + b ≤ m then a + b else a + b - m

def sum (m : ℕ) (ws : List ℕ) : ℕ := ws.foldl (add m) 0

/-- `r` is what `n` is reduced to. -/
structure Reduced (m n r : ℕ) : Prop where
  le : r ≤ m
  modEq : r ≡ n [MOD m]
  zero : r = 0 ↔ n = 0

variable {m n r s : ℕ}

theorem Reduced.refl (h : n ≤ m) : Reduced m n n := ⟨h, Nat.ModEq.refl n, Iff.rfl⟩

/-- There is one reduced number: zero and `m` are told apart by whether `n` is zero. -/
theorem Reduced.unique (hr : Reduced m n r) (hs : Reduced m n s) : r = s := by
  have hmod : r ≡ s [MOD m] := hr.modEq.trans hs.modEq.symm
  by_cases hzero : n = 0
  · rw [hr.zero.mpr hzero, hs.zero.mpr hzero]
  · have hrpos : 0 < r := Nat.pos_of_ne_zero fun h => hzero (hr.zero.mp h)
    have hspos : 0 < s := Nat.pos_of_ne_zero fun h => hzero (hs.zero.mp h)
    have hrle := hr.le
    have hsle := hs.le
    obtain hle | hle := Nat.le_total r s
    · have hdvd := (Nat.modEq_iff_dvd' hle).mp hmod
      have hsmall : s - r < m := by omega
      have hsub := Nat.eq_zero_of_dvd_of_lt hdvd hsmall
      omega
    · have hdvd := (Nat.modEq_iff_dvd' hle).mp hmod.symm
      have hsmall : r - s < m := by omega
      have hsub := Nat.eq_zero_of_dvd_of_lt hdvd hsmall
      omega

theorem Reduced.add (hr : Reduced m n r) {w : ℕ} (hw : w ≤ m) :
    Reduced m (n + w) (add m r w) := by
  have hle := hr.le
  have hzero := hr.zero
  have hmod : r + w ≡ n + w [MOD m] := Nat.ModEq.add_right w hr.modEq
  unfold OnesSum.add
  split_ifs with hfits
  · exact ⟨hfits, hmod, by omega⟩
  · refine ⟨by omega, ?_, by omega⟩
    have hcarry : r + w - m ≡ r + w [MOD m] := by
      have hback : r + w - m + m ≡ r + w [MOD m] := by
        rw [Nat.sub_add_cancel (by omega)]
      exact (Nat.ModEq.symm (by simp [Nat.ModEq])).trans hback
    exact hcarry.trans hmod

theorem reduced_sum {ws : List ℕ} (h : ∀ w ∈ ws, w ≤ m) : Reduced m ws.sum (sum m ws) := by
  have hfold : ∀ (ws : List ℕ) (n r : ℕ), (∀ w ∈ ws, w ≤ m) → Reduced m n r →
      Reduced m (n + ws.sum) (ws.foldl (OnesSum.add m) r) := by
    intro ws
    induction ws with
    | nil => exact fun n r _ hr => hr
    | cons w ws ih =>
        intro n r hws hr
        rw [List.sum_cons, ← Nat.add_assoc]
        exact ih _ _ (fun v hv => hws v (List.mem_cons_of_mem w hv))
          (hr.add (hws w List.mem_cons_self))
  have hzero := hfold ws 0 0 h (Reduced.refl (Nat.zero_le m))
  rwa [Nat.zero_add] at hzero

/-! ### Sums of 16-bit words in 32 bits -/

/-- The words of a stretch of little-endian memory; an odd last byte stands for itself. -/
def words : List UInt8 → List ℕ
  | a :: b :: rest => (a.toNat + 256 * b.toNat) :: words rest
  | [a] => [a.toNat]
  | [] => []

theorem words_le (data : List UInt8) : ∀ w ∈ words data, w ≤ 65535 := by
  fun_induction words data with
  | case1 a b rest ih =>
      have ha := a.toNat_lt
      have hb := b.toNat_lt
      intro w hw
      obtain rfl | hw := List.mem_cons.mp hw
      · omega
      · exact ih w hw
  | case2 a =>
      have ha := a.toNat_lt
      intro w hw
      rw [List.mem_singleton.mp hw]
      omega
  | case3 => exact fun w hw => absurd hw List.not_mem_nil

/-- Data of less than two to the seventeenth bytes do not overflow 32 bits. -/
theorem sum_words_le (data : List UInt8) : 2 * (words data).sum ≤ 65535 * (data.length + 1) := by
  fun_induction words data with
  | case1 a b rest ih =>
      have ha := a.toNat_lt
      have hb := b.toNat_lt
      simp only [List.sum_cons, List.length_cons]
      omega
  | case2 a =>
      have ha := a.toNat_lt
      simp only [List.sum_singleton, List.length_singleton]
      omega
  | case3 => exact Nat.zero_le _

theorem toNat_word16 (a b : UInt8) :
    (Words.word16 a b).toUInt32.toNat = a.toNat + 256 * b.toNat := by
  have ha := a.toNat_lt
  have hb := b.toNat_lt
  rw [UInt16.toNat_toUInt32, Words.word16]
  exact UInt16.toNat_ofNat_of_lt' (show _ < 65536 by omega)

/-- The carries of a sum folded in, twice. -/
def fold (sum : UInt32) : UInt16 :=
  let once := (sum >>> 16) + (sum &&& 0xFFFF)
  (once + (once >>> 16)).toUInt16

theorem toNat_fold (sum : UInt32) : (fold sum).toNat =
    (sum.toNat / 65536 + sum.toNat % 65536 +
      (sum.toNat / 65536 + sum.toNat % 65536) / 65536) % 65536 := by
  have hsum := sum.toNat_lt
  have hhigh : (sum >>> 16).toNat = sum.toNat / 65536 := by
    rw [UInt32.toNat_shiftRight, Nat.shiftRight_eq_div_pow]
    rfl
  have hlow : (sum &&& 0xFFFF).toNat = sum.toNat % 65536 := by
    rw [UInt32.toNat_and]
    exact Nat.and_two_pow_sub_one_eq_mod sum.toNat 16
  have honce : ((sum >>> 16) + (sum &&& 0xFFFF)).toNat =
      sum.toNat / 65536 + sum.toNat % 65536 := by
    rw [UInt32.toNat_add, hhigh, hlow]
    omega
  have hcarry : (((sum >>> 16) + (sum &&& 0xFFFF)) >>> 16).toNat =
      (sum.toNat / 65536 + sum.toNat % 65536) / 65536 := by
    rw [UInt32.toNat_shiftRight, Nat.shiftRight_eq_div_pow, honce]
    rfl
  rw [fold, UInt32.toNat_toUInt16, UInt32.toNat_add, hcarry, honce]
  exact Nat.mod_mod_of_dvd _ (by decide)

theorem reduced_fold (sum : UInt32) : Reduced 65535 sum.toNat (fold sum).toNat := by
  have hfold := toNat_fold sum
  obtain ⟨high, hhigh⟩ : ∃ q, sum.toNat / 65536 = q := ⟨_, rfl⟩
  obtain ⟨low, hlow⟩ : ∃ q, sum.toNat % 65536 = q := ⟨_, rfl⟩
  have hsum := sum.toNat_lt
  have hsplit : sum.toNat = 65535 * high + (high + low) := by omega
  have hhighLt : high < 65536 := by omega
  have hlowLt : low < 65536 := by omega
  rw [hhigh, hlow] at hfold
  obtain hcarry | hcarry := Nat.lt_or_ge (high + low) 65536
  · rw [Nat.div_eq_of_lt hcarry, Nat.add_zero, Nat.mod_eq_of_lt hcarry] at hfold
    refine ⟨by omega, ?_, by omega⟩
    rw [hfold, hsplit]
    exact (Nat.mul_add_mod _ _ _).symm
  · have hone : (high + low) / 65536 = 1 := by omega
    rw [hone] at hfold
    have hvalue : (fold sum).toNat + 65535 = high + low := by omega
    refine ⟨by omega, ?_, by omega⟩
    rw [hsplit, ← hvalue]
    change _ % _ = _ % _
    rw [Nat.mul_add_mod, Nat.add_mod_right]

/-- The sum of the words of data, in 32 bits. -/
def accumulate : List UInt8 → UInt32 → UInt32
  | a :: b :: rest, sum => accumulate rest (sum + (Words.word16 a b).toUInt32)
  | [a], sum => sum + a.toUInt32
  | [], sum => sum

theorem toNat_accumulate (data : List UInt8) (sum : UInt32)
    (h : sum.toNat + (words data).sum < 2 ^ 32) :
    (accumulate data sum).toNat = sum.toNat + (words data).sum := by
  fun_induction accumulate data sum with
  | case1 a b rest sum ih =>
      rw [words, List.sum_cons] at h ⊢
      have hadd : (sum + (Words.word16 a b).toUInt32).toNat =
          sum.toNat + (a.toNat + 256 * b.toNat) := by
        rw [UInt32.toNat_add, toNat_word16]
        exact Nat.mod_eq_of_lt (by omega)
      rw [ih (by omega), hadd]
      omega
  | case2 a sum =>
      rw [words, List.sum_singleton] at h ⊢
      rw [UInt32.toNat_add, UInt8.toNat_toUInt32]
      exact Nat.mod_eq_of_lt h
  | case3 sum => rfl

theorem toNat_fold_accumulate {data : List UInt8} (h : data.length < 2 ^ 17) :
    (fold (accumulate data 0)).toNat = sum 65535 (words data) := by
  have hle := sum_words_le data
  have hsum : (accumulate data 0).toNat = (words data).sum := by
    rw [toNat_accumulate data 0 (by rw [UInt32.toNat_zero]; omega), UInt32.toNat_zero,
      Nat.zero_add]
  have hfold := reduced_fold (accumulate data 0)
  rw [hsum] at hfold
  exact hfold.unique (reduced_sum (words_le data))

theorem words_append {data : List UInt8} (h : data.length % 2 = 0) (more : List UInt8) :
    words (data ++ more) = words data ++ words more := by
  fun_induction words data with
  | case1 a b rest ih =>
      have hrest : rest.length % 2 = 0 := by
        simp only [List.length_cons] at h
        omega
      rw [List.cons_append, List.cons_append, words, ih hrest]
      rfl
  | case2 a => exact absurd h Nat.one_ne_zero
  | case3 => rfl

theorem sum_append_complement {m : ℕ} {ws : List ℕ} (h : ∀ w ∈ ws, w ≤ m) :
    sum m (ws ++ [m - sum m ws]) = m := by
  have hle := (reduced_sum h).le
  rw [sum, List.foldl_append]
  change add m (sum m ws) (m - sum m ws) = m
  rw [add, if_pos (by omega)]
  omega

end OnesSum
