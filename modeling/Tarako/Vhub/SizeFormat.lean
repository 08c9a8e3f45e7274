import Tarako.Lib.Hex

/-!
# The size option of vhub

`convert_size_format` makes `data_max` of the argument of `-s`: a number, and k or M behind it.
`save_data` calls itself with what does not fit into a segment, and comes back only when the
next segment takes something. `honours_iff` says for which arguments it does.
-/

namespace Tarako

namespace Vhub

open Text

/-! ## `convert_size_format` -/

def digitsIn (base : ℕ) (s : List UInt8) : ℕ :=
  (s.takeWhile fun b => Hex.isHexDigit b && Hex.digitValue b < base).foldl
    (fun n b => base * n + Hex.digitValue b) 0

def unsignedNumber : List UInt8 → ℕ
  | 48 :: x :: s => if x = 120 ∨ x = 88 then digitsIn 16 s else digitsIn 8 (x :: s)
  | s => digitsIn 10 s

/-- `strtol(s, NULL, 0)` where `long` has 32 bits; it stops at the ends of the range. -/
def strtol0 (s : List UInt8) : ℤ :=
  match s.dropWhile isSpace with
  | [] => 0
  | b :: t =>
      if b = 45 then max (-2 ^ 31) (-unsignedNumber t)
      else if b = 43 then min (2 ^ 31 - 1) (unsignedNumber t)
      else min (2 ^ 31 - 1) (unsignedNumber (b :: t))

def isUnit (b : UInt8) : Bool := b = 107 || b = 75 || b = 109 || b = 77

def sizeNumber (fmt : List UInt8) : ℤ := strtol0 ((cstring fmt).takeWhile fun b => ¬ isUnit b)

def sizeMult (fmt : List UInt8) : Int32 :=
  match (cstring fmt).find? isUnit with
  | some b => if b = 107 ∨ b = 75 then 1024 else 1024 * 1024
  | none => 1

/-- `convert_size_format`; there is no result when `strcpy` leaves `buf[64]`. -/
def convertSizeFormat (fmt : List UInt8) : Option Int32 :=
  if (cstring fmt).length < 64 then some (Int32.ofInt (sizeNumber fmt) * sizeMult fmt) else none

/-! ## `save_data` -/

/-- `a - b` in `int`, which has no result when it overflows. -/
def subInt (a b : Int32) : Option Int32 :=
  if -2 ^ 31 ≤ a.toInt - b.toInt ∧ a.toInt - b.toInt < 2 ^ 31 then some (a - b) else none

/-- `save_data` for `count` bytes with `fd_out_data_pointer` at `n`: the pointer when it comes
back within `fuel` calls. Each write loop writes all of its part or gives up, as the list
says. -/
def saveDataPointer (dataMax : Int32) : ℕ → Int32 → Int32 → List Bool → Option Int32
  | 0, _, _, _ => none
  | fuel + 1, n, count, gaveUps =>
      if 0 < count then
        let m := if count < n then count else n
        (if count < n then some 0 else subInt count n).bind fun left =>
          if 0 < m then
            if gaveUps.headD false then some (n - m)
            else if n - m ≤ 0 then
              if left ≠ 0 then saveDataPointer dataMax fuel dataMax left gaveUps.tail
              else some dataMax
            else some (n - m)
          else if n ≤ 0 then
            if left ≠ 0 then saveDataPointer dataMax fuel dataMax left gaveUps else some dataMax
          else some n
      else some n

def saveDataCalls (dataMax : Int32) (fuel : ℕ) : Int32 → List (Int32 × List Bool) → Option Int32
  | n, [] => some n
  | n, c :: cs =>
      (saveDataPointer dataMax fuel n c.1 c.2).bind fun n => saveDataCalls dataMax fuel n cs

/-- From the state that `main` sets up, every call comes back, whatever the buffers are. -/
def EndsAlways (dataMax : Int32) : Prop :=
  ∀ calls, ∃ fuel n, saveDataCalls dataMax fuel dataMax calls = some n

/-- The argument gives the size that it says, and `save_data` ends with it. -/
def Honours (fmt : List UInt8) : Prop :=
  ∃ dataMax, convertSizeFormat fmt = some dataMax ∧
    dataMax.toInt = sizeNumber fmt * (sizeMult fmt).toInt ∧ EndsAlways dataMax

/-! ## When it ends -/

theorem subInt_of_le {a b : Int32} (hb : 0 ≤ b.toInt) (hle : b.toInt ≤ a.toInt) :
    subInt a b = some (a - b) ∧ (a - b).toInt = a.toInt - b.toInt := by
  have ha := a.toInt_lt
  refine ⟨if_pos ⟨by omega, by omega⟩, ?_⟩
  rw [Int32.toInt_sub]
  exact Int.bmod_eq_of_le (by omega) (by omega)

/-- With a segment that takes nothing, only a call for no bytes comes back. -/
theorem saveDataPointer_eq_none {dataMax : Int32} (hmax : dataMax.toInt ≤ 0) (fuel : ℕ)
    {count : Int32} (hcount : 0 < count.toInt) (gaveUps : List Bool) :
    saveDataPointer dataMax fuel dataMax count gaveUps = none := by
  have h0 : (0 : Int32).toInt = 0 := rfl
  induction fuel generalizing count with
  | zero => rfl
  | succ fuel ih =>
      have hpos : 0 < count := Int32.lt_iff_toInt_lt.mpr hcount
      have hlt : ¬ count < dataMax := by
        rw [Int32.lt_iff_toInt_lt]
        omega
      have hm : ¬ 0 < dataMax := by
        rw [Int32.lt_iff_toInt_lt, h0]
        omega
      have hfull : dataMax ≤ 0 := by
        rw [Int32.le_iff_toInt_le, h0]
        exact hmax
      rw [saveDataPointer, if_pos hpos]
      simp only [if_neg hlt, if_neg hm, if_pos hfull]
      rw [Option.bind_eq_none_iff]
      intro left hleft
      rw [subInt] at hleft
      split_ifs at hleft with hrange
      cases hleft
      have hsub : (count - dataMax).toInt = count.toInt - dataMax.toInt := by
        rw [Int32.toInt_sub]
        exact Int.bmod_eq_of_le (by omega) (by omega)
      have hne : count - dataMax ≠ 0 := by
        intro h
        rw [h, h0] at hsub
        omega
      rw [if_pos hne]
      exact ih (by omega)

theorem exists_saveDataPointer {dataMax : Int32} (fuel : ℕ) {n count : Int32}
    (hn : 0 < n.toInt) (hle : n.toInt ≤ dataMax.toInt) (hfuel : count.toInt < fuel)
    (hfuel0 : 0 < fuel) (gaveUps : List Bool) :
    ∃ n', saveDataPointer dataMax fuel n count gaveUps = some n' ∧
      0 ≤ n'.toInt ∧ n'.toInt ≤ dataMax.toInt := by
  have h0 : (0 : Int32).toInt = 0 := rfl
  induction fuel generalizing n count gaveUps with
  | zero => omega
  | succ fuel ih =>
      rw [saveDataPointer]
      by_cases hcount : 0 < count
      · have hpos : 0 < count.toInt := Int32.lt_iff_toInt_lt.mp hcount
        rw [if_pos hcount]
        by_cases hlt : count < n
        · have hroom := Int32.lt_iff_toInt_lt.mp hlt
          obtain ⟨-, hsub⟩ := subInt_of_le (Int.le_of_lt hpos) (Int.le_of_lt hroom)
          have hkeep : ¬ n - count ≤ 0 := by
            rw [Int32.le_iff_toInt_le, h0]
            omega
          refine ⟨n - count, ?_, by omega, by omega⟩
          simp only [if_pos hlt, Option.bind_some, if_pos hcount, if_neg hkeep, ite_self]
        · have hfull : n.toInt ≤ count.toInt := Int.not_lt.mp (mt Int32.lt_iff_toInt_lt.mpr hlt)
          obtain ⟨hsome, hsub⟩ := subInt_of_le (Int.le_of_lt hn) hfull
          have hm : 0 < n := Int32.lt_iff_toInt_lt.mpr hn
          have hend : n - n ≤ 0 := by
            rw [Int32.sub_self]
            exact Int32.le_refl 0
          simp only [if_neg hlt, hsome, Option.bind_some, if_pos hm, if_pos hend]
          split_ifs with hgave hleft
          · exact ⟨n - n, rfl, by rw [Int32.sub_self, h0], by rw [Int32.sub_self, h0]; omega⟩
          · exact ih (Int.lt_of_lt_of_le hn hle) (Int.le_refl _) (by omega) (by omega) _
          · exact ⟨dataMax, rfl, by omega, Int.le_refl _⟩
      · rw [if_neg hcount]
        exact ⟨n, rfl, Int.le_of_lt hn, hle⟩

theorem exists_saveDataPointer_zero {dataMax : Int32} (hmax : 0 < dataMax.toInt) (fuel : ℕ)
    {n count : Int32} (hn : 0 ≤ n.toInt) (hle : n.toInt ≤ dataMax.toInt)
    (hfuel : count.toInt + 1 < fuel) (hfuel1 : 1 < fuel) (gaveUps : List Bool) :
    ∃ n', saveDataPointer dataMax fuel n count gaveUps = some n' ∧
      0 ≤ n'.toInt ∧ n'.toInt ≤ dataMax.toInt := by
  have h0 : (0 : Int32).toInt = 0 := rfl
  rcases Int.lt_or_eq_of_le hn with hpos | hzero
  · exact exists_saveDataPointer fuel hpos hle (by omega) (by omega) gaveUps
  · obtain rfl : n = 0 := Int32.toInt_inj.mp (by omega)
    obtain ⟨fuel, rfl⟩ := Nat.exists_eq_succ_of_ne_zero (Nat.ne_of_gt (Nat.lt_of_succ_lt hfuel1))
    rw [Nat.succ_eq_add_one, saveDataPointer]
    by_cases hcount : 0 < count
    · have hpos : 0 < count.toInt := Int32.lt_iff_toInt_lt.mp hcount
      have hlt : ¬ count < 0 := Int32.not_lt.mpr (Int32.le_of_lt hcount)
      obtain ⟨hsome, -⟩ := @subInt_of_le count 0 (Int.le_refl 0) (Int.le_of_lt hpos)
      have hne : count ≠ 0 := by
        rintro rfl
        exact absurd hpos (by decide)
      rw [Int32.sub_zero] at hsome
      simp only [if_pos hcount, if_neg hlt, hsome, Option.bind_some, Int32.lt_irrefl, if_false,
        Int32.le_refl, if_true, ne_eq, hne, not_false_eq_true]
      exact exists_saveDataPointer fuel hmax (Int.le_refl _) (by omega) (by omega) gaveUps
    · rw [if_neg hcount]
      exact ⟨0, rfl, hn, hle⟩

theorem endsAlways_iff (dataMax : Int32) : EndsAlways dataMax ↔ 0 < dataMax.toInt := by
  constructor
  · intro h
    by_contra hmax
    obtain ⟨fuel, n, hcalls⟩ := h [(1, [])]
    rw [saveDataCalls, saveDataPointer_eq_none (Int.not_lt.mp hmax) fuel (by decide)] at hcalls
    cases hcalls
  · intro hmax calls
    have hrun : ∀ n : Int32, 0 ≤ n.toInt → n.toInt ≤ dataMax.toInt →
        ∃ n', saveDataCalls dataMax (2 ^ 31 + 1) n calls = some n' := by
      induction calls with
      | nil => exact fun n _ _ => ⟨n, rfl⟩
      | cons c cs ih =>
          intro n hn hle
          have hcount := c.1.toInt_lt
          obtain ⟨n', hcall, hn', hle'⟩ := @exists_saveDataPointer_zero dataMax hmax (2 ^ 31 + 1)
            n c.1 hn hle (by omega) (by decide) c.2
          obtain ⟨n'', hrest⟩ := ih n' hn' hle'
          exact ⟨n'', by rw [saveDataCalls, hcall, Option.bind_some, hrest]⟩
    obtain ⟨n, hn⟩ := hrun dataMax (Int.le_of_lt hmax) (Int.le_refl _)
    exact ⟨_, n, hn⟩

theorem strtol0_mem_range (s : List UInt8) : -2 ^ 31 ≤ strtol0 s ∧ strtol0 s < 2 ^ 31 := by
  unfold strtol0
  split
  · decide
  · split_ifs <;> omega

/-- An argument is honoured exactly when it fits into `buf` and the product is a positive
`int`. -/
theorem honours_iff (fmt : List UInt8) :
    Honours fmt ↔ (cstring fmt).length < 64 ∧ 0 < sizeNumber fmt * (sizeMult fmt).toInt ∧
      sizeNumber fmt * (sizeMult fmt).toInt < 2 ^ 31 := by
  have hnumber := strtol0_mem_range ((cstring fmt).takeWhile fun b => ¬ isUnit b)
  have hof : (Int32.ofInt (sizeNumber fmt)).toInt = sizeNumber fmt := by
    rw [Int32.toInt_ofInt]
    exact Int.bmod_eq_of_le hnumber.1 hnumber.2
  constructor
  · rintro ⟨dataMax, hconvert, hexact, hends⟩
    have hpos := (endsAlways_iff dataMax).mp hends
    have hlt := dataMax.toInt_lt
    rw [convertSizeFormat] at hconvert
    split_ifs at hconvert with hlength
    exact ⟨hlength, hexact ▸ hpos, hexact ▸ hlt⟩
  · rintro ⟨hlength, hpos, hlt⟩
    have hproduct : (Int32.ofInt (sizeNumber fmt) * sizeMult fmt).toInt =
        sizeNumber fmt * (sizeMult fmt).toInt := by
      rw [Int32.toInt_mul, hof]
      exact Int.bmod_eq_of_le (by omega) hlt
    refine ⟨_, if_pos hlength, hproduct, (endsAlways_iff _).mpr ?_⟩
    rw [hproduct]
    exact hpos

def fourGiga : List UInt8 := [52, 48, 57, 54, 109]

theorem not_honours_fourGiga : ¬ ∀ fmt : List UInt8, Honours fmt := by
  intro h
  have hlt := ((honours_iff fourGiga).mp (h fourGiga)).2.2
  exact absurd hlt (by decide)

end Vhub

end Tarako
