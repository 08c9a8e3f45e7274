import Tarako.Lib.Memory
import Tarako.Lib.OnesSum
import Tarako.NvmDaemon.Checksum

/-!
# The checksum at an odd address

`calc_checksum` has a loop of its own for data at an odd address. Its pointer is one to
`short`, too, so that a turn reads four bytes where it counts two: the loop reads what lies
behind the data, and the result depends on it.
-/

namespace Tarako

namespace NvmDaemon

open Words

/-- A `short` at an address, on a machine that reads one anywhere. -/
def short (m : Memory) (i : ℕ) : UInt32 := (word16 (m i) (m (i + 1))).toUInt32

/-- The loop for an odd address, with `len` bytes left: `pstart += 2` is four bytes. -/
def oddLoop : ℕ → Memory → UInt32 → UInt32
  | len + 2, m, checksum =>
      oddLoop len (m.shift 4) (checksum + (short m 0 ||| (short m 2 <<< 8)))
  | 1, m, checksum => checksum + short m 0
  | 0, _, checksum => checksum

/-- `calc_checksum(dat, len)` for data at an odd or an even address, with the memory from
the address on. -/
def calcChecksumAt (odd : Bool) (m : Memory) (len : ℕ) : UInt16 :=
  if odd then ~~~ OnesSum.fold (oddLoop len m 0)
  else calcChecksum ((List.range len).map m)

def referenceChecksum (dat : List UInt8) : UInt16 :=
  ~~~ UInt16.ofNat (OnesSum.sum 65535 (OnesSum.words dat))

/-- The data lie in the memory, with anything behind them. -/
def Holds (m : Memory) (dat : List UInt8) : Prop := (List.range dat.length).map m = dat

/-! ### Even addresses -/

theorem checksumLoop_eq (dat : List UInt8) (checksum : UInt32) :
    checksumLoop dat checksum = OnesSum.accumulate dat checksum := by
  fun_induction checksumLoop dat checksum with
  | case1 a b dat checksum ih => rw [ih, OnesSum.accumulate]
  | case2 a checksum => rw [OnesSum.accumulate]
  | case3 checksum => rw [OnesSum.accumulate]

theorem calcChecksum_eq {dat : List UInt8} (h : dat.length < 2 ^ 17) :
    calcChecksum dat = referenceChecksum dat := by
  have hfold : calcChecksum dat = ~~~ OnesSum.fold (checksumLoop dat 0) := rfl
  rw [hfold, checksumLoop_eq, referenceChecksum, ← OnesSum.toNat_fold_accumulate h,
    UInt16.ofNat_toNat]

/-! ### Odd addresses -/

def lastRead (len : ℕ) : ℕ := 2 * len - 1

def lastWeight (len : ℕ) : UInt32 := if len % 2 = 0 then 0x10000 else 0x100

/-- A byte at the top of the second short of a turn, where there was a zero. -/
theorem or_shiftLeft_of_high {x y z v : UInt32} (hx : x.toNat < 2 ^ 16) (hy : y.toNat < 2 ^ 8)
    (hv : v.toNat < 2 ^ 8) (hz : z.toNat = v.toNat <<< 8 + y.toNat) :
    x ||| (z <<< 8) = (x ||| (y <<< 8)) + v * 0x10000 := by
  have hshift : ∀ u : UInt32, u.toNat < 2 ^ 24 → (u <<< 8).toNat = u.toNat <<< 8 := by
    intro u hu
    rw [UInt32.toNat_shiftLeft]
    refine Nat.mod_eq_of_lt ?_
    rw [Nat.shiftLeft_eq]
    change u.toNat * 256 < 4294967296
    omega
  have hzlt : z.toNat < 2 ^ 24 := by
    rw [hz, Nat.shiftLeft_eq]
    omega
  have hyShift : y.toNat <<< 8 < 2 ^ 16 := by
    rw [Nat.shiftLeft_eq]
    omega
  have hor : x.toNat ||| y.toNat <<< 8 < 2 ^ 16 := Nat.or_lt_two_pow hx hyShift
  have hsplit : z.toNat <<< 8 = v.toNat <<< 16 ||| y.toNat <<< 8 := by
    rw [← Nat.shiftLeft_add_eq_or_of_lt hyShift, hz]
    simp only [Nat.shiftLeft_eq]
    omega
  apply UInt32.toNat_inj.mp
  rw [UInt32.toNat_or, hshift z hzlt, hsplit, ← Nat.or_assoc, Nat.or_comm x.toNat, Nat.or_assoc,
    ← Nat.shiftLeft_add_eq_or_of_lt hor, UInt32.toNat_add, UInt32.toNat_or,
    hshift y (by omega), UInt32.toNat_mul, Nat.shiftLeft_eq, Nat.add_comm]
  change _ = (_ + v.toNat * 65536 % 4294967296) % 4294967296
  omega

theorem short_of_high {m m' : Memory} {i : ℕ} (hlow : m' i = m i) (hzero : m (i + 1) = 0) :
    (short m' i).toNat = (m' (i + 1)).toUInt32.toNat <<< 8 + (short m i).toNat := by
  rw [short, short, OnesSum.toNat_word16, OnesSum.toNat_word16, hlow, hzero,
    Nat.shiftLeft_eq, UInt8.toNat_zero, UInt8.toNat_toUInt32]
  omega

theorem oddLoop_update : ∀ (len : ℕ), 0 < len → ∀ (m m' : Memory) (checksum : UInt32),
    m (lastRead len) = 0 → (∀ i < lastRead len, m' i = m i) →
      oddLoop len m' checksum =
        oddLoop len m checksum + (m' (lastRead len)).toUInt32 * lastWeight len
  | 1, _, m, m', checksum, hzero, hother => by
      have hhigh := short_of_high (hother 0 (by decide)) hzero
      have hturn : short m' 0 = short m 0 + (m' 1).toUInt32 * 0x100 := by
        have hv := (m' 1).toNat_lt
        have hlt := (short m' 0).toNat_lt
        apply UInt32.toNat_inj.mp
        rw [hhigh, UInt32.toNat_add, UInt32.toNat_mul, Nat.shiftLeft_eq, Nat.add_comm]
        rw [hhigh, Nat.shiftLeft_eq] at hlt
        change _ = (_ + (m' 1).toNat * 256 % 4294967296) % 4294967296
        change (m' 1).toNat * 256 + _ < 4294967296 at hlt
        change _ + (m' 1).toNat * 256 = _
        omega
      change checksum + short m' 0 = checksum + short m 0 + (m' 1).toUInt32 * 0x100
      rw [hturn, UInt32.add_assoc]
  | 2, _, m, m', checksum, hzero, hother => by
      have hfirst : short m' 0 = short m 0 := by
        rw [short, short, hother 0 (by decide), hother (0 + 1) (by decide)]
      have hm0 : (short m 0).toNat < 2 ^ 16 := by
        have ha := (m 0).toNat_lt
        have hb := (m (0 + 1)).toNat_lt
        rw [short, OnesSum.toNat_word16]
        omega
      have hm2 : (short m 2).toNat < 2 ^ 8 := by
        rw [short, OnesSum.toNat_word16, show m (2 + 1) = 0 from hzero]
        exact (m 2).toNat_lt
      have hv : (m' 3).toUInt32.toNat < 2 ^ 8 := (m' 3).toNat_lt
      have hturn := or_shiftLeft_of_high hm0 hm2 hv
        (short_of_high (hother 2 (by decide)) hzero)
      change checksum + (short m' 0 ||| (short m' 2 <<< 8)) =
        checksum + (short m 0 ||| (short m 2 <<< 8)) + (m' 3).toUInt32 * 0x10000
      rw [hfirst, hturn, UInt32.add_assoc]
  | len + 3, _, m, m', checksum, hzero, hother => by
      have hlast : lastRead (len + 3) = 4 + lastRead (len + 1) := by
        unfold lastRead
        omega
      have hweight : lastWeight (len + 3) = lastWeight (len + 1) := by
        rw [lastWeight, lastWeight, Nat.add_mod_right (len + 1) 2]
      have hpos : 0 < lastRead (len + 1) := by
        unfold lastRead
        omega
      rw [hlast] at hzero hother ⊢
      rw [hweight, oddLoop, oddLoop]
      have hturn : ∀ i < 4, m' i = m i := fun i hi => hother i (by omega)
      rw [short, short, hturn 0 (by decide), hturn 1 (by decide), hturn 2 (by decide),
        hturn 3 (by decide)]
      exact oddLoop_update (len + 1) (Nat.succ_pos len) (m.shift 4) (m'.shift 4) _ hzero
        fun i hi => hother (4 + i) (by omega)

/-- The data, and behind them zeros but for the byte that is read last. -/
def withLast (dat : List UInt8) (v : UInt8) : Memory := fun i =>
  if h : i < dat.length then dat[i] else if i = lastRead dat.length then v else 0

theorem holds_withLast (dat : List UInt8) (v : UInt8) : Holds (withLast dat v) dat := by
  refine List.ext_getElem (by simp) fun i h₁ h₂ => ?_
  rw [List.getElem_map, List.getElem_range, withLast, dif_pos h₂]

theorem fold_ne_of_weight {s w : UInt32} (hw : w = 0x10000 ∨ w = 0x100) :
    ¬ (OnesSum.fold (s + w) = OnesSum.fold s ∧ OnesSum.fold (s + 2 * w) = OnesSum.fold s) := by
  rintro ⟨hone, htwo⟩
  have h0 : _ % _ = _ % _ := (OnesSum.reduced_fold s).modEq
  have h1 : _ % _ = _ % _ := (OnesSum.reduced_fold (s + w)).modEq
  have h2 : _ % _ = _ % _ := (OnesSum.reduced_fold (s + 2 * w)).modEq
  rw [hone, UInt32.toNat_add] at h1
  rw [htwo, UInt32.toNat_add, UInt32.toNat_mul] at h2
  -- a sum of two words carries once at most
  have hcarry : ∀ k < 4294967296, ∃ a, (s.toNat + k) % 2 ^ 32 = a ∧
      (a = s.toNat + k ∨ a + 4294967296 = s.toNat + k) := by
    intro k hk
    have hs := s.toNat_lt
    exact ⟨_, rfl, by omega⟩
  obtain rfl | rfl := hw
  · obtain ⟨a, ha, hone⟩ := hcarry 65536 (by decide)
    obtain ⟨b, hb, htwo⟩ := hcarry 131072 (by decide)
    have hdouble : (2 : UInt32).toNat * (0x10000 : UInt32).toNat % 2 ^ 32 = 131072 := rfl
    have hword : (0x10000 : UInt32).toNat = 65536 := rfl
    rw [hword, ha] at h1
    rw [hdouble, hb] at h2
    omega
  · obtain ⟨a, ha, hone⟩ := hcarry 256 (by decide)
    have hword : (0x100 : UInt32).toNat = 256 := rfl
    rw [hword, ha] at h1
    omega

/-- What lies behind the data decides the checksum at an odd address. -/
theorem exists_ne_reference {dat : List UInt8} (hne : dat ≠ []) :
    ∃ m, Holds m dat ∧ calcChecksumAt true m dat.length ≠ referenceChecksum dat := by
  have hpos : 0 < dat.length := List.length_pos_iff.mpr hne
  have hbehind : ¬ lastRead dat.length < dat.length := by
    unfold lastRead
    omega
  have hlast : ∀ v, withLast dat v (lastRead dat.length) = v := fun v => by
    rw [withLast, dif_neg hbehind, if_pos rfl]
  have hsum : ∀ v, oddLoop dat.length (withLast dat v) 0 =
      oddLoop dat.length (withLast dat 0) 0 + v.toUInt32 * lastWeight dat.length := fun v => by
    have hupdate := oddLoop_update dat.length hpos (withLast dat 0) (withLast dat v) 0 (hlast 0)
      fun i hi => by
        unfold withLast
        rw [if_neg (Nat.ne_of_lt hi), if_neg (Nat.ne_of_lt hi)]
    rwa [hlast v] at hupdate
  by_contra hall
  have href : ∀ v, OnesSum.fold (oddLoop dat.length (withLast dat v) 0) =
      UInt16.ofNat (OnesSum.sum 65535 (OnesSum.words dat)) := fun v => by
    have heq : calcChecksumAt true (withLast dat v) dat.length = referenceChecksum dat := by
      by_contra hv
      exact hall ⟨_, holds_withLast dat v, hv⟩
    exact UInt16.not_inj.mp heq
  have hweight : lastWeight dat.length = 0x10000 ∨ lastWeight dat.length = 0x100 := by
    unfold lastWeight
    split_ifs
    · exact Or.inl rfl
    · exact Or.inr rfl
  refine fold_ne_of_weight (s := oddLoop dat.length (withLast dat 0) 0) hweight ⟨?_, ?_⟩
  · have hone := hsum 1
    rw [show (1 : UInt8).toUInt32 = 1 from rfl, UInt32.one_mul] at hone
    rw [← hone, href 1, href 0]
  · have htwo := hsum 2
    rw [show (2 : UInt8).toUInt32 = 2 from rfl] at htwo
    rw [← htwo, href 2, href 0]

/-- The checksum is the one of the data, whatever lies behind them, at an even address, and
at an odd one when there are no data. -/
theorem calcChecksumAt_eq_iff (dat : List UInt8) (h : dat.length < 2 ^ 17) (odd : Bool) :
    (∀ m, Holds m dat → calcChecksumAt odd m dat.length = referenceChecksum dat) ↔
      odd = false ∨ dat = [] := by
  constructor
  · intro hall
    cases odd with
    | false => exact Or.inl rfl
    | true =>
        refine Or.inr (by_contra fun hne => ?_)
        obtain ⟨m, hm, hbad⟩ := exists_ne_reference hne
        exact hbad (hall m hm)
  · rintro (rfl | rfl) m hm
    · rw [calcChecksumAt, if_neg Bool.false_ne_true, hm]
      exact calcChecksum_eq h
    · have hnil : ~~~ OnesSum.fold 0 = referenceChecksum [] := by decide
      cases odd with
      | false => exact hnil
      | true => exact hnil

theorem calcChecksumAt_eq_iff_even :
    (∀ m, Holds m [1, 2, 3] → calcChecksumAt false m 3 = referenceChecksum [1, 2, 3]) ↔
      false = false ∨ [(1 : UInt8), 2, 3] = [] :=
  calcChecksumAt_eq_iff [1, 2, 3] (by decide) false

theorem odd_address_reads_behind : ¬ ∀ dat : List UInt8, dat.length < 2 ^ 17 →
    ∀ m m' : Memory, Holds m dat → Holds m' dat →
      calcChecksumAt true m dat.length = calcChecksumAt false m' dat.length ∧
        calcChecksumAt false m' dat.length = referenceChecksum dat := by
  intro h
  have hbad := (h [1] (by decide) (fun i => if i = 0 then 1 else 2)
    (fun i => if i = 0 then 1 else 2) rfl rfl).1
  exact absurd hbad (by decide)

end NvmDaemon

end Tarako
