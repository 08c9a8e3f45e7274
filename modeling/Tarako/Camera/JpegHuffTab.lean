import Tarako.Camera.JpegHuffCode
import Tarako.Lib.Lanes

/-!
# The packed Huffman table of the JPEG decoder

`JPEGFW_build_hufftab_jpegDec` packs the symbols of up to four tables into the words of
`g_huffTab`, each table in a byte lane of its own. The symbols of a DC table go to fixed places
for each code length. `packed_iff` says for which tables no symbol is lost and nothing outside
the array is written.
-/

namespace Tarako

namespace JpegHuff

open JpegParse Canonical Lanes

def HUFF_TAB_SIZE : ℕ := 162

def DC_offset : Vector ℕ (MAX_BITS_SIZE + 1) :=
  #v[0, 0, 2, 6, 14, 26, 38, 50, 62, 74, 86, 98, 110, 122, 134, 146, 158]

def startAddr (l : ℕ) : ℕ := DC_offset[l]?.getD 0

namespace HuffTable

variable (t : HuffTable)

/-- `huffval[k]` -/
def symbol (k : ℕ) : UInt8 := t.huffval[k]?.getD 0

def symbolNum : ℕ := index t.count (MAX_BITS_SIZE + 1)

/-- The loops of `build_hufftab_DC` for `n` lengths from `i` on, with `pHuffVal` at `p`. -/
def putDC (beChroma : Bool) : ℕ → ℕ → ℕ → List Put
  | _, _, 0 => []
  | i, p, n + 1 =>
      ((List.range (t.count i)).map fun j =>
          ⟨startAddr i + j, if beChroma then 3 else 2, t.symbol (p + j)⟩) ++
        putDC beChroma (i + 1) (p + t.count i) n

def buildHufftabDC (beChroma : Bool) : List Put := t.putDC beChroma 1 0 MAX_BITS_SIZE

def buildHufftabAC (beChroma : Bool) : List Put :=
  (List.range HUFF_TAB_SIZE).map fun i => ⟨i, if beChroma then 1 else 0, t.symbol i⟩

end HuffTable

/-- The tables of the decoder; `true` stands for `JPEG_FW_CHR_ID`. -/
structure DecTables where
  num_components : UInt8
  dc_huff_tbl : Bool → HuffTable
  ac_huff_tbl : Bool → HuffTable

namespace DecTables

variable (d : DecTables)

def buildTables (beChroma : Bool) : List Put :=
  (d.dc_huff_tbl beChroma).buildHufftabDC beChroma ++
    (d.ac_huff_tbl beChroma).buildHufftabAC beChroma

/-- What `JPEGFW_build_hufftab_jpegDec` stores from `g_huffTab` on, behind its `SCI_MEMSET`. -/
def buildHufftabJpegDec : List Put :=
  d.buildTables false ++ if d.num_components ≠ 1 then d.buildTables true else []

/-- The words from `g_huffTab` on afterwards. -/
def huffTab (before : ℕ → UInt32) : ℕ → UInt32 :=
  Put.image d.buildHufftabJpegDec fun a => if a < HUFF_TAB_SIZE then 0 else before a

/-- The tables that the picture needs. -/
def InUse (beChroma : Bool) : Prop := beChroma = true → d.num_components ≠ 1

/-- Nothing outside the array is written, no symbol is stored over another one, and each symbol
is found where the decoder looks for it. -/
structure Packed (before : ℕ → UInt32) : Prop where
  within : ∀ p ∈ d.buildHufftabJpegDec, p.addr < HUFF_TAB_SIZE
  alone : d.buildHufftabJpegDec.Pairwise fun p q => ¬ p.Meets q
  dc : ∀ beChroma, d.InUse beChroma → ∀ l j, 0 < l → l ≤ MAX_BITS_SIZE →
    j < (d.dc_huff_tbl beChroma).count l →
      lane (if beChroma then 3 else 2) (d.huffTab before (startAddr l + j)) =
        (d.dc_huff_tbl beChroma).symbol (index (d.dc_huff_tbl beChroma).count l + j)
  ac : ∀ beChroma, d.InUse beChroma → ∀ k < (d.ac_huff_tbl beChroma).symbolNum,
    k < HUFF_TAB_SIZE ∧ lane (if beChroma then 1 else 0) (d.huffTab before k) =
      (d.ac_huff_tbl beChroma).symbol k

end DecTables

/-- The DC symbols of each length end before those of the next longer ones, and in the array. -/
def HuffTable.DCFits (t : HuffTable) : Prop :=
  ∀ l, 0 < l → l ≤ MAX_BITS_SIZE → t.count l ≠ 0 →
    startAddr l + t.count l ≤ HUFF_TAB_SIZE ∧
      ∀ m, l < m → m ≤ MAX_BITS_SIZE → t.count m ≠ 0 → startAddr l + t.count l ≤ startAddr m

/-! ## What is stored -/

theorem startAddr_mono {l m : ℕ} (h : l ≤ m) (hm : m ≤ MAX_BITS_SIZE) :
    startAddr l ≤ startAddr m := by
  have hall : ∀ m ≤ MAX_BITS_SIZE, ∀ l ≤ m, startAddr l ≤ startAddr m := by decide
  exact hall m hm l h

namespace HuffTable

variable (t : HuffTable)

theorem mem_putDC {c : Bool} {i p n : ℕ} {s : Put} :
    s ∈ t.putDC c i p n ↔ ∃ l j, i ≤ l ∧ l < i + n ∧ j < t.count l ∧
      s = ⟨startAddr l + j, if c then 3 else 2,
        t.symbol (p + (index t.count l - index t.count i) + j)⟩ := by
  induction n generalizing i p with
  | zero =>
      refine iff_of_false List.not_mem_nil ?_
      rintro ⟨l, j, hi, hl, -⟩
      omega
  | succ n ih =>
      rw [putDC, List.mem_append, List.mem_map, ih]
      constructor
      · rintro (⟨j, hj, rfl⟩ | ⟨l, j, hi, hl, hj, rfl⟩)
        · exact ⟨i, j, Nat.le_refl i, by omega, List.mem_range.mp hj, by simp⟩
        · have hindex := @index_mono t.count (i + 1) l hi
          rw [index_succ] at hindex ⊢
          refine ⟨l, j, by omega, by omega, hj, ?_⟩
          congr 2
          omega
      · rintro ⟨l, j, hi, hl, hj, rfl⟩
        rcases Nat.eq_or_lt_of_le hi with rfl | hlt
        · exact Or.inl ⟨j, List.mem_range.mpr hj, by simp⟩
        · have hindex := @index_mono t.count (i + 1) l hlt
          refine Or.inr ⟨l, j, hlt, by omega, hj, ?_⟩
          rw [index_succ] at hindex ⊢
          congr 2
          omega

/-- Two symbols of a DC table meet only if they are of different lengths. -/
theorem pairwise_putDC {c : Bool} {i p n : ℕ} :
    ((t.putDC c i p n).Pairwise fun s s' => ¬ s.Meets s') ↔
      ∀ l m j k, i ≤ l → l < m → m < i + n → j < t.count l → k < t.count m →
        startAddr l + j ≠ startAddr m + k := by
  induction n generalizing i p with
  | zero =>
      refine iff_of_true List.Pairwise.nil ?_
      intro l m j k hi hl hm
      omega
  | succ n ih =>
      have hone : ((List.range (t.count i)).map fun j =>
          (⟨startAddr i + j, if c then 3 else 2, t.symbol (p + j)⟩ : Put)).Pairwise
            fun s s' => ¬ s.Meets s' := by
        rw [List.pairwise_map]
        refine List.nodup_range.imp ?_
        rintro j k hne ⟨haddr, -⟩
        exact hne (Nat.add_left_cancel haddr)
      rw [putDC, List.pairwise_append, ih]
      constructor
      · rintro ⟨-, hrest, hcross⟩ l m j k hi hlm hm hj hk heq
        rcases Nat.eq_or_lt_of_le hi with rfl | hlt
        · refine hcross _ (List.mem_map_of_mem (List.mem_range.mpr hj)) _
            (t.mem_putDC.mpr ⟨m, k, hlm, by omega, hk, rfl⟩) ⟨heq, rfl⟩
        · exact hrest l m j k hlt hlm (by omega) hj hk heq
      · intro h
        refine ⟨hone, fun l m j k hi hlm hm => h l m j k (by omega) hlm (by omega), ?_⟩
        intro s hs s' hs' hmeets
        obtain ⟨j, hj, rfl⟩ := List.mem_map.mp hs
        obtain ⟨m, k, him, hm, hk, rfl⟩ := t.mem_putDC.mp hs'
        exact h i m j k (Nat.le_refl i) him (by omega) (List.mem_range.mp hj) hk hmeets.1

theorem mem_buildHufftabDC {c : Bool} {s : Put} :
    s ∈ t.buildHufftabDC c ↔ ∃ l j, 0 < l ∧ l ≤ MAX_BITS_SIZE ∧ j < t.count l ∧
      s = ⟨startAddr l + j, if c then 3 else 2, t.symbol (index t.count l + j)⟩ := by
  rw [buildHufftabDC, mem_putDC]
  constructor
  · rintro ⟨l, j, hi, hl, hj, rfl⟩
    exact ⟨l, j, hi, by omega, hj, by rw [index_one, Nat.sub_zero, Nat.zero_add]⟩
  · rintro ⟨l, j, hi, hl, hj, rfl⟩
    exact ⟨l, j, hi, by omega, hj, by rw [index_one, Nat.sub_zero, Nat.zero_add]⟩

theorem mem_buildHufftabAC {c : Bool} {s : Put} :
    s ∈ t.buildHufftabAC c ↔
      ∃ k < HUFF_TAB_SIZE, s = ⟨k, if c then 1 else 0, t.symbol k⟩ := by
  rw [buildHufftabAC, List.mem_map]
  constructor
  · rintro ⟨k, hk, rfl⟩
    exact ⟨k, List.mem_range.mp hk, rfl⟩
  · rintro ⟨k, hk, rfl⟩
    exact ⟨k, List.mem_range.mpr hk, rfl⟩

theorem pairwise_buildHufftabAC (c : Bool) :
    (t.buildHufftabAC c).Pairwise fun s s' => ¬ s.Meets s' := by
  rw [buildHufftabAC, List.pairwise_map]
  refine List.nodup_range.imp ?_
  rintro j k hne ⟨haddr, -⟩
  exact hne haddr

/-- The DC symbols are in the array and do not meet exactly when every length has the room. -/
theorem dcFits_iff (c : Bool) :
    t.DCFits ↔ (∀ s ∈ t.buildHufftabDC c, s.addr < HUFF_TAB_SIZE) ∧
      (t.buildHufftabDC c).Pairwise fun s s' => ¬ s.Meets s' := by
  rw [buildHufftabDC, pairwise_putDC]
  constructor
  · intro h
    constructor
    · intro s hs
      obtain ⟨l, j, hl, hL, hj, rfl⟩ := t.mem_buildHufftabDC.mp hs
      have hfits := (h l hl hL (by omega)).1
      exact (Nat.add_lt_add_left hj _).trans_le hfits
    · intro l m j k hl hlm hm hj hk
      have hfits := (h l hl (by omega) (by omega)).2 m hlm (by omega) (by omega)
      omega
  · rintro ⟨hwithin, hmeets⟩ l hl hL hcount
    constructor
    · have hlast := hwithin _ (t.mem_buildHufftabDC.mpr
        ⟨l, t.count l - 1, hl, hL, by omega, rfl⟩)
      simp only at hlast
      omega
    · intro m hlm hm hcount'
      have hmono := startAddr_mono (Nat.le_of_lt hlm) hm
      by_contra hover
      exact hmeets l m (startAddr m - startAddr l) 0 hl hlm (by omega) (by omega) (by omega)
        (by omega)

end HuffTable

namespace DecTables

variable (d : DecTables)

theorem mem_buildHufftabJpegDec {s : Put} :
    s ∈ d.buildHufftabJpegDec ↔ ∃ c, d.InUse c ∧ s ∈ d.buildTables c := by
  rw [buildHufftabJpegDec, List.mem_append]
  constructor
  · rintro (h | h)
    · exact ⟨false, fun hc => absurd hc Bool.false_ne_true, h⟩
    · split_ifs at h with hnum
      · exact ⟨true, fun _ => hnum, h⟩
      · exact absurd h List.not_mem_nil
  · rintro ⟨c, huse, h⟩
    cases c with
    | false => exact Or.inl h
    | true =>
        rw [if_pos (huse rfl)]
        exact Or.inr h

theorem pairwise_buildTables (c : Bool) :
    ((d.buildTables c).Pairwise fun s s' => ¬ s.Meets s') ↔
      ((d.dc_huff_tbl c).buildHufftabDC c).Pairwise fun s s' => ¬ s.Meets s' := by
  rw [buildTables, List.pairwise_append]
  constructor
  · exact fun h => h.1
  · intro h
    refine ⟨h, HuffTable.pairwise_buildHufftabAC _ c, ?_⟩
    intro s hs s' hs' hmeets
    obtain ⟨l, j, -, -, -, rfl⟩ := (HuffTable.mem_buildHufftabDC _).mp hs
    obtain ⟨k, -, rfl⟩ := (HuffTable.mem_buildHufftabAC _).mp hs'
    have hlane : (if c then (3 : Fin 4) else 2) = if c then 1 else 0 := hmeets.2
    cases c <;> exact absurd hlane (by decide)

theorem lane_of_mem_buildTables {c : Bool} {s : Put} (h : s ∈ d.buildTables c) :
    s.lane = (if c then 3 else 2) ∨ s.lane = (if c then 1 else 0) := by
  rcases List.mem_append.mp h with h | h
  · obtain ⟨l, j, -, -, -, rfl⟩ := (HuffTable.mem_buildHufftabDC _).mp h
    exact Or.inl rfl
  · obtain ⟨k, -, rfl⟩ := (HuffTable.mem_buildHufftabAC _).mp h
    exact Or.inr rfl

theorem pairwise_buildHufftabJpegDec :
    (d.buildHufftabJpegDec.Pairwise fun s s' => ¬ s.Meets s') ↔
      ∀ c, d.InUse c →
        ((d.dc_huff_tbl c).buildHufftabDC c).Pairwise fun s s' => ¬ s.Meets s' := by
  rw [buildHufftabJpegDec, List.pairwise_append, pairwise_buildTables]
  constructor
  · rintro ⟨hluma, hchroma, -⟩ c huse
    cases c with
    | false => exact hluma
    | true =>
        rw [if_pos (huse rfl), pairwise_buildTables] at hchroma
        exact hchroma
  · intro h
    refine ⟨h false fun hc => absurd hc Bool.false_ne_true, ?_, ?_⟩
    · split_ifs with hnum
      · exact (d.pairwise_buildTables true).mpr (h true fun _ => hnum)
      · exact List.Pairwise.nil
    · intro s hs s' hs' hmeets
      split_ifs at hs' with hnum
      · have hlane := d.lane_of_mem_buildTables hs
        have hlane' := d.lane_of_mem_buildTables hs'
        rw [hmeets.2] at hlane
        rcases hlane with hl | hl <;> rcases hlane' with hl' | hl' <;>
          exact absurd (hl.symm.trans hl') (by decide)
      · exact absurd hs' List.not_mem_nil

/-- What is stored inside the array is found there, if nothing meets. -/
theorem lane_huffTab (h : d.buildHufftabJpegDec.Pairwise fun s s' => ¬ s.Meets s')
    (before : ℕ → UInt32) {c : Bool} (huse : d.InUse c) {s : Put} (hs : s ∈ d.buildTables c)
    (hlt : s.addr < HUFF_TAB_SIZE) : lane s.lane (d.huffTab before s.addr) = s.byte := by
  refine Put.lane_image_of_mem h (d.mem_buildHufftabJpegDec.mpr ⟨c, huse, hs⟩) ?_
  rw [if_pos hlt, lane_zero]

theorem packed_of_fits (h : ∀ c, d.InUse c →
    (d.dc_huff_tbl c).DCFits ∧ (d.ac_huff_tbl c).symbolNum ≤ HUFF_TAB_SIZE)
    (before : ℕ → UInt32) : d.Packed before := by
  have hdc := fun c huse => ((d.dc_huff_tbl c).dcFits_iff c).mp (h c huse).1
  have halone := d.pairwise_buildHufftabJpegDec.mpr fun c huse => (hdc c huse).2
  refine ⟨?_, halone, ?_, ?_⟩
  · intro s hs
    obtain ⟨c, huse, hs⟩ := d.mem_buildHufftabJpegDec.mp hs
    rcases List.mem_append.mp hs with hs | hs
    · exact (hdc c huse).1 s hs
    · obtain ⟨k, hk, rfl⟩ := (HuffTable.mem_buildHufftabAC _).mp hs
      exact hk
  · intro c huse l j hl hL hj
    have hs := (@HuffTable.mem_buildHufftabDC (d.dc_huff_tbl c) c _).mpr
      ⟨l, j, hl, hL, hj, rfl⟩
    have hlane := d.lane_huffTab halone before huse
      (List.mem_append_left ((d.ac_huff_tbl c).buildHufftabAC c) hs) ((hdc c huse).1 _ hs)
    exact hlane
  · intro c huse k hk
    have hlt : k < HUFF_TAB_SIZE := hk.trans_le (h c huse).2
    have hs := (@HuffTable.mem_buildHufftabAC (d.ac_huff_tbl c) c _).mpr ⟨k, hlt, rfl⟩
    have hlane := d.lane_huffTab halone before huse
      (List.mem_append_right ((d.dc_huff_tbl c).buildHufftabDC c) hs) hlt
    exact ⟨hlt, hlane⟩

end DecTables

/-- The tables are packed without a loss exactly when in each DC table in use every length has
the room up to the next one in use and to the end of the array, and no AC table in use has more
symbols than the array has words. -/
theorem packed_iff (d : DecTables) (before : ℕ → UInt32) :
    d.Packed before ↔ ∀ c, d.InUse c →
      (d.dc_huff_tbl c).DCFits ∧ (d.ac_huff_tbl c).symbolNum ≤ HUFF_TAB_SIZE := by
  constructor
  · intro h c huse
    constructor
    · refine ((d.dc_huff_tbl c).dcFits_iff c).mpr ⟨fun s hs => h.within s ?_, ?_⟩
      · exact d.mem_buildHufftabJpegDec.mpr ⟨c, huse, List.mem_append_left _ hs⟩
      · exact d.pairwise_buildHufftabJpegDec.mp h.alone c huse
    · by_contra hover
      have hlast := (h.ac c huse HUFF_TAB_SIZE (Nat.not_le.mp hover)).1
      exact absurd hlast (Nat.lt_irrefl _)
  · exact fun h => d.packed_of_fits h before

/-- A DC table with five codes of 16 bits, and AC tables without symbols. -/
def fiveOfSixteen : DecTables where
  num_components := 1
  dc_huff_tbl _ :=
    { bits := (Vector.replicate (MAX_BITS_SIZE + 1) 0).set 16 5
      huffval := Vector.replicate (AC_SYMBOL_NUM + 1) 0
      count_le := by decide }
  ac_huff_tbl _ :=
    { bits := Vector.replicate (MAX_BITS_SIZE + 1) 0
      huffval := Vector.replicate (AC_SYMBOL_NUM + 1) 0
      count_le := by decide }

theorem not_packed_fiveOfSixteen :
    ¬ ∀ (d : DecTables) (before : ℕ → UInt32), d.Packed before := by
  intro h
  have hlt := (h fiveOfSixteen fun _ => 0).within ⟨162, 2, 0⟩ (by decide)
  exact absurd hlt (by decide)

end JpegHuff

end Tarako
