import Mathlib.Data.List.Flatten
import Mathlib.Data.Set.BooleanAlgebra
import Mathlib.Data.Set.Prod
import Mathlib.Logic.Function.Basic
import Mathlib.Order.CompletePartialOrder

/-!
# Blocks carved out of memory areas

An allocator that never frees gives out the memory of an area from its beginning on, block
after block. The blocks are disjoint, and so is what lies in different blocks. A cell is a
block with what lies in it; two of its contents may only overlap when their kinds may.
-/

namespace Carve

variable {κ ι : Type*}

/-- `size` bytes of an area, from an offset on. -/
structure Region (κ : Type*) where
  area : κ
  start : ℕ
  size : ℕ
deriving DecidableEq

namespace Region

def cells (r : Region κ) : Set (κ × ℕ) :=
  {p | p.1 = r.area ∧ r.start ≤ p.2 ∧ p.2 < r.start + r.size}

/-- A region is empty or lies between the ends of a block. -/
def Fits (r b : Region κ) : Prop :=
  r.size = 0 ∨ r.area = b.area ∧ b.start ≤ r.start ∧ r.start + r.size ≤ b.start + b.size

theorem Fits.refl (r : Region κ) : r.Fits r := Or.inr ⟨rfl, Nat.le_refl _, Nat.le_refl _⟩

theorem Fits.subset {r b : Region κ} (h : r.Fits b) : r.cells ⊆ b.cells := by
  rintro p ⟨harea, hlo, hhi⟩
  obtain hzero | ⟨hblock, hstart, hend⟩ := h
  · rw [hzero] at hhi
    exact absurd hhi (Nat.not_lt.mpr hlo)
  · exact ⟨harea.trans hblock, hstart.trans hlo, hhi.trans_le hend⟩

theorem disjoint_of_le {r s : Region κ} (h : r.area = s.area → r.start + r.size ≤ s.start) :
    Disjoint r.cells s.cells := by
  rw [Set.disjoint_left]
  rintro p ⟨hr, -, hlt⟩ ⟨hs, hle, -⟩
  exact absurd (hlt.trans_le (h (hr.symm.trans hs))) (Nat.not_lt.mpr hle)

end Region

/-- The blocks lie below what is used of their areas, and apart from each other. -/
structure Carved (used : κ → ℕ) (blocks : List (Region κ)) : Prop where
  below : ∀ b ∈ blocks, b.start + b.size ≤ used b.area
  apart : blocks.Pairwise fun b c => Disjoint b.cells c.cells

theorem Carved.snoc [DecidableEq κ] {used : κ → ℕ} {blocks : List (Region κ)}
    (h : Carved used blocks) (k : κ) (n : ℕ) :
    Carved (Function.update used k (used k + n)) (blocks ++ [⟨k, used k, n⟩]) where
  below b hb := by
    obtain hb | hb := List.mem_append.mp hb
    · have hle := h.below b hb
      by_cases hk : b.area = k
      · rw [hk, Function.update_self]
        rw [hk] at hle
        exact hle.trans (Nat.le_add_right _ _)
      · rwa [Function.update_of_ne hk]
    · rw [List.mem_singleton.mp hb, Function.update_self]
  apart := by
    rw [List.pairwise_append]
    refine ⟨h.apart, List.pairwise_singleton _ _, fun b hb c hc => ?_⟩
    rw [List.mem_singleton.mp hc]
    refine Region.disjoint_of_le fun hk => ?_
    have hle := h.below b hb
    rwa [hk] at hle

/-- A block and what lies in it. -/
structure Cell (κ ι : Type*) where
  block : Region κ
  contents : List (ι × Region κ)

/-- The contents lie in the block, and two of them are apart unless their kinds overlap. -/
structure Cell.Sound (overlaps : ι → ι → Prop) (c : Cell κ ι) : Prop where
  fits : ∀ x ∈ c.contents, x.2.Fits c.block
  apart : c.contents.Pairwise fun x y => overlaps x.1 y.1 ∨ Disjoint x.2.cells y.2.cells

theorem Cell.sound_singleton (overlaps : ι → ι → Prop) (i : ι) (r : Region κ) :
    Cell.Sound overlaps ⟨r, [(i, r)]⟩ where
  fits x hx := by
    rw [List.mem_singleton.mp hx]
    exact Region.Fits.refl r
  apart := List.pairwise_singleton _ _

variable {overlaps : ι → ι → Prop} {cells : List (Cell κ ι)}

end Carve
