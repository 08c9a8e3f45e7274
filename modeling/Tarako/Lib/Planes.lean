import Mathlib.Algebra.Group.Nat.Defs
import Mathlib.Data.Nat.Notation
import Mathlib.Logic.Equiv.Defs
import Mathlib.Tactic.Common

/-!
# Pictures of two planes in memory

A plane is a row of cells of a few bytes each. A semi-planar picture has a plane of pixels
of one byte and one of chroma pairs, a pair for four pixels. Addresses have 32 bits and
wrap around; a picture fits when its planes do not run into each other.
-/

/-- Memory with a byte at every address. -/
abbrev AddressSpace : Type := UInt32 → UInt8

/-- `n` cells of `c` bytes. -/
abbrev Plane (c n : ℕ) : Type := Fin n → Fin c → UInt8

/-- The number of chroma pairs of a picture of `w` by `h`. -/
def chromaPairs (w h : ℕ) : ℕ := w / 2 * (h / 2)

@[ext] structure Picture (w h : ℕ) where
  luma : Plane 1 (w * h)
  chroma : Plane 2 (chromaPairs w h)

namespace Plane

variable {c n c' n' : ℕ} {mem : AddressSpace} {addr addr' : UInt32}

/-- The cells from an address on. -/
def read (mem : AddressSpace) (addr : UInt32) (c n : ℕ) : Plane c n :=
  fun i j => mem (addr + UInt32.ofNat (c * i + j))

/-- The cells of a window of `w` by `h` in rows of `stride` cells. -/
def readWindow (mem : AddressSpace) (addr : UInt32) (c stride x y w h : ℕ) : Plane c (w * h) :=
  fun i j => mem (addr + UInt32.ofNat (c * ((y + i / w) * stride + (x + i % w)) + j))

def write (mem : AddressSpace) (addr : UInt32) (p : Plane c n) : AddressSpace := fun a =>
  if h : (a - addr).toNat < c * n then
    p ⟨(a - addr).toNat / c, Nat.div_lt_of_lt_mul h⟩
      ⟨(a - addr).toNat % c, Nat.mod_lt _ (Nat.pos_of_mul_pos_right (Nat.zero_lt_of_lt h))⟩
  else mem a

/-- The bytes of the one plane are none of the other. -/
def Apart (addr : UInt32) (c n : ℕ) (addr' : UInt32) (c' n' : ℕ) : Prop :=
  ∀ k < c * n, c' * n' ≤ (addr + UInt32.ofNat k - addr').toNat

theorem toNat_add_sub (addr : UInt32) {k : ℕ} (hk : k < 2 ^ 32) :
    (addr + UInt32.ofNat k - addr).toNat = k := by
  rw [UInt32.add_comm, UInt32.add_sub_cancel]
  exact UInt32.toNat_ofNat_of_lt' hk

theorem byte_lt (i : Fin n) (j : Fin c) : c * i + j < c * n :=
  calc c * i + j < c * (i + 1) := by
        rw [Nat.mul_add_one]
        exact Nat.add_lt_add_left j.isLt _
    _ ≤ c * n := Nat.mul_le_mul_left c i.isLt

theorem read_write (h : c * n ≤ 2 ^ 32) (p : Plane c n) :
    read (write mem addr p) addr c n = p := by
  funext i j
  have hbyte := byte_lt i j
  have hoff : (addr + UInt32.ofNat (c * i + j) - addr).toNat = c * i + j :=
    toNat_add_sub addr (Nat.lt_of_lt_of_le hbyte h)
  have hcell : (addr + UInt32.ofNat (c * i + j) - addr).toNat / c = i := by
    rw [hoff, Nat.mul_add_div (Nat.zero_lt_of_lt j.isLt), Nat.div_eq_of_lt j.isLt, Nat.add_zero]
  have hpos : (addr + UInt32.ofNat (c * i + j) - addr).toNat % c = j := by
    rw [hoff, Nat.mul_add_mod, Nat.mod_eq_of_lt j.isLt]
  have hin : (addr + UInt32.ofNat (c * i + j) - addr).toNat < c * n := by
    rwa [hoff]
  rw [read, write, dif_pos hin]
  exact congrArg₂ p (Fin.ext hcell) (Fin.ext hpos)

theorem read_write_of_apart (h : Apart addr c n addr' c' n') (p : Plane c' n') :
    read (write mem addr' p) addr c n = read mem addr c n := by
  funext i j
  exact dif_neg (Nat.not_lt.mpr (h _ (byte_lt i j)))

theorem apart_before {k : ℕ} (hk : c * n ≤ k) (h : k + c' * n' ≤ 2 ^ 32) :
    Apart addr c n (addr + UInt32.ofNat k) c' n' := by
  intro i hi
  obtain hzero | hpos := Nat.eq_zero_or_pos (c' * n')
  · rw [hzero]
    exact Nat.zero_le _
  · -- a step back of `k - i` is one forward by the rest of the address space
    have hwrap : UInt32.ofNat k + UInt32.ofNat (2 ^ 32 - k + i) = UInt32.ofNat i := by
      rw [← UInt32.ofNat_add, ← UInt32.toNat_inj, UInt32.toNat_ofNat', UInt32.toNat_ofNat']
      omega
    rw [← hwrap, ← UInt32.add_assoc, toNat_add_sub _ (by omega)]
    omega

theorem readWindow_full (w h : ℕ) :
    readWindow mem addr c w 0 0 w h = read mem addr c (w * h) := by
  funext i j
  rw [readWindow, read, Nat.zero_add, Nat.zero_add, Nat.div_add_mod']

end Plane

namespace Picture

variable {w h : ℕ} {mem : AddressSpace} {y uv : UInt32}

/-- The picture with its planes at the two addresses. -/
def read (mem : AddressSpace) (y uv : UInt32) (w h : ℕ) : Picture w h where
  luma := Plane.read mem y 1 (w * h)
  chroma := Plane.read mem uv 2 (chromaPairs w h)

/-- A window of `w` by `h` at `x₀`, `y₀` of a picture that is `stride` wide. -/
def readWindow (mem : AddressSpace) (y uv : UInt32) (stride x₀ y₀ w h : ℕ) : Picture w h where
  luma := Plane.readWindow mem y 1 stride x₀ y₀ w h
  chroma := Plane.readWindow mem uv 2 (stride / 2) (x₀ / 2) (y₀ / 2) (w / 2) (h / 2)

def write (mem : AddressSpace) (y uv : UInt32) (p : Picture w h) : AddressSpace :=
  Plane.write (Plane.write mem y p.luma) uv p.chroma

/-- The two bytes of every pair are exchanged. -/
def swap (p : Picture w h) : Picture w h where
  luma := p.luma
  chroma := fun i j => p.chroma i j.rev

/-- Pixels and pairs in another order. -/
def permute (σ : Equiv.Perm (Fin (w * h))) (τ : Equiv.Perm (Fin (chromaPairs w h)))
    (p : Picture w h) : Picture w h where
  luma := p.luma ∘ σ
  chroma := p.chroma ∘ τ

/-- The number of bytes of a picture. -/
def size (w h : ℕ) : ℕ := w * h + 2 * chromaPairs w h

theorem read_write (hsize : size w h ≤ 2 ^ 32) (huv : uv = y + UInt32.ofNat (w * h))
    (p : Picture w h) : read (write mem y uv p) y uv w h = p := by
  unfold size at hsize
  have hapart : Plane.Apart y 1 (w * h) uv 2 (chromaPairs w h) := by
    rw [huv]
    exact Plane.apart_before (by omega) hsize
  ext1
  · refine (Plane.read_write_of_apart hapart p.chroma).trans ?_
    exact Plane.read_write (by omega) p.luma
  · exact Plane.read_write (by omega) p.chroma

theorem readWindow_full (w h : ℕ) : readWindow mem y uv w 0 0 w h = read mem y uv w h := by
  ext1
  · exact Plane.readWindow_full w h
  · exact Plane.readWindow_full (w / 2) (h / 2)

/-- Two memories hold the same picture, whichever side counts as the width. -/
theorem read_eq_read_comm {mem' : AddressSpace} :
    read mem y uv h w = read mem' y uv h w ↔ read mem y uv w h = read mem' y uv w h := by
  have hpairs : chromaPairs h w = chromaPairs w h := Nat.mul_comm _ _
  rw [Picture.ext_iff, Picture.ext_iff]
  refine and_congr ?_ ?_
  · change Plane.read mem y 1 (h * w) = Plane.read mem' y 1 (h * w) ↔ _
    rw [Nat.mul_comm]
    exact Iff.rfl
  · change Plane.read mem uv 2 (chromaPairs h w) = Plane.read mem' uv 2 (chromaPairs h w) ↔ _
    rw [hpairs]
    exact Iff.rfl

variable {σ : Equiv.Perm (Fin (w * h))} {τ : Equiv.Perm (Fin (chromaPairs w h))}

theorem permute_injective : Function.Injective (permute σ τ : Picture w h → Picture w h) := by
  intro p q hpq
  have hluma : p.luma ∘ σ = q.luma ∘ σ := congrArg luma hpq
  have hchroma : p.chroma ∘ τ = q.chroma ∘ τ := congrArg chroma hpq
  ext1
  · exact σ.surjective.injective_comp_right hluma
  · exact τ.surjective.injective_comp_right hchroma

theorem swap_eq_iff (p : Picture w h) : p.swap = p ↔ ∀ i, p.chroma i 0 = p.chroma i 1 := by
  constructor
  · intro hswap i
    have hi := congrFun (congrFun (congrArg chroma hswap) i) 1
    exact hi
  · intro hsame
    ext1
    · rfl
    · funext i j
      change p.chroma i j.rev = p.chroma i j
      match j with
      | 0 => exact (hsame i).symm
      | 1 => exact hsame i

end Picture
