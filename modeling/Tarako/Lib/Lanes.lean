import Mathlib.Algebra.Group.Nat.Defs
import Mathlib.Data.Fintype.Basic
import Mathlib.Data.List.Pairwise
import Mathlib.Tactic.FinCases

/-!
# Byte lanes of a table of words

Tables of bytes may share the words of one array: each of them has a lane of its own, and a byte
is stored by an OR into its word. A lane holds the byte if nothing else was stored there.
-/

namespace Lanes

/-- The byte of a word in the lane `k`; lane 0 is the lowest. -/
def lane (k : Fin 4) (w : UInt32) : UInt8 := (w >>> UInt32.ofNat (8 * k)).toUInt8

/-- A byte in the lane `k` of a word. -/
def inLane (k : Fin 4) (b : UInt8) : UInt32 := b.toUInt32 <<< UInt32.ofNat (8 * k)

theorem lane_zero (k : Fin 4) : lane k 0 = 0 := by
  rw [lane, UInt32.zero_shiftRight]
  rfl

theorem lane_or (k : Fin 4) (v w : UInt32) : lane k (v ||| w) = lane k v ||| lane k w := by
  rw [lane, UInt32.shiftRight_or, UInt32.toUInt8_or]
  rfl

theorem toNat_shift (k : Fin 4) : (UInt32.ofNat (8 * k)).toNat = 8 * k :=
  UInt32.toNat_ofNat_of_lt' (show 8 * (k : ℕ) < 2 ^ 32 by omega)

theorem toNat_lane (k : Fin 4) (w : UInt32) :
    (lane k w).toNat = w.toNat / 2 ^ (8 * (k : ℕ)) % 2 ^ 8 := by
  rw [lane, UInt32.toNat_toUInt8, UInt32.toNat_shiftRight, toNat_shift,
    Nat.mod_eq_of_lt (by omega : 8 * (k : ℕ) < 32), Nat.shiftRight_eq_div_pow]

theorem toNat_inLane (k : Fin 4) (b : UInt8) :
    (inLane k b).toNat = b.toNat * 2 ^ (8 * (k : ℕ)) := by
  have hb := b.toNat_lt
  have hpow : 2 ^ (8 * (k : ℕ)) ≤ 2 ^ 24 := Nat.pow_le_pow_right (by decide) (by omega)
  have hlt : b.toNat * 2 ^ (8 * (k : ℕ)) < 2 ^ 32 :=
    calc b.toNat * 2 ^ (8 * (k : ℕ)) ≤ 255 * 2 ^ 24 := Nat.mul_le_mul (by omega) hpow
      _ < 2 ^ 32 := by decide
  rw [inLane, UInt32.toNat_shiftLeft, toNat_shift, Nat.mod_eq_of_lt (by omega : 8 * (k : ℕ) < 32),
    UInt8.toNat_toUInt32, Nat.shiftLeft_eq, Nat.mod_eq_of_lt hlt]

theorem lane_inLane_self (k : Fin 4) (b : UInt8) : lane k (inLane k b) = b := by
  apply UInt8.toNat_inj.mp
  rw [toNat_lane, toNat_inLane, Nat.mul_div_cancel _ (Nat.two_pow_pos _)]
  exact Nat.mod_eq_of_lt b.toNat_lt

theorem lane_inLane_of_ne {j k : Fin 4} (h : j ≠ k) (b : UInt8) : lane k (inLane j b) = 0 := by
  apply UInt8.toNat_inj.mp
  have hb := b.toNat_lt
  rw [toNat_lane, toNat_inLane, UInt8.toNat_zero]
  fin_cases j <;> fin_cases k <;> simp at h ⊢ <;> omega

/-- A byte that is stored into the lane of a word. -/
structure Put where
  addr : ℕ
  lane : Fin 4
  byte : UInt8
deriving DecidableEq

namespace Put

/-- The word is read, and written again with the byte in it. -/
def apply (t : ℕ → UInt32) (p : Put) : ℕ → UInt32 :=
  Function.update t p.addr (inLane p.lane p.byte ||| t p.addr)

def image (l : List Put) (t : ℕ → UInt32) : ℕ → UInt32 := l.foldl apply t

/-- Two stores go to the same place. -/
def Meets (p q : Put) : Prop := p.addr = q.addr ∧ p.lane = q.lane

variable {l : List Put} {t : ℕ → UInt32}

theorem lane_apply_of_not_meets {p : Put} {a : ℕ} {k : Fin 4} (h : ¬ (p.addr = a ∧ p.lane = k)) :
    Lanes.lane k (apply t p a) = Lanes.lane k (t a) := by
  by_cases ha : p.addr = a
  · subst ha
    have hk : p.lane ≠ k := fun hk => h ⟨rfl, hk⟩
    rw [apply, Function.update_self, lane_or, lane_inLane_of_ne hk, UInt8.zero_or]
  · rw [apply, Function.update_of_ne (Ne.symm ha)]

theorem lane_apply_self {p : Put} (h : Lanes.lane p.lane (t p.addr) = 0) :
    Lanes.lane p.lane (apply t p p.addr) = p.byte := by
  rw [apply, Function.update_self, lane_or, lane_inLane_self, h, UInt8.or_zero]

theorem lane_image_of_not_meets {a : ℕ} {k : Fin 4}
    (h : ∀ p ∈ l, ¬ (p.addr = a ∧ p.lane = k)) :
    Lanes.lane k (image l t a) = Lanes.lane k (t a) := by
  induction l generalizing t with
  | nil => rfl
  | cons p l ih =>
      obtain ⟨hp, hl⟩ := List.forall_mem_cons.mp h
      change Lanes.lane k (image l (apply t p) a) = _
      rw [ih hl, lane_apply_of_not_meets hp]

/-- A byte is found again where it was stored, if its place was free and no other byte came
there. -/
theorem lane_image_of_mem (h : l.Pairwise fun p q => ¬ p.Meets q) {p : Put} (hp : p ∈ l)
    (hfree : Lanes.lane p.lane (t p.addr) = 0) :
    Lanes.lane p.lane (image l t p.addr) = p.byte := by
  induction l generalizing t with
  | nil => exact absurd hp List.not_mem_nil
  | cons q l ih =>
      obtain ⟨hq, hl⟩ := List.pairwise_cons.mp h
      change Lanes.lane p.lane (image l (apply t q) p.addr) = _
      rcases List.mem_cons.mp hp with rfl | hmem
      · rw [lane_image_of_not_meets fun r hr hm => hq r hr ⟨hm.1.symm, hm.2.symm⟩]
        exact lane_apply_self hfree
      · refine ih hl hmem ?_
        rw [lane_apply_of_not_meets (hq p hmem), hfree]

end Put

end Lanes
