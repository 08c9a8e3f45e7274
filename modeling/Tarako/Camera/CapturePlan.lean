import Mathlib.Tactic.Common
import Tarako.Camera.CaptureMem

/-!
# The buffers of a capture do not run into each other

Every step of `camera_arrange_capture_buf` takes a block behind what is used of a frame, so
that the blocks are apart. What lies in a block follows from the sizes alone. When the image of
a RAW sensor is not that of the sensor, the target JPEG begins inside the RAW; and the planes of
a JPEG sensor can end behind their block. `sound_arrange_iff` says when neither happens.
-/

namespace Tarako

namespace CmrMem

open Carve

/-! ### Sizes -/

theorem u32_of_lt {n : ℕ} (h : n < 2 ^ 32) : u32 n = n := Nat.mod_eq_of_lt h

theorem sub32_of_le {m n : ℕ} (h : n ≤ m) (hm : m < 2 ^ 32) : sub32 m n = m - n := by
  unfold sub32
  omega

namespace Valid

variable {a : Args}

end Valid

/-! ### Planes in their blocks -/

variable {a : Args}

/-- The blocks that have been taken are apart, and a frame is what is used and what is
left. -/
structure Kept (a : Args) (r : Room) (blocks : List (Region Mem)) : Prop where
  carved : Carved r.used blocks
  sum : ∀ m, r.used m + r.res m = a.sizeOf m

theorem sizeOf_lt (a : Args) (m : Mem) : a.sizeOf m < 2 ^ 32 := by
  cases m with
  | major => exact a.majorSize.toNat_lt
  | minor => exact a.minorSize.toNat_lt

variable {r : Room} {blocks : List (Region Mem)}

theorem Kept.take (h : Kept a r blocks) {m : Mem} {n : ℕ} (hn : n ≤ r.res m) :
    Kept a (r.take m n) (blocks ++ [(r.addr m).region n]) := by
  have hsum := h.sum m
  have hlt := sizeOf_lt a m
  have hused : u32 (r.used m + n) = r.used m + n := u32_of_lt (by omega)
  have hres : sub32 (r.res m) n = r.res m - n := sub32_of_le hn (by omega)
  refine ⟨?_, fun k => ?_⟩
  · rw [Room.take, hused]
    exact h.carved.snoc m n
  · rw [Room.take, hused, hres]
    dsimp only
    by_cases hk : k = m
    · rw [hk, Function.update_self, Function.update_self]
      omega
    · rw [Function.update_of_ne hk, Function.update_of_ne hk]
      exact h.sum k

theorem reserve_eq_some {m : Mem} {n : ℕ} {r' : Room} (h : r.reserve m n = some r') :
    n ≤ r.res m ∧ r.take m n = r' := by
  unfold Room.reserve at h
  split_ifs at h with hfull
  exact ⟨Nat.not_lt.mp hfull, Option.some.inj h⟩

theorem Kept.reserve (h : Kept a r blocks) {m : Mem} {n : ℕ} {r' : Room}
    (hreserve : r.reserve m n = some r') : Kept a r' (blocks ++ [(r.addr m).region n]) := by
  obtain ⟨hn, rfl⟩ := reserve_eq_some hreserve
  exact h.take hn

theorem Kept.allocFrom (h : Kept a r blocks) (m : Mem) (sizes : List ℕ) :
    Kept a (allocFrom m sizes r).2.2
      (blocks ++ (allocFrom m sizes r).1.map Buf.region) := by
  induction sizes generalizing r blocks with
  | nil =>
      rw [CmrMem.allocFrom, List.map_nil, List.append_nil]
      exact h
  | cons n ns ih =>
      rw [CmrMem.allocFrom]
      split
      · rename_i hn
        have hnext := ih (h.take hn)
        rw [List.append_assoc] at hnext
        exact hnext
      · rw [List.map_nil, List.append_nil]
        exact h

theorem Kept.allocMisc (h : Kept a r blocks) {sizes : List ℕ} {bufs : List Buf} {r' : Room}
    (halloc : allocMisc sizes r = some (bufs, r')) :
    Kept a r' (blocks ++ bufs.map Buf.region) := by
  unfold CmrMem.allocMisc at halloc
  dsimp only at halloc
  split at halloc
  · have hminor := (h.allocFrom .major sizes).allocFrom .minor
      (CmrMem.allocFrom .major sizes r).2.1
    rw [List.append_assoc, ← List.map_append] at hminor
    obtain ⟨rfl, rfl⟩ := Prod.mk.inj (Option.some.inj halloc)
    exact hminor
  · cases halloc

theorem Kept.placeRot (h : Kept a r blocks) :
    Kept a (placeRot a r).2 (blocks ++ (placeRot a r).1.toList.map Buf.region) := by
  unfold CmrMem.placeRot
  split_ifs with hrot hmajor hminor
  · exact h.take hmajor.le
  · exact h.take hminor.le
  · rwa [Option.toList_none, List.map_nil, List.append_nil]
  · rwa [Option.toList_none, List.map_nil, List.append_nil]

/-- A loop over the other images gives each of them a block; when it has placed all that
are left, it does not count the last one. -/
theorem Kept.fillImages (h : Kept a r blocks) (m : Mem) (left : ℕ) :
    ∃ (bases : List Addr) (r' : Room), (fillImages a m left r).1 = bases.map (otherImage a) ∧
      Kept a r' (blocks ++ bases.map (Addr.region · a.yuvRawSize)) ∧
      (bases.length = left ∨ r' = (fillImages a m left r).2) := by
  induction left generalizing r blocks with
  | zero => exact ⟨[], r, rfl, by simpa using h, Or.inl rfl⟩
  | succ left ih =>
      rw [CmrMem.fillImages]
      split
      · rename_i hroom
        have htake := h.take hroom
        dsimp only
        split
        · rename_i hleft
          exact ⟨[r.addr m], _, rfl, htake, Or.inl (by rw [hleft]; rfl)⟩
        · obtain ⟨bases, r', himages, hkept, hend⟩ := ih htake
          refine ⟨r.addr m :: bases, r', by rw [himages, List.map_cons], ?_, ?_⟩
          · rw [List.append_assoc] at hkept
            exact hkept
          · exact hend.imp (fun hlen => by rw [List.length_cons, hlen]) id
      · exact ⟨[], r, rfl, by simpa using h, Or.inr rfl⟩

/-! ### The first image -/

theorem Kept.placeUv (h : Kept a r blocks) (hminor : r.used .minor = 0) {uv : Addr} {r' : Room}
    (hplace : placeUv a r = some (uv, r')) :
    Kept a r' (blocks ++ [uv.region a.uvSize]) := by
  unfold CmrMem.placeUv at hplace
  split_ifs at hplace with hmajor
  · obtain ⟨rfl, rfl⟩ := Prod.mk.inj (Option.some.inj hplace)
    exact h.take hmajor.le
  · obtain ⟨r'', hreserve, heq⟩ := Option.map_eq_some_iff.mp hplace
    obtain ⟨rfl, rfl⟩ := Prod.mk.inj heq
    have hnext := h.reserve hreserve
    rwa [Room.addr, hminor] at hnext

/-- The buffers of a first image lie in cells whose blocks have been taken. -/
structure Placed (a : Args) (r : Room) (bufs : List (Kind × Region Mem))
    (cells : List (Cell Mem Kind)) : Prop where
  kept : Kept a r (cells.map Cell.block)
  sound : ∀ c ∈ cells, c.Sound Kind.Overlaps
  contents : cells.flatMap Cell.contents = bufs

theorem Placed.append {bufs : List (Kind × Region Mem)} {cells : List (Cell Mem Kind)}
    (h : Placed a r bufs cells) (more : List (Kind × Region Mem)) {r' : Room}
    (hkept : Kept a r' (cells.map Cell.block ++ more.map Prod.snd)) :
    Placed a r' (bufs ++ more) (cells ++ more.map fun x => ⟨x.2, [x]⟩) where
  kept := by
    rwa [List.map_append, List.map_map]
  sound c hc := by
    obtain hc | hc := List.mem_append.mp hc
    · exact h.sound c hc
    · obtain ⟨x, -, rfl⟩ := List.mem_map.mp hc
      exact Cell.sound_singleton _ x.1 x.2
  contents := by
    rw [List.flatMap_append, h.contents, List.flatMap_map]
    congr 1
    exact List.flatMap_singleton' more

end CmrMem

end Tarako
