import Mathlib.Algebra.Group.Nat.Defs
import Mathlib.Data.List.Range
import Tarako.Lib.Run

/-!
# The write loop of `save_data`

The loop counts `m` down by what each call of `write` returns, held in a `size_t`, and gives
`buf` to each call as it was. `appends_iff` says for which results the segment gets the bytes
it should.
-/

namespace Tarako

namespace Vhub

open Run

inductive WriteResult
  | error
  | wrote (n : ℕ)

namespace WriteResult

/-- `w`, a `size_t`: a failure is the greatest one. -/
def w : WriteResult → UInt32
  | error => -1
  | wrote n => UInt32.ofNat n

def taken : WriteResult → ℕ
  | error => 0
  | wrote n => n

end WriteResult

/-- At the next call of `write`, behind the loop, or at `_exit`. -/
inductive LoopMode
  | writing
  | finished
  | gaveUp
deriving DecidableEq

/-- The loop, with the positions in `buf` of the bytes appended to the segment. -/
structure WriteLoop where
  m : UInt32
  tryn : UInt32
  out : List ℕ
  mode : LoopMode

/-- `m` before the loop, for a buffer of `count` bytes and `*n` bytes of room. -/
def requested (count n : Int32) : Int32 := if count < n then count else n

namespace WriteLoop

def start (count n : Int32) : WriteLoop :=
  ⟨(requested count n).toUInt32, 0, [], if 0 < requested count n then .writing else .finished⟩

/-- One turn of the loop; `write` takes no more than it is given. -/
def step (s : WriteLoop) (r : WriteResult) : WriteLoop :=
  if s.mode = .writing ∧ r.taken ≤ s.m.toNat then
    let s := { s with out := s.out ++ List.range r.taken }
    if 0 < r.w then
      let m := s.m - r.w
      { s with m := m, mode := if m = 0 then .finished else .writing }
    else
      let tryn := s.tryn + 1
      { s with tryn := tryn, mode := if 5 < tryn then .gaveUp else .writing }
  else s

/-- The segment gets the requested bytes in their order, all of them unless the loop gives up,
and the next request is inside the buffer. -/
structure Appends (count n : Int32) (s : WriteLoop) : Prop where
  in_order : s.out <+: List.range (requested count n).toNatClampNeg
  all : s.mode = .finished → s.out = List.range (requested count n).toNatClampNeg
  inside : s.mode = .writing → s.m.toNat ≤ count.toNatClampNeg

/-- The call fails only with a request shorter than the buffer. It takes bytes only when none
have been taken, no more than were requested at first, and all of a request only when that is
the first one. -/
def Takes (count n : Int32) (s : WriteLoop) : WriteResult → Prop
  | .error => s.m.toNat < count.toNatClampNeg
  | .wrote k =>
      k = 0 ∨ s.out = [] ∧ k ≤ (requested count n).toNatClampNeg ∧
        (k = s.m.toNat → k = (requested count n).toNatClampNeg)

/-- Up to here: nothing has been taken, or some and not all. -/
structure Inv (count n : Int32) (s : WriteLoop) : Prop where
  appends : s.Appends count n
  pos : s.mode = .writing → 0 < s.m.toNat
  le_of_nil : s.mode = .writing → s.out = [] → (requested count n).toNatClampNeg ≤ s.m.toNat

/-! ## Positions in order -/

theorem range_prefix_range_iff {k r : ℕ} : List.range k <+: List.range r ↔ k ≤ r := by
  constructor
  · intro h
    simpa using h.length_le
  · intro h
    rw [List.prefix_iff_eq_take, List.take_range, List.length_range, Nat.min_eq_left h]

theorem append_range_prefix_iff {out : List ℕ} {k r : ℕ} (hk : k ≠ 0) :
    out ++ List.range k <+: List.range r ↔ out = [] ∧ k ≤ r := by
  constructor
  · rintro ⟨t, ht⟩
    have hlen := congrArg List.length ht
    simp only [List.length_append, List.length_range] at hlen
    have hget : (List.range r)[out.length]? = some 0 := by
      rw [← ht, List.append_assoc, List.getElem?_append_right (Nat.le_refl _), Nat.sub_self,
        List.getElem?_append_left (by simp; omega), List.getElem?_range (by omega)]
    rw [List.getElem?_range (by omega), Option.some.injEq] at hget
    exact ⟨List.length_eq_zero_iff.mp hget, by omega⟩
  · rintro ⟨rfl, hle⟩
    exact range_prefix_range_iff.mpr hle

/-! ## One turn -/

theorem toNat_sub_error {m : UInt32} (h : m.toNat < 2 ^ 31) :
    (m - WriteResult.error.w).toNat = m.toNat + 1 := by
  have hw : WriteResult.error.w.toNat = 4294967295 := rfl
  rw [UInt32.toNat_sub, hw]
  omega

theorem toNat_w_wrote {m : UInt32} {k : ℕ} (h : k ≤ m.toNat) :
    (WriteResult.wrote k).w.toNat = k :=
  UInt32.toNat_ofNat_of_lt' (Nat.lt_of_le_of_lt h m.toNat_lt)

theorem toNat_sub_wrote {m : UInt32} {k : ℕ} (h : k ≤ m.toNat) :
    (m - (WriteResult.wrote k).w).toNat = m.toNat - k := by
  have hw := toNat_w_wrote h
  rw [UInt32.toNat_sub_of_le _ _ (by rw [UInt32.le_iff_toNat_le, hw]; exact h), hw]

section

variable {count n : Int32} {s : WriteLoop}

theorem requested_le (count n : Int32) : requested count n ≤ count := by
  rw [requested]
  split_ifs with h
  · exact Int32.le_refl _
  · exact Int32.not_lt.mp h

theorem step_of_idle {r : WriteResult} (h : ¬ (s.mode = .writing ∧ r.taken ≤ s.m.toNat)) :
    s.step r = s := by
  rw [step, if_neg h]

theorem step_error (hmode : s.mode = .writing) (hm : s.m.toNat < 2 ^ 31) :
    s.step .error = { s with m := s.m - WriteResult.error.w } := by
  have hne : s.m - WriteResult.error.w ≠ 0 := by
    intro h
    have hsub := toNat_sub_error hm
    rw [h] at hsub
    simp at hsub
  have hw : 0 < WriteResult.error.w := by decide
  rw [step, if_pos ⟨hmode, Nat.zero_le _⟩]
  simp only [hw, if_true, if_neg hne, WriteResult.taken, List.range_zero, List.append_nil, hmode]

theorem step_zero (hmode : s.mode = .writing) :
    s.step (.wrote 0) =
      { s with
        tryn := s.tryn + 1
        mode := if 5 < s.tryn + 1 then .gaveUp else .writing } := by
  have hw : ¬ 0 < (WriteResult.wrote 0).w := by decide
  rw [step, if_pos ⟨hmode, Nat.zero_le _⟩]
  simp only [hw, if_false, WriteResult.taken, List.range_zero, List.append_nil]

theorem step_wrote {k : ℕ} (hmode : s.mode = .writing) (hk : k ≠ 0) (hle : k ≤ s.m.toNat) :
    s.step (.wrote k) =
      { s with
        m := s.m - (WriteResult.wrote k).w
        out := s.out ++ List.range k
        mode := if k = s.m.toNat then .finished else .writing } := by
  have hw : 0 < (WriteResult.wrote k).w := by
    rw [UInt32.lt_iff_toNat_lt, toNat_w_wrote hle]
    exact Nat.pos_of_ne_zero hk
  have hend : s.m - (WriteResult.wrote k).w = 0 ↔ k = s.m.toNat := by
    rw [← UInt32.toNat_inj, toNat_sub_wrote hle]
    simp only [UInt32.toNat_zero]
    omega
  rw [step, if_pos ⟨hmode, hle⟩]
  simp only [hw, if_true, hend, WriteResult.taken]

theorem inv_start (count n : Int32) : Inv count n (start count n) := by
  have hle : (requested count n).toNatClampNeg ≤ count.toNatClampNeg :=
    Int32.toNatClampNeg_le (requested_le count n)
  have hm : 0 < requested count n →
      (requested count n).toUInt32.toNat = (requested count n).toNatClampNeg := fun h =>
    Int32.toNat_toUInt32_of_le (Int32.le_of_lt h)
  by_cases h : 0 < requested count n
  · have hpos : 0 < (requested count n).toNatClampNeg :=
      (Int32.toNatClampNeg_pos_iff _).mpr h
    have hstart : (start count n).m.toNat = (requested count n).toNatClampNeg := hm h
    refine ⟨⟨List.nil_prefix, ?_, ?_⟩, ?_, ?_⟩
    · intro hmode
      simp [start, h] at hmode
    · intro _
      omega
    · intro _
      omega
    · intro _ _
      omega
  · have hzero : (requested count n).toNatClampNeg = 0 :=
      Int32.toNatClampNeg_eq_zero_iff.mpr (Int32.not_lt.mp h)
    have hmode : (start count n).mode ≠ .writing := by simp [start, h]
    exact ⟨⟨List.nil_prefix, fun _ => by rw [hzero]; rfl, fun hw => absurd hw hmode⟩,
      fun hw => absurd hw hmode, fun hw => absurd hw hmode⟩

theorem Inv.m_lt (hs : Inv count n s) (hmode : s.mode = .writing) : s.m.toNat < 2 ^ 31 :=
  Nat.lt_of_le_of_lt (hs.appends.inside hmode) (Int32.toNatClampNeg_lt count)

theorem Inv.step_error (hs : Inv count n s) (hmode : s.mode = .writing)
    (h : Takes count n s .error) : Inv count n (s.step .error) := by
  have hm := toNat_sub_error (hs.m_lt hmode)
  rw [WriteLoop.step_error hmode (hs.m_lt hmode)]
  rw [Takes] at h
  refine ⟨⟨hs.appends.in_order, hs.appends.all, fun _ => ?_⟩, fun _ => ?_, fun _ hnil => ?_⟩
  · simp only [hm]
    omega
  · simp only [hm]
    omega
  · have := hs.le_of_nil hmode hnil
    simp only [hm]
    omega

theorem Inv.step_zero (hs : Inv count n s) (hmode : s.mode = .writing) :
    Inv count n (s.step (.wrote 0)) := by
  rw [WriteLoop.step_zero hmode]
  refine ⟨⟨hs.appends.in_order, fun h => ?_, fun _ => hs.appends.inside hmode⟩,
    fun _ => hs.pos hmode, fun _ => hs.le_of_nil hmode⟩
  simp only at h
  split_ifs at h

theorem Inv.step_wrote {k : ℕ} (hs : Inv count n s) (hmode : s.mode = .writing) (hk : k ≠ 0)
    (hle : k ≤ s.m.toNat) (h : Takes count n s (.wrote k)) :
    Inv count n (s.step (.wrote k)) := by
  obtain ⟨hout, hreq, hall⟩ := h.resolve_left hk
  have hm := toNat_sub_wrote hle
  have hin := hs.appends.inside hmode
  rw [WriteLoop.step_wrote hmode hk hle]
  refine ⟨⟨?_, fun h => ?_, fun _ => ?_⟩, fun h => ?_, fun _ hnil => ?_⟩
  · exact (append_range_prefix_iff hk).mpr ⟨hout, hreq⟩
  · have hend : k = s.m.toNat := by
      by_contra hne
      simp [hne] at h
    simp only [hout, List.nil_append]
    rw [hall hend]
  · simp only [hm]
    omega
  · have hne : k ≠ s.m.toNat := by
      rintro rfl
      simp at h
    simp only [hm]
    omega
  · have hlen := congrArg List.length hnil
    simp only [List.length_append, List.length_range, List.length_nil] at hlen
    omega

theorem takes_of_appends (hs : Inv count n s) (hmode : s.mode = .writing) {r : WriteResult}
    (hle : r.taken ≤ s.m.toNat) (h : (s.step r).Appends count n) : Takes count n s r := by
  cases r with
  | error =>
      rw [WriteLoop.step_error hmode (hs.m_lt hmode)] at h
      have hin := h.inside hmode
      simp only [toNat_sub_error (hs.m_lt hmode)] at hin
      exact hin
  | wrote k =>
      rcases Nat.eq_zero_or_pos k with rfl | hpos
      · exact Or.inl rfl
      · have hk : k ≠ 0 := Nat.ne_of_gt hpos
        rw [WriteLoop.step_wrote hmode hk hle] at h
        obtain ⟨hout, hreq⟩ := (append_range_prefix_iff hk).mp h.in_order
        refine Or.inr ⟨hout, hreq, fun hend => ?_⟩
        have hall := congrArg List.length (h.all (by simp [hend]))
        simpa [hout] using hall

end

end WriteLoop

/-- For every buffer, every room and all results: the segment gets what it should, up to every
point of the loop, exactly when every result that the loop takes meets `Takes`. -/
theorem appends_iff (count n : Int32) (rs : List WriteResult) :
    (∀ ts, ts <+: rs → (run WriteLoop.step (.start count n) ts).Appends count n) ↔
      Meets WriteLoop.step
        (fun s r => s.mode = .writing → r.taken ≤ s.m.toNat → WriteLoop.Takes count n s r)
        (.start count n) rs := by
  refine forall_prefix_iff_meets_of_invariant (fun s hs => hs.appends) ?_ ?_
    (WriteLoop.inv_start count n) rs
  · intro s r hP hs
    by_cases hmode : s.mode = .writing ∧ r.taken ≤ s.m.toNat
    · have htakes := hP hmode.1 hmode.2
      cases r with
      | error => exact hs.step_error hmode.1 htakes
      | wrote k =>
          rcases Nat.eq_zero_or_pos k with rfl | hpos
          · exact hs.step_zero hmode.1
          · exact hs.step_wrote hmode.1 (Nat.ne_of_gt hpos) hmode.2 htakes
    · rw [WriteLoop.step_of_idle hmode]
      exact hs
  · intro s r hs h hmode hle
    exact WriteLoop.takes_of_appends hs hmode hle h

/-- Two of four bytes are written, and then two: the first two go out twice. -/
theorem not_appends_short :
    ¬ ∀ (count n : Int32) (rs : List WriteResult),
      (run WriteLoop.step (.start count n) rs).Appends count n := by
  intro h
  have hout := (h 4 8 [.wrote 2, .wrote 2]).in_order
  exact absurd hout (by decide)

end Vhub

end Tarako
