import Mathlib.Data.Finset.Card
import Mathlib.Data.Nat.ModEq
import Mathlib.Order.Interval.Finset.Nat
import Tarako.Lib.Memory
import Tarako.Lib.Run

/-!
# The FM ring buffer

`RingBuffer.cpp` passes units of `unit_size` bytes from a producer to a consumer. The two
hold different mutexes and meet in the indices, which run freely modulo `2 ^ 32`; the slot
of an index is the index modulo `unit_count`. The producer uses `GetBuf` and `PutData` in
pairs, the consumer `GetData` and `PutBuf`. A wait on a condition can end at any time.
The memory for the units is always found.
-/

namespace Tarako

namespace Fm

/-- The slot of the `k`-th unit among `n`. -/
def slot (n k : ℕ) : ℕ := k % 2 ^ 32 % n

structure RingBuffer where
  bufAddr : Memory
  rdIndex : ℕ
  wrIndex : ℕ
  unitCount : ℕ
  unitSize : ℕ

namespace RingBuffer

/-- `wr_index - rd_index`. -/
def used (r : RingBuffer) : ℕ := (r.wrIndex + 2 ^ 32 - r.rdIndex) % 2 ^ 32

def isFull (r : RingBuffer) : Prop := r.unitCount ≤ r.used

def isEmpty (r : RingBuffer) : Prop := r.wrIndex = r.rdIndex

instance (r : RingBuffer) : Decidable r.isFull := Nat.decLe _ _

instance (r : RingBuffer) : Decidable r.isEmpty := Nat.decEq _ _

def getDataCount (r : RingBuffer) : ℕ := r.used * r.unitSize % 2 ^ 32

/-- `unit_size*(index%unit_count)`. -/
def offset (r : RingBuffer) (index : ℕ) : ℕ := r.unitSize * (index % r.unitCount) % 2 ^ 32

def unitAt (r : RingBuffer) (index : ℕ) : List UInt8 :=
  (List.range r.unitSize).map fun i => r.bufAddr (r.offset index + i)

end RingBuffer

/-- Where a thread is: outside its pair of calls, in the wait of the first one, or between
the two with the address of a unit. -/
inductive Side where
  | outside
  | waiting
  | holding
  deriving DecidableEq

/-- The ring with its two threads, the units that `PutData` committed and the units that
the consumer had in its hands until `PutBuf`. -/
structure Session where
  ring : RingBuffer
  producer : Side
  consumer : Side
  committed : List (List UInt8)
  taken : List (List UInt8)

/-- A call, a wait that ends, or a byte of its unit that the producer writes. -/
inductive Event where
  | getBuf (wait : Bool)
  | wakeProducer
  | write (i : ℕ) (b : UInt8)
  | putData
  | getData (wait : Bool)
  | wakeConsumer
  | putBuf

namespace Session

def start (unitCount unitSize : ℕ) : Session where
  ring :=
    { bufAddr := fun _ => 0, rdIndex := 0, wrIndex := 0, unitCount := unitCount,
      unitSize := unitSize }
  producer := .outside
  consumer := .outside
  committed := []
  taken := []

def getBuf (s : Session) (wait : Bool) : Session :=
  if s.ring.isFull then
    if wait then { s with producer := .waiting } else s
  else { s with producer := .holding }

def write (s : Session) (i : ℕ) (b : UInt8) : Session :=
  { s with
    ring := { s.ring with
      bufAddr := Function.update s.ring.bufAddr (s.ring.offset s.ring.wrIndex + i) b } }

def putData (s : Session) : Session :=
  { s with
    ring := { s.ring with wrIndex := (s.ring.wrIndex + 1) % 2 ^ 32 }
    producer := .outside
    committed := s.committed ++ [s.ring.unitAt s.ring.wrIndex] }

def getData (s : Session) (wait : Bool) : Session :=
  if s.ring.isEmpty then
    if wait then { s with consumer := .waiting } else s
  else { s with consumer := .holding }

/-- The consumer looks again after its wait. -/
def wakeConsumer (s : Session) : Session :=
  if s.ring.isEmpty then { s with consumer := .outside } else { s with consumer := .holding }

def putBuf (s : Session) : Session :=
  { s with
    ring := { s.ring with rdIndex := (s.ring.rdIndex + 1) % 2 ^ 32 }
    consumer := .outside
    taken := s.taken ++ [s.ring.unitAt s.ring.rdIndex] }

def step (s : Session) : Event → Session
  | .getBuf wait => if s.producer = .outside then s.getBuf wait else s
  -- `GetBuf` does not look again after its wait.
  | .wakeProducer => if s.producer = .waiting then { s with producer := .holding } else s
  | .write i b =>
      if s.producer = .holding ∧ i < s.ring.unitSize then s.write i b else s
  | .putData => if s.producer = .holding then s.putData else s
  | .getData wait => if s.consumer = .outside then s.getData wait else s
  | .wakeConsumer => if s.consumer = .waiting then s.wakeConsumer else s
  | .putBuf => if s.consumer = .holding then s.putBuf else s

/-- The bounded queue: the units taken are the first ones committed; the others lie
unharmed in slots of their own; the producer holds a slot that none of them has; the
consumer holds the next one; and the count is theirs. -/
structure Fifo (s : Session) : Prop where
  taken : s.taken <+: s.committed
  kept : ∀ k (h : k < s.committed.length), s.taken.length ≤ k →
    s.ring.unitAt (k % 2 ^ 32) = s.committed[k]
  distinct : ∀ j k, s.taken.length ≤ j → j < k → k < s.committed.length →
    slot s.ring.unitCount j ≠ slot s.ring.unitCount k
  free : s.producer = .holding → ∀ k, s.taken.length ≤ k → k < s.committed.length →
    slot s.ring.unitCount k ≠ s.ring.wrIndex % s.ring.unitCount
  next : s.consumer = .holding → ∃ h : s.taken.length < s.committed.length,
    s.ring.unitAt s.ring.rdIndex = s.committed[s.taken.length]
  count : s.ring.getDataCount = (s.committed.length - s.taken.length) * s.ring.unitSize

/-- The slot of `wr_index` is one of a unit from before the last wrap of the indices. -/
def Folded (r : RingBuffer) : Prop :=
  r.wrIndex < 2 ^ 32 % r.unitCount ∧ 2 ^ 32 % r.unitCount ≤ r.used

/-- `GetBuf` returns a slot only when the ring is not full, also after a wait, and the slot
is not one that a wrap of the indices has brought back too early. -/
def Timely (s : Session) : Event → Prop
  | .getBuf _ => s.producer = .outside → ¬ s.ring.isFull → ¬ Folded s.ring
  | .wakeProducer => s.producer = .waiting → ¬ s.ring.isFull ∧ ¬ Folded s.ring
  | _ => True

/-- What holds whatever the threads do: the indices count units, and the ring keeps its
measures, which fit 32 bits. -/
structure Counted (s : Session) : Prop where
  wrIndex : s.ring.wrIndex = s.committed.length % 2 ^ 32
  rdIndex : s.ring.rdIndex = s.taken.length % 2 ^ 32
  pos : 1 ≤ s.ring.unitCount
  count_lt : s.ring.unitCount < 2 ^ 32
  size_lt : s.ring.unitCount * s.ring.unitSize < 2 ^ 32

end Session

/-! ### Slots -/

theorem sub_mod_eq_iff {a d m n : ℕ} (hd : d < n) (hm : d ≤ m) :
    (a + m - d) % n = a % n ↔ m % n = d := by
  have hback : a + m - d + d = a + m := by omega
  constructor
  · intro h
    have hmod : a + m ≡ a + d [MOD n] := by
      rw [← hback]
      exact Nat.ModEq.add_right d h
    have hcancel : m % n = d % n := Nat.ModEq.add_left_cancel' a hmod
    rw [hcancel, Nat.mod_eq_of_lt hd]
  · intro h
    have hmod : m ≡ d [MOD n] := by
      rw [Nat.ModEq, h, Nat.mod_eq_of_lt hd]
    have hsum : a + m - d + d ≡ a + d [MOD n] := by
      rw [hback]
      exact hmod.add_left a
    exact Nat.ModEq.add_right_cancel' d hsum

theorem mod_sub_of_le {j k m : ℕ} (hjk : j ≤ k) (h : k - j ≤ k % m) :
    j % m = k % m - (k - j) := by
  have hdiv := Nat.div_add_mod k m
  have hj : j = k % m - (k - j) + m * (k / m) := by omega
  rw [hj, Nat.add_mul_mod_self_left]
  rcases Nat.eq_zero_or_pos m with hm | hm
  · subst hm
    omega
  · have hlt := Nat.mod_lt k hm
    rw [Nat.mod_eq_of_lt (by omega)]
    omega

theorem mod_sub_of_lt {j k m : ℕ} (hjk : j ≤ k) (h : k % m < k - j) (hd : k - j ≤ m) :
    j % m = k % m + m - (k - j) := by
  have hm : 0 < m := by omega
  have hlt := Nat.mod_lt k hm
  have hdiv := Nat.div_add_mod k m
  have hle : m ≤ k := by
    by_contra hcon
    rw [Nat.mod_eq_of_lt (by omega)] at h
    omega
  have hpos : 1 ≤ k / m := Nat.div_pos hle hm
  obtain ⟨q, hq⟩ : ∃ q, k / m = q + 1 := ⟨k / m - 1, by omega⟩
  rw [hq, Nat.mul_succ] at hdiv
  have hj : j = k % m + m - (k - j) + m * q := by omega
  rw [hj, Nat.add_mul_mod_self_left]
  rw [Nat.mod_eq_of_lt (by omega)]
  omega

/-- Two units less than `n` apart share a slot only across a wrap of the indices, and then
at one distance only. -/
theorem slot_eq_iff {n j k : ℕ} (hjk : j < k) (hlt : k - j < n) (hn : n < 2 ^ 32) :
    slot n j = slot n k ↔ k % 2 ^ 32 < 2 ^ 32 % n ∧ k - j = 2 ^ 32 % n := by
  unfold slot
  rcases Nat.lt_or_ge (k % 2 ^ 32) (k - j) with hwrap | hlap
  · rw [mod_sub_of_lt (Nat.le_of_lt hjk) hwrap (by omega), sub_mod_eq_iff hlt (by omega)]
    omega
  · rw [mod_sub_of_le (Nat.le_of_lt hjk) hlap]
    have hne : (k % 2 ^ 32 - (k - j)) % n ≠ k % 2 ^ 32 % n := by
      intro h
      have hmod : k % 2 ^ 32 - (k - j) + 0 ≡ k % 2 ^ 32 - (k - j) + (k - j) [MOD n] := by
        rw [Nat.sub_add_cancel hlap]
        exact h
      have hzero : 0 ≡ k - j [MOD n] := Nat.ModEq.add_left_cancel' _ hmod
      rw [Nat.ModEq, Nat.zero_mod, Nat.mod_eq_of_lt hlt] at hzero
      omega
    exact iff_of_false hne (by omega)

/-- Units that all lie in different slots are at most as many as there are slots. -/
theorem sub_le_of_distinct {n lo hi : ℕ} (hn : 0 < n)
    (h : ∀ j k, lo ≤ j → j < k → k < hi → slot n j ≠ slot n k) : hi - lo ≤ n := by
  have hmaps : ∀ k ∈ Finset.Ico lo hi, slot n k ∈ Finset.range n := fun k _ =>
    Finset.mem_range.mpr (Nat.mod_lt _ hn)
  have hinj : Set.InjOn (slot n) (Finset.Ico lo hi) := by
    intro j hj k hk hslot
    rw [Finset.coe_Ico, Set.mem_Ico] at hj hk
    by_contra hne
    rcases Nat.lt_or_gt_of_ne hne with hlt | hgt
    · exact h j k hj.1 hlt hk.2 hslot
    · exact h k j hk.1 hgt hj.2 hslot.symm
  have hcard := Finset.card_le_card_of_injOn (slot n) hmaps hinj
  rwa [Nat.card_Ico, Finset.card_range] at hcard

namespace Session

variable {s : Session}

/-! ### What always holds -/

theorem counted_start {n size : ℕ} (hpos : 1 ≤ n) (hlt : n < 2 ^ 32)
    (hsize : n * size < 2 ^ 32) : (start n size).Counted :=
  ⟨rfl, rfl, hpos, hlt, hsize⟩

theorem Counted.of_producer (h : s.Counted) (p : Side) : { s with producer := p }.Counted :=
  ⟨h.wrIndex, h.rdIndex, h.pos, h.count_lt, h.size_lt⟩

theorem Counted.of_consumer (h : s.Counted) (c : Side) : { s with consumer := c }.Counted :=
  ⟨h.wrIndex, h.rdIndex, h.pos, h.count_lt, h.size_lt⟩

theorem Counted.write (h : s.Counted) (i : ℕ) (b : UInt8) : (s.write i b).Counted :=
  ⟨h.wrIndex, h.rdIndex, h.pos, h.count_lt, h.size_lt⟩

theorem Counted.putData (h : s.Counted) : s.putData.Counted where
  wrIndex := by
    simp only [Session.putData, h.wrIndex, List.length_append, List.length_singleton]
    omega
  rdIndex := h.rdIndex
  pos := h.pos
  count_lt := h.count_lt
  size_lt := h.size_lt

theorem Counted.putBuf (h : s.Counted) : s.putBuf.Counted where
  wrIndex := h.wrIndex
  rdIndex := by
    simp only [Session.putBuf, h.rdIndex, List.length_append, List.length_singleton]
    omega
  pos := h.pos
  count_lt := h.count_lt
  size_lt := h.size_lt

theorem Counted.getBuf (h : s.Counted) (wait : Bool) : (s.getBuf wait).Counted := by
  unfold Session.getBuf
  split
  · split
    · exact h.of_producer .waiting
    · exact h
  · exact h.of_producer .holding

theorem Counted.getData (h : s.Counted) (wait : Bool) : (s.getData wait).Counted := by
  unfold Session.getData
  split
  · split
    · exact h.of_consumer .waiting
    · exact h
  · exact h.of_consumer .holding

theorem Counted.wakeConsumer (h : s.Counted) : s.wakeConsumer.Counted := by
  unfold Session.wakeConsumer
  split
  · exact h.of_consumer .outside
  · exact h.of_consumer .holding

theorem ite_self_of {P : Session → Prop} {c : Prop} [Decidable c] {t : Session} (hs : P s)
    (ht : c → P t) : P (if c then t else s) := by
  split
  · exact ht (by assumption)
  · exact hs

theorem Counted.step (h : s.Counted) (e : Event) : (s.step e).Counted := by
  cases e with
  | getBuf wait => exact ite_self_of h fun _ => h.getBuf wait
  | wakeProducer => exact ite_self_of h fun _ => h.of_producer .holding
  | write i b => exact ite_self_of h fun _ => h.write i b
  | putData => exact ite_self_of h fun _ => h.putData
  | getData wait => exact ite_self_of h fun _ => h.getData wait
  | wakeConsumer => exact ite_self_of h fun _ => h.wakeConsumer
  | putBuf => exact ite_self_of h fun _ => h.putBuf

theorem Counted.used_eq (h : s.Counted) (hle : s.taken.length ≤ s.committed.length)
    (hlt : s.committed.length - s.taken.length < 2 ^ 32) :
    s.ring.used = s.committed.length - s.taken.length := by
  rw [RingBuffer.used, h.wrIndex, h.rdIndex]
  omega

theorem Counted.getDataCount_eq (h : s.Counted)
    (hle : s.taken.length ≤ s.committed.length)
    (hn : s.committed.length - s.taken.length ≤ s.ring.unitCount) :
    s.ring.getDataCount = (s.committed.length - s.taken.length) * s.ring.unitSize := by
  have hlt := h.count_lt
  have hsize := Nat.lt_of_le_of_lt (Nat.mul_le_mul_right s.ring.unitSize hn) h.size_lt
  rw [RingBuffer.getDataCount, h.used_eq hle (by omega), Nat.mod_eq_of_lt hsize]

/-! ### The queue -/

theorem Fifo.length_le (h : s.Fifo) : s.taken.length ≤ s.committed.length := h.taken.length_le

theorem Fifo.length_sub_le (h : s.Fifo) (hc : s.Counted) :
    s.committed.length - s.taken.length ≤ s.ring.unitCount :=
  sub_le_of_distinct hc.pos h.distinct

theorem Fifo.used_eq (h : s.Fifo) (hc : s.Counted) :
    s.ring.used = s.committed.length - s.taken.length := by
  have hlt := hc.count_lt
  have hsub := h.length_sub_le hc
  exact hc.used_eq h.length_le (by omega)

theorem Fifo.isEmpty_iff (h : s.Fifo) (hc : s.Counted) :
    s.ring.isEmpty ↔ s.committed.length = s.taken.length := by
  have hlt := hc.count_lt
  have hsub := h.length_sub_le hc
  have hle := h.length_le
  rw [RingBuffer.isEmpty, hc.wrIndex, hc.rdIndex]
  omega

/-- The count, and the unit that the consumer holds, follow from the rest. -/
theorem Counted.fifo (hc : s.Counted) (htaken : s.taken <+: s.committed)
    (hkept : ∀ k (h : k < s.committed.length), s.taken.length ≤ k →
      s.ring.unitAt (k % 2 ^ 32) = s.committed[k])
    (hdistinct : ∀ j k, s.taken.length ≤ j → j < k → k < s.committed.length →
      slot s.ring.unitCount j ≠ slot s.ring.unitCount k)
    (hfree : s.producer = .holding → ∀ k, s.taken.length ≤ k → k < s.committed.length →
      slot s.ring.unitCount k ≠ s.ring.wrIndex % s.ring.unitCount)
    (hnext : s.consumer = .holding → s.taken.length < s.committed.length) : s.Fifo where
  taken := htaken
  kept := hkept
  distinct := hdistinct
  free := hfree
  next := fun h => ⟨hnext h, by rw [hc.rdIndex, hkept _ (hnext h) (Nat.le_refl _)]⟩
  count := hc.getDataCount_eq htaken.length_le (sub_le_of_distinct hc.pos hdistinct)

theorem fifo_start {n size : ℕ} (hpos : 1 ≤ n) (hlt : n < 2 ^ 32)
    (hsize : n * size < 2 ^ 32) : (start n size).Fifo := by
  refine (counted_start hpos hlt hsize).fifo List.nil_prefix ?_ ?_ ?_ ?_
  · intro k h
    exact absurd h (Nat.not_lt_zero k)
  · intro j k _ _ h
    exact absurd h (Nat.not_lt_zero k)
  · exact fun h => absurd h (by simp [start])
  · exact fun h => absurd h (by simp [start])

/-- The slot of `wr_index` is free exactly if the ring is not full and the slot is not one
from before a wrap. -/
theorem Fifo.free_iff (h : s.Fifo) (hc : s.Counted) :
    (∀ k, s.taken.length ≤ k → k < s.committed.length →
      slot s.ring.unitCount k ≠ s.ring.wrIndex % s.ring.unitCount) ↔
      ¬ s.ring.isFull ∧ ¬ Folded s.ring := by
  have hslot : s.ring.wrIndex % s.ring.unitCount =
      slot s.ring.unitCount s.committed.length := by rw [hc.wrIndex, slot]
  have hle := h.length_le
  rw [hslot, RingBuffer.isFull, Folded, h.used_eq hc, hc.wrIndex]
  constructor
  · intro hfree
    have hsub : s.committed.length + 1 - s.taken.length ≤ s.ring.unitCount := by
      refine sub_le_of_distinct hc.pos fun j k hj hjk hk => ?_
      rcases Nat.lt_or_ge k s.committed.length with hlt | hge
      · exact h.distinct j k hj hjk hlt
      · obtain rfl : k = s.committed.length := by omega
        exact hfree j hj hjk
    refine ⟨by omega, ?_⟩
    rintro ⟨hwrap, hold⟩
    refine hfree (s.committed.length - 2 ^ 32 % s.ring.unitCount) (by omega) (by omega) ?_
    exact (slot_eq_iff (by omega) (by omega) hc.count_lt).mpr ⟨hwrap, by omega⟩
  · rintro ⟨hfull, hfolded⟩ k hk hlt heq
    obtain ⟨hwrap, hdist⟩ := (slot_eq_iff hlt (by omega) hc.count_lt).mp heq
    exact hfolded ⟨hwrap, by omega⟩

theorem Fifo.holding_iff (h : s.Fifo) (hc : s.Counted) :
    { s with producer := .holding }.Fifo ↔ ¬ s.ring.isFull ∧ ¬ Folded s.ring := by
  rw [← h.free_iff hc]
  constructor
  · exact fun hnew => hnew.free rfl
  · intro hfree
    exact (hc.of_producer .holding).fifo h.taken h.kept h.distinct (fun _ => hfree)
      fun hn => (h.next hn).1

theorem Fifo.of_producer (h : s.Fifo) (hc : s.Counted) {p : Side} (hp : p ≠ .holding) :
    { s with producer := p }.Fifo :=
  (hc.of_producer p).fifo h.taken h.kept h.distinct (fun heq => absurd heq hp)
    fun hn => (h.next hn).1

theorem Fifo.of_consumer (h : s.Fifo) (hc : s.Counted) {c : Side}
    (hnext : c = .holding → s.taken.length < s.committed.length) :
    { s with consumer := c }.Fifo :=
  (hc.of_consumer c).fifo h.taken h.kept h.distinct h.free hnext

theorem Counted.offset_eq (hc : s.Counted) (index : ℕ) :
    s.ring.offset index = s.ring.unitSize * (index % s.ring.unitCount) := by
  have hlt := Nat.mod_lt index hc.pos
  have hle := Nat.mul_le_mul_left s.ring.unitSize (Nat.le_of_lt hlt)
  have hsize := hc.size_lt
  rw [Nat.mul_comm] at hsize
  exact Nat.mod_eq_of_lt (Nat.lt_of_le_of_lt hle hsize)

theorem Counted.unitAt_write (hc : s.Counted) {i index : ℕ} (hi : i < s.ring.unitSize)
    (hne : index % s.ring.unitCount ≠ s.ring.wrIndex % s.ring.unitCount) (b : UInt8) :
    (s.write i b).ring.unitAt index = s.ring.unitAt index := by
  refine List.map_congr_left fun j hj => ?_
  rw [List.mem_range] at hj
  refine Function.update_of_ne ?_ b s.ring.bufAddr
  change s.ring.offset index + j ≠ s.ring.offset s.ring.wrIndex + i
  change j < s.ring.unitSize at hj
  rw [hc.offset_eq, hc.offset_eq]
  intro heq
  rcases Nat.lt_or_gt_of_ne hne with hlt | hgt
  · have hmul := Nat.mul_le_mul_left s.ring.unitSize (Nat.succ_le_of_lt hlt)
    rw [Nat.mul_succ] at hmul
    omega
  · have hmul := Nat.mul_le_mul_left s.ring.unitSize (Nat.succ_le_of_lt hgt)
    rw [Nat.mul_succ] at hmul
    omega

theorem Fifo.write (h : s.Fifo) (hc : s.Counted) (hp : s.producer = .holding) {i : ℕ}
    (hi : i < s.ring.unitSize) (b : UInt8) : (s.write i b).Fifo := by
  refine (hc.write i b).fifo h.taken ?_ h.distinct h.free fun hn => (h.next hn).1
  intro k hk hle
  rw [hc.unitAt_write hi (h.free hp k hle hk)]
  exact h.kept k hk hle

theorem Fifo.putData (h : s.Fifo) (hc : s.Counted) (hp : s.producer = .holding) :
    s.putData.Fifo := by
  have hlen : s.putData.committed.length = s.committed.length + 1 := by
    rw [Session.putData, List.length_append, List.length_singleton]
  refine hc.putData.fifo (h.taken.trans (List.prefix_append _ _)) ?_ ?_ ?_ ?_
  · intro k hk hle
    rcases Nat.lt_or_ge k s.committed.length with hlt | hge
    · have hold : s.putData.committed[k] = s.committed[k] := List.getElem_append_left hlt
      rw [hold]
      exact h.kept k hlt hle
    · obtain rfl : k = s.committed.length := by omega
      have hnew : s.putData.committed[s.committed.length] = s.ring.unitAt s.ring.wrIndex :=
        List.getElem_concat_length rfl hk
      rw [hnew, hc.wrIndex]
      rfl
  · intro j k hj hjk hk
    rcases Nat.lt_or_ge k s.committed.length with hlt | hge
    · exact h.distinct j k hj hjk hlt
    · obtain rfl : k = s.committed.length := by omega
      have hfree := h.free hp j hj hjk
      rw [hc.wrIndex] at hfree
      exact hfree
  · intro hn
    exact absurd hn (by simp [Session.putData])
  · intro hn
    have hlt := (h.next hn).1
    rw [hlen]
    exact Nat.lt_succ_of_lt hlt

theorem Fifo.putBuf (h : s.Fifo) (hc : s.Counted) (hn : s.consumer = .holding) :
    s.putBuf.Fifo := by
  obtain ⟨hlt, hunit⟩ := h.next hn
  have hlen : s.putBuf.taken.length = s.taken.length + 1 := by
    rw [Session.putBuf, List.length_append, List.length_singleton]
  refine hc.putBuf.fifo ?_ ?_ ?_ ?_ ?_
  · change s.taken ++ [s.ring.unitAt s.ring.rdIndex] <+: s.committed
    rw [hunit, List.prefix_iff_eq_take, List.length_append, List.length_singleton,
      List.take_succ_eq_append_getElem hlt, ← List.prefix_iff_eq_take.mp h.taken]
  · intro k hk hle
    rw [hlen] at hle
    exact h.kept k hk (by omega)
  · intro j k hj hjk hk
    rw [hlen] at hj
    exact h.distinct j k (by omega) hjk hk
  · intro hp k hk hklt
    rw [hlen] at hk
    exact h.free hp k (by omega) hklt
  · intro hcon
    exact absurd hcon (by simp [Session.putBuf])

theorem Fifo.lt_of_not_isEmpty (h : s.Fifo) (hc : s.Counted) (he : ¬ s.ring.isEmpty) :
    s.taken.length < s.committed.length := by
  rw [h.isEmpty_iff hc] at he
  exact Nat.lt_of_le_of_ne h.length_le (Ne.symm he)

theorem Fifo.getData (h : s.Fifo) (hc : s.Counted) (wait : Bool) : (s.getData wait).Fifo := by
  unfold Session.getData
  split
  · split
    · exact h.of_consumer hc fun hn => Side.noConfusion hn
    · exact h
  · exact h.of_consumer hc fun _ => h.lt_of_not_isEmpty hc (by assumption)

theorem Fifo.wakeConsumer (h : s.Fifo) (hc : s.Counted) : s.wakeConsumer.Fifo := by
  unfold Session.wakeConsumer
  split
  · exact h.of_consumer hc fun hn => Side.noConfusion hn
  · exact h.of_consumer hc fun _ => h.lt_of_not_isEmpty hc (by assumption)

theorem Fifo.getBuf_iff (h : s.Fifo) (hc : s.Counted) (wait : Bool) :
    (s.getBuf wait).Fifo ↔ (¬ s.ring.isFull → ¬ Folded s.ring) := by
  unfold Session.getBuf
  split
  · refine iff_of_true ?_ fun hnot => absurd (by assumption) hnot
    split
    · exact h.of_producer hc (by decide)
    · exact h
  · rw [h.holding_iff hc]
    exact ⟨fun hboth _ => hboth.2, fun himp => ⟨by assumption, himp (by assumption)⟩⟩

theorem Fifo.step_iff (h : s.Fifo) (hc : s.Counted) (e : Event) :
    (s.step e).Fifo ↔ Timely s e := by
  cases e with
  | getBuf wait =>
      rw [step, Timely]
      by_cases hp : s.producer = .outside
      · rw [if_pos hp, h.getBuf_iff hc]
        simp [hp]
      · rw [if_neg hp]
        exact iff_of_true h fun hcon => absurd hcon hp
  | wakeProducer =>
      rw [step, Timely]
      by_cases hp : s.producer = .waiting
      · rw [if_pos hp, h.holding_iff hc]
        simp [hp]
      · rw [if_neg hp]
        exact iff_of_true h fun hcon => absurd hcon hp
  | write i b =>
      exact iff_of_true (ite_self_of h fun hi => h.write hc hi.1 hi.2 b) trivial
  | putData => exact iff_of_true (ite_self_of h fun hp => h.putData hc hp) trivial
  | getData wait => exact iff_of_true (ite_self_of h fun _ => h.getData hc wait) trivial
  | wakeConsumer => exact iff_of_true (ite_self_of h fun _ => h.wakeConsumer hc) trivial
  | putBuf => exact iff_of_true (ite_self_of h fun hn => h.putBuf hc hn) trivial

/-- The buffer is a bounded queue throughout a run exactly if `GetBuf` is timely in all of
its steps. -/
theorem fifo_run_iff {unitCount unitSize : ℕ} (hpos : 1 ≤ unitCount)
    (hlt : unitCount < 2 ^ 32) (hsize : unitCount * unitSize < 2 ^ 32) (es : List Event) :
    (∀ fs, fs <+: es → (Run.run step (start unitCount unitSize) fs).Fifo) ↔
      Run.Meets step Timely (start unitCount unitSize) es :=
  @Run.forall_prefix_iff_meets Session Event step Timely Counted Fifo
    (fun _ e hc => hc.step e) (fun _ e hc h => h.step_iff hc e) _
    (counted_start hpos hlt hsize) (fifo_start hpos hlt hsize) es

theorem fifo_run_one :
    (∀ fs, fs <+: [.getBuf true, .write 0 7, .putData, .getData false, .putBuf] →
      (Run.run step (start 1 1) fs).Fifo) ↔
      Run.Meets step Timely (start 1 1)
        [.getBuf true, .write 0 7, .putData, .getData false, .putBuf] :=
  fifo_run_iff (by decide) (by decide) (by decide) _

/-- With one slot the wait of the second `GetBuf` ends while the first unit is still in the
slot: it is overwritten, and the consumer reads 8 where 7 was committed. -/
theorem unit_overwritten :
    (Run.run step (start 1 1)
      [.getBuf true, .write 0 7, .putData, .getBuf true, .wakeProducer, .write 0 8,
        .getData false, .putBuf]).committed = [[7]] ∧
    (Run.run step (start 1 1)
      [.getBuf true, .write 0 7, .putData, .getBuf true, .wakeProducer, .write 0 8,
        .getData false, .putBuf]).taken = [[8]] := by
  decide +kernel

end Session

end Fm

end Tarako
