import Tarako.Fm.RingBuffer
import Tarako.Lib.Stores

/-!
# Reading from an FM source

`FMHalSource::read` copies from the units of the ring into the buffer of its caller. A unit
that is not used up is carried over to the next call, and what the ring cannot fill is
padded with the last frame, unless exactly one frame is missing. The source is started and
stays so. `delivered` and `lastRead` only record what has been read.
-/

namespace Tarako

namespace Fm

/-- Where a byte in the buffer of a read is from. -/
inductive Origin where
  | zero
  | ring
  | padding
  deriving DecidableEq

structure ReadLog where
  bytes : ℕ
  stores : List (Store Origin)
  deriving DecidableEq

/-- Every byte of the read was stored. -/
def ReadLog.Filled (r : ReadLog) : Prop := ∀ i < r.bytes, Store.Covers r.stores i

/-- `ply_buf` is an offset into the memory of the ring. `last_l` and `last_r` are kept as
the two bytes of a sample. -/
structure Player where
  session : Session
  plyBuf : Option ℕ
  plyLen : ℕ
  isReady : Bool
  lastL : UInt8 × UInt8
  lastR : UInt8 × UInt8
  delivered : List UInt8
  lastRead : Option ReadLog

namespace Player

def release (p : Player) : Player :=
  if p.plyBuf = none then p
  else { p with session := p.session.step .putBuf, plyBuf := none }

def getData (p : Player) : Player :=
  let s := p.session.step (.getData false)
  if s.consumer = .holding then
    { p with
      session := s
      plyBuf := some (s.ring.offset s.ring.rdIndex)
      plyLen := s.ring.unitSize }
  else { p with session := s, plyBuf := none }

def refill (p : Player) : Player := if p.plyLen = 0 then p.release.getData else p

def copyOut (p : Player) (left : ℕ) : Player × List UInt8 :=
  let count := min p.plyLen left
  let bytes := p.session.ring.bufAddr.bytes (p.plyBuf.getD 0) count
  ({ p with
      plyBuf := p.plyBuf.map (· + count)
      plyLen := p.plyLen - count
      delivered := p.delivered ++ bytes },
    bytes)

def loop : ℕ → Player → ℕ → Player × List UInt8
  | 0, p, _ => (p, [])
  | n + 1, p, left =>
      if left = 0 then (p, [])
      else if p.plyLen = 0 ∧ p.refill.plyBuf = none then (p.refill, [])
      else
        let (q, bytes) := p.refill.copyOut left
        let (q, rest) := loop n q (left - bytes.length)
        (q, bytes ++ rest)

/-- The ring is looked at: it was ready before, or is half full. -/
def served (p : Player) : Bool :=
  p.isReady || !decide (p.session.ring.getDataCount <
    p.session.ring.unitCount * p.session.ring.unitSize % 2 ^ 32 / 2)

def frames (p : Player) (n : ℕ) : List UInt8 :=
  (List.replicate n [p.lastL.1, p.lastL.2, p.lastR.1, p.lastR.2]).flatten

def turns (p : Player) (bytes : ℕ) : ℕ := bytes + 2 * p.session.ring.used + 2

def finish (p : Player) (copied : List UInt8) (buf : Memory) (bytes : ℕ) : Player :=
  let left := bytes - copied.length
  let padding := if left > 4 then p.frames (left / 4) else []
  let stores := Store.block .ring 0 copied ++
    Store.block .padding (2 * ((bytes - left) / 2)) padding
  let buf := Store.image stores buf
  { p with
    isReady := if left > 4 then false else p.isReady
    lastR := if bytes > 4 then (buf (2 * (bytes / 2 - 1)), buf (2 * (bytes / 2 - 1) + 1))
      else p.lastR
    lastL := if bytes > 4 then (buf (2 * (bytes / 2 - 2)), buf (2 * (bytes / 2 - 2) + 1))
      else p.lastL
    lastRead := some ⟨bytes, stores⟩ }

def read (p : Player) (buf : Memory) (bytes : ℕ) : Player :=
  if p.served then
    let (q, copied) := loop (p.turns bytes) { p with isReady := true } bytes
    q.finish copied buf bytes
  else { p with lastRead := some ⟨bytes, Store.block .zero 0 (List.replicate bytes 0)⟩ }

end Player

inductive Production where
  | getBuf (wait : Bool)
  | wakeProducer
  | write (i : ℕ) (b : UInt8)
  | putData

def Production.event : Production → Event
  | .getBuf wait => .getBuf wait
  | .wakeProducer => .wakeProducer
  | .write i b => .write i b
  | .putData => .putData

inductive Action where
  | produce (e : Production)
  | read (buf : Memory) (frames : ℕ)

namespace Player

def step (p : Player) : Action → Player
  | .produce e => { p with session := p.session.step e.event, lastRead := none }
  | .read buf frames => p.read buf (4 * frames)

def start (unitCount unitFrames : ℕ) (lastL lastR : UInt8 × UInt8) : Player where
  session := Session.start unitCount (4 * unitFrames)
  plyBuf := none
  plyLen := 0
  isReady := false
  lastL := lastL
  lastR := lastR
  delivered := []
  lastRead := none

/-- The ring is a queue, what has been delivered is the first part of what was committed,
every byte of the last read was stored, and padding was stored on an empty ring only. -/
structure Sound (p : Player) : Prop where
  fifo : p.session.Fifo
  delivered : p.delivered <+: p.session.committed.flatten
  filled : ∀ r ∈ p.lastRead, r.Filled
  padded : ∀ r ∈ p.lastRead, ∀ w ∈ r.stores, w.key = .padding → p.session.ring.isEmpty

def unread (p : Player) : ℕ :=
  p.plyLen + (p.session.ring.used - if p.plyBuf = none then 0 else 1) * p.session.ring.unitSize

/-- The producer is timely, and no read that looks at the ring finds one frame too few. -/
def Clean (p : Player) : Action → Prop
  | .produce e => Session.Timely p.session e.event
  | .read _ frames => p.served = true → p.unread + 4 ≠ 4 * frames

/-! ### What is left in the ring -/

def consumed (p : Player) : ℕ := if p.plyBuf = none then 0 else p.session.ring.unitSize - p.plyLen

def rest (p : Player) : List UInt8 :=
  (p.session.committed.drop p.session.taken.length).flatten.drop p.consumed

/-- The source and the ring agree on what has been delivered. -/
structure Synced (p : Player) : Prop where
  counted : p.session.Counted
  fifo : p.session.Fifo
  sizes : ∀ u ∈ p.session.committed, u.length = p.session.ring.unitSize
  idle : p.plyBuf = none → p.session.consumer = .outside ∧ p.plyLen = 0
  playing : ∀ a, p.plyBuf = some a → p.session.consumer = .holding ∧
    p.plyLen ≤ p.session.ring.unitSize ∧
    a = p.session.ring.offset p.session.ring.rdIndex + (p.session.ring.unitSize - p.plyLen)
  aligned : 4 ∣ p.plyLen ∧ 4 ∣ p.session.ring.unitSize
  stream : p.delivered ++ p.rest = p.session.committed.flatten

variable {p : Player}

theorem length_flatten_of_sizes {l : List (List UInt8)} {n : ℕ} (h : ∀ u ∈ l, u.length = n) :
    l.flatten.length = l.length * n := by
  induction l with
  | nil => simp
  | cons u l ih =>
      obtain ⟨hu, hl⟩ := List.forall_mem_cons.mp h
      rw [List.flatten_cons, List.length_append, hu, ih hl, List.length_cons, Nat.succ_mul,
        Nat.add_comm]

theorem Synced.length_pending (h : p.Synced) :
    (p.session.committed.drop p.session.taken.length).flatten.length =
      p.session.ring.used * p.session.ring.unitSize := by
  rw [length_flatten_of_sizes fun u hu => h.sizes u (List.mem_of_mem_drop hu),
    List.length_drop, h.fifo.used_eq h.counted]

theorem Synced.pending_eq (h : p.Synced) (hbuf : p.plyBuf ≠ none) :
    p.session.committed.drop p.session.taken.length =
      p.session.ring.unitAt p.session.ring.rdIndex ::
        p.session.committed.drop (p.session.taken.length + 1) := by
  obtain ⟨a, ha⟩ := Option.ne_none_iff_exists'.mp hbuf
  obtain ⟨hlt, hunit⟩ := h.fifo.next (h.playing a ha).1
  rw [hunit, List.drop_eq_getElem_cons hlt]

theorem Synced.unread_eq (h : p.Synced) : p.unread = p.rest.length := by
  rw [rest, List.length_drop, h.length_pending, unread, consumed]
  cases hbuf : p.plyBuf with
  | none =>
      rw [if_pos rfl, if_pos rfl, (h.idle hbuf).2, Nat.zero_add, Nat.sub_zero, Nat.sub_zero]
  | some a =>
      rw [if_neg nofun, if_neg nofun]
      obtain ⟨hholding, hle, -⟩ := h.playing a hbuf
      have hpos : 1 ≤ p.session.ring.used := by
        rw [h.fifo.used_eq h.counted]
        have hlt := (h.fifo.next hholding).1
        omega
      obtain ⟨k, hk⟩ := Nat.exists_eq_add_of_le' hpos
      rw [hk, Nat.add_sub_cancel, Nat.succ_mul]
      omega

/-! ### A turn of the loop -/

def weight (p : Player) : ℕ :=
  2 * (p.session.committed.length - p.session.taken.length) + if p.plyBuf = none then 1 else 0

/-- From `p` to `q` nothing is delivered and nothing lost. -/
structure Passes (p q : Player) : Prop where
  synced : q.Synced
  rest : q.rest = p.rest
  delivered : q.delivered = p.delivered

theorem Synced.release (h : p.Synced) (hzero : p.plyLen = 0) :
    Passes p p.release ∧ p.release.plyBuf = none ∧ p.release.weight ≤ p.weight := by
  unfold Player.release
  by_cases hbuf : p.plyBuf = none
  · rw [if_pos hbuf]
    exact ⟨⟨h, rfl, rfl⟩, hbuf, Nat.le_refl _⟩
  · obtain ⟨a, ha⟩ := Option.ne_none_iff_exists'.mp hbuf
    have hholding := (h.playing a ha).1
    have hstep : p.session.step .putBuf = p.session.putBuf := if_pos hholding
    have hlt := (h.fifo.next hholding).1
    have htaken : p.session.putBuf.taken.length = p.session.taken.length + 1 := by
      rw [Session.putBuf, List.length_append, List.length_singleton]
    have hunit : (p.session.ring.unitAt p.session.ring.rdIndex).length =
        p.session.ring.unitSize := by
      rw [RingBuffer.unitAt, List.length_map, List.length_range]
    have hrest : (p.session.committed.drop p.session.putBuf.taken.length).flatten.drop 0 =
        p.rest := by
      rw [Player.rest, h.pending_eq hbuf, htaken, List.drop_zero, List.flatten_cons,
        consumed, if_neg hbuf, hzero, Nat.sub_zero, ← hunit, List.drop_left]
    rw [if_neg hbuf, hstep]
    refine ⟨⟨⟨h.counted.putBuf, h.fifo.putBuf h.counted hholding, h.sizes,
      fun _ => ⟨rfl, hzero⟩, fun _ hsome => (by cases hsome), h.aligned, ?_⟩, hrest, rfl⟩,
      rfl, ?_⟩
    · have hstream := h.stream
      rw [← hrest] at hstream
      exact hstream
    · rw [weight, weight, if_neg hbuf, if_pos rfl]
      dsimp only
      rw [htaken]
      change 2 * (p.session.committed.length - (p.session.taken.length + 1)) + 1 ≤ _
      omega

theorem Synced.getData (h : p.Synced) (hbuf : p.plyBuf = none) :
    Passes p p.getData ∧
      (p.getData.plyBuf = none → p.rest = [] ∧ p.getData.session.ring.isEmpty) ∧
      (p.getData.plyBuf ≠ none → p.getData.weight < p.weight) := by
  obtain ⟨houtside, hzero⟩ := h.idle hbuf
  have hstep : p.session.step (.getData false) = p.session.getData false := if_pos houtside
  unfold Player.getData
  rw [hstep]
  by_cases hempty : p.session.ring.isEmpty
  · have hsame : p.session.getData false = p.session := if_pos hempty
    have hnot : p.session.consumer ≠ .holding := by
      rw [houtside]
      decide
    have hp : { p with plyBuf := none } = p := by
      rw [← hbuf]
    rw [hsame]
    dsimp only
    rw [if_neg hnot, hp]
    refine ⟨⟨h, rfl, rfl⟩, fun _ => ⟨?_, hempty⟩, fun hne => absurd hbuf hne⟩
    rw [Player.rest, ← (h.fifo.isEmpty_iff h.counted).mp hempty, List.drop_length]
    exact List.drop_nil
  · have hsome : p.session.getData false = { p.session with consumer := .holding } :=
      if_neg hempty
    have hlt := h.fifo.lt_of_not_isEmpty h.counted hempty
    rw [hsome]
    dsimp only
    rw [if_pos rfl]
    have hrest : (p.session.committed.drop p.session.taken.length).flatten.drop
        (p.session.ring.unitSize - p.session.ring.unitSize) = p.rest := by
      rw [Player.rest, consumed, if_pos hbuf, Nat.sub_self]
    refine ⟨⟨⟨h.counted.of_consumer .holding, h.fifo.of_consumer h.counted fun _ => hlt,
      h.sizes, fun hnone => (by cases hnone), ?_, ⟨h.aligned.2, h.aligned.2⟩, ?_⟩, hrest, rfl⟩,
      fun hnone => (by cases hnone), fun _ => ?_⟩
    · intro a ha
      obtain rfl := Option.some.inj ha
      exact ⟨rfl, Nat.le_refl _, by rw [Nat.sub_self]; rfl⟩
    · have hstream := h.stream
      rw [← hrest] at hstream
      exact hstream
    · rw [weight, weight, if_neg nofun, if_pos hbuf]
      exact Nat.lt_succ_self _

theorem Synced.refill (h : p.Synced) :
    Passes p p.refill ∧
      (p.plyLen = 0 ∧ p.refill.plyBuf = none →
        p.rest = [] ∧ p.refill.session.ring.isEmpty) ∧
      (¬ (p.plyLen = 0 ∧ p.refill.plyBuf = none) →
        p.refill.plyBuf ≠ none ∧ p.refill.weight ≤ p.weight ∧
          (p.plyLen = 0 → p.refill.weight < p.weight)) := by
  unfold Player.refill
  by_cases hzero : p.plyLen = 0
  · obtain ⟨hrel, hnone, hle⟩ := h.release hzero
    obtain ⟨hget, hempty, hlt⟩ := hrel.synced.getData hnone
    rw [if_pos hzero]
    refine ⟨⟨hget.synced, hget.rest.trans hrel.rest, hget.delivered.trans hrel.delivered⟩,
      fun hbuf => ?_, fun hbuf => ?_⟩
    · rw [← hrel.rest]
      exact hempty hbuf.2
    · have hne : p.release.getData.plyBuf ≠ none := fun hbuf' => hbuf ⟨hzero, hbuf'⟩
      have hdown := hlt hne
      exact ⟨hne, by omega, fun _ => by omega⟩
  · rw [if_neg hzero]
    refine ⟨⟨h, rfl, rfl⟩, fun hbuf => absurd hbuf.1 hzero, fun _ => ⟨?_, Nat.le_refl _,
      fun hcon => absurd hcon hzero⟩⟩
    exact fun hbuf => hzero (h.idle hbuf).2

theorem Synced.copyOut (h : p.Synced) (hbuf : p.plyBuf ≠ none) {left : ℕ} (hleft : 4 ∣ left) :
    (p.copyOut left).2 = p.rest.take (min p.plyLen left) ∧
      (p.copyOut left).2.length = min p.plyLen left ∧
      (p.copyOut left).1.Synced ∧
      (p.copyOut left).1.rest = p.rest.drop (min p.plyLen left) ∧
      (p.copyOut left).1.delivered = p.delivered ++ (p.copyOut left).2 ∧
      (p.copyOut left).1.weight = p.weight := by
  obtain ⟨a, ha⟩ := Option.ne_none_iff_exists'.mp hbuf
  obtain ⟨hholding, hle, haddr⟩ := h.playing a ha
  obtain ⟨hlen, hsize⟩ := h.aligned
  generalize hcount : min p.plyLen left = count
  have hcl : count ≤ p.plyLen := by omega
  have hconsumed : p.consumed = p.session.ring.unitSize - p.plyLen := if_neg hbuf
  -- the unit in hand: what is used of it, what is copied, and the rest
  have hunit : p.session.ring.unitAt p.session.ring.rdIndex =
      p.session.ring.bufAddr.bytes (p.session.ring.offset p.session.ring.rdIndex) p.consumed ++
        (p.session.ring.bufAddr.bytes a count ++
          p.session.ring.bufAddr.bytes (a + count) (p.plyLen - count)) := by
    have hsum : p.session.ring.unitSize = p.consumed + (count + (p.plyLen - count)) := by omega
    have hbytes : p.session.ring.unitAt p.session.ring.rdIndex =
        p.session.ring.bufAddr.bytes (p.session.ring.offset p.session.ring.rdIndex)
          p.session.ring.unitSize := rfl
    rw [hbytes, hsum, Memory.bytes_add, Memory.bytes_add, haddr, hconsumed]
  have hrest : p.rest = p.session.ring.bufAddr.bytes a count ++
      (p.session.ring.bufAddr.bytes (a + count) (p.plyLen - count) ++
        (p.session.committed.drop (p.session.taken.length + 1)).flatten) := by
    have hused := Memory.length_bytes p.session.ring.bufAddr
      (p.session.ring.offset p.session.ring.rdIndex) p.consumed
    rw [Player.rest, h.pending_eq hbuf, List.flatten_cons, hunit, List.append_assoc,
      List.append_assoc, List.drop_left' hused]
  have hcopied : (p.copyOut left).2 = p.session.ring.bufAddr.bytes a count := by
    rw [Player.copyOut, ha, hcount]
    rfl
  have htake : p.rest.take count = p.session.ring.bufAddr.bytes a count := by
    rw [hrest, List.take_left' (Memory.length_bytes _ _ _)]
  have hplayer : (p.copyOut left).1 = { p with
      plyBuf := some (a + count)
      plyLen := p.plyLen - count
      delivered := p.delivered ++ p.session.ring.bufAddr.bytes a count } := by
    rw [Player.copyOut, ha, hcount]
    rfl
  have hdrop : ((p.copyOut left).1).rest = p.rest.drop count := by
    rw [hplayer, Player.rest, Player.rest, List.drop_drop, hconsumed]
    refine congrArg (List.drop · _) ?_
    rw [consumed, if_neg nofun]
    dsimp only
    omega
  refine ⟨hcopied.trans htake.symm, ?_, ?_, hdrop, ?_, ?_⟩
  · rw [hcopied, Memory.length_bytes]
  · have hstream := h.stream
    rw [← List.take_append_drop count p.rest, htake, ← hdrop, ← List.append_assoc] at hstream
    rw [hplayer] at hstream ⊢
    refine ⟨h.counted, h.fifo, h.sizes, fun hnone => (by cases hnone), ?_, ⟨?_, hsize⟩, hstream⟩
    · intro b hb
      obtain rfl := Option.some.inj hb
      exact ⟨hholding, by dsimp only; omega, by dsimp only; omega⟩
    · dsimp only
      omega
  · rw [hplayer, hcopied]
  · rw [hplayer, weight, weight, if_neg nofun, if_neg hbuf]

/-- The loop takes the next `left` bytes, or as many as there are. -/
theorem Synced.loop (n : ℕ) {left : ℕ} (h : p.Synced) (hleft : 4 ∣ left)
    (hn : left + p.weight < n) :
    (Player.loop n p left).2 = p.rest.take left ∧
      (Player.loop n p left).1.Synced ∧
      (p.rest.length < left → (Player.loop n p left).1.session.ring.isEmpty) := by
  induction n generalizing p left with
  | zero => exact absurd hn (Nat.not_lt_zero _)
  | succ n ih =>
      rw [Player.loop]
      by_cases hzero : left = 0
      · rw [if_pos hzero, hzero]
        exact ⟨rfl, h, fun hlt => absurd hlt (Nat.not_lt_zero _)⟩
      · obtain ⟨hpass, hbreak, hgo⟩ := h.refill
        rw [if_neg hzero]
        by_cases hend : p.plyLen = 0 ∧ p.refill.plyBuf = none
        · obtain ⟨hrest, hempty⟩ := hbreak hend
          rw [if_pos hend, hrest]
          exact ⟨List.take_nil.symm, hpass.synced, fun _ => hempty⟩
        · obtain ⟨hbuf, hweight, hdown⟩ := hgo hend
          obtain ⟨hcopy, hlen, hsynced, hdrop, -, hw⟩ := hpass.synced.copyOut hbuf hleft
          rw [if_neg hend]
          dsimp only
          rw [hlen]
          generalize hcount : min p.refill.plyLen left = count at *
          have halign := hpass.synced.aligned.1
          have hless : left - count + (p.refill.copyOut left).1.weight < n := by
            rw [hw]
            by_cases hply : p.plyLen = 0
            · have hlt := hdown hply
              omega
            · have hsame : p.refill = p := if_neg hply
              rw [hsame] at hcount hweight ⊢
              omega
          obtain ⟨htake, hend', hempty⟩ := ih hsynced (by omega) hless
          rw [hpass.rest] at hcopy hdrop
          have hle : count ≤ p.rest.length := by
            rw [hcopy, List.length_take] at hlen
            omega
          refine ⟨?_, hend', fun hlt => hempty ?_⟩
          · have hsum : left = count + (left - count) := by omega
            rw [htake, hcopy, hdrop, ← List.take_add, ← hsum]
          · rw [hdrop, List.length_drop]
            omega

/-! ### A read -/

theorem length_frames (p : Player) (n : ℕ) : (p.frames n).length = 4 * n := by
  rw [frames, length_flatten_of_sizes (n := 4) fun u hu => ?_, List.length_replicate,
    Nat.mul_comm]
  rw [List.eq_of_mem_replicate hu]
  rfl

theorem Synced.of_log (h : p.Synced) (r : Option ReadLog) : { p with lastRead := r }.Synced :=
  ⟨h.counted, h.fifo, h.sizes, h.idle, h.playing, h.aligned, h.stream⟩

/-- What is stored behind the loop fills the buffer unless one frame is missing. -/
theorem Synced.finish_spec (h : p.Synced) (copied : List UInt8) (buf : Memory) (frames : ℕ)
    (hle : copied.length ≤ 4 * frames) (halign : 4 ∣ copied.length) :
    (p.finish copied buf (4 * frames)).Synced ∧
      (p.finish copied buf (4 * frames)).session = p.session ∧
      ∃ r, (p.finish copied buf (4 * frames)).lastRead = some r ∧
        (r.Filled ↔ copied.length + 4 ≠ 4 * frames) ∧
        ∀ w ∈ r.stores, w.key = .padding → copied.length < 4 * frames := by
  refine ⟨⟨h.counted, h.fifo, h.sizes, h.idle, h.playing, h.aligned, h.stream⟩, rfl, _, rfl,
    ?_, ?_⟩
  · generalize hleft : 4 * frames - copied.length = left
    have hsum : 4 * frames = copied.length + left := by omega
    have hoff : 2 * ((4 * frames - left) / 2) = copied.length := by omega
    have hring := Store.within_block Origin.ring 0 copied
    unfold ReadLog.Filled
    dsimp only
    rw [hoff, hsum]
    simp only [Store.covers_append]
    by_cases hfour : left = 4
    · rw [if_neg (by omega), Store.block_nil, hfour]
      refine iff_of_false (fun hall => ?_) (fun hne => hne rfl)
      obtain hcovers | hcovers := hall copied.length (by omega)
      · exact hring.not_covers (Or.inr (by omega)) hcovers
      · obtain ⟨w, hw, -⟩ := hcovers
        cases hw
    · refine iff_of_true (fun i hi => ?_) (by omega)
      by_cases hcopied : i < copied.length
      · exact Or.inl (Store.covers_block Origin.ring (Nat.zero_le i) (by omega))
      · have hframes := length_frames p (left / 4)
        rw [if_pos (by omega)]
        exact Or.inr (Store.covers_block Origin.padding (by omega) (by omega))
  · intro w hw hkey
    by_contra hfull
    rw [if_neg (by omega), Store.block_nil, List.append_nil] at hw
    rw [(Store.mem_block.mp hw).1] at hkey
    cases hkey

/-- A read keeps the source in step with the ring. It fills its buffer exactly if it does
not look at the ring or does not miss one frame, and pads only on an empty ring. -/
theorem Synced.read (h : p.Synced) (buf : Memory) (frames : ℕ) :
    (p.read buf (4 * frames)).Synced ∧
      ∃ r, (p.read buf (4 * frames)).lastRead = some r ∧
        (r.Filled ↔ (p.served = true → p.unread + 4 ≠ 4 * frames)) ∧
        ∀ w ∈ r.stores, w.key = .padding →
          (p.read buf (4 * frames)).session.ring.isEmpty := by
  unfold Player.read
  by_cases hserved : p.served = true
  · have hready : { p with isReady := true }.Synced :=
      ⟨h.counted, h.fifo, h.sizes, h.idle, h.playing, h.aligned, h.stream⟩
    have hrest : ({ p with isReady := true } : Player).rest = p.rest := rfl
    have hturns : 4 * frames + ({ p with isReady := true } : Player).weight <
        p.turns (4 * frames) := by
      rw [turns, h.fifo.used_eq h.counted, weight]
      dsimp only
      split_ifs
      · omega
      · omega
    rw [if_pos hserved]
    generalize p.turns (4 * frames) = n at hturns ⊢
    obtain ⟨htake, hsynced, hempty⟩ := hready.loop n (Nat.dvd_mul_right 4 frames) hturns
    rw [hrest] at htake hempty
    generalize Player.loop n { p with isReady := true } (4 * frames) = r at *
    obtain ⟨q, copied⟩ := r
    dsimp only at htake hsynced hempty ⊢
    have hunread := h.unread_eq
    have hlen : copied.length = min (4 * frames) p.rest.length := by
      rw [htake, List.length_take]
    have hmultiple : 4 ∣ p.rest.length := by
      rw [← hunread, unread]
      exact Nat.dvd_add h.aligned.1 (Nat.dvd_mul_left_of_dvd h.aligned.2 _)
    obtain ⟨hfinish, hsession, log, hlog, hfilled, hpadded⟩ :=
      hsynced.finish_spec copied buf frames (by omega) (by omega)
    refine ⟨hfinish, log, hlog, ?_, fun w hw hkey => ?_⟩
    · rw [hfilled, hunread]
      constructor
      · intro hne _
        omega
      · intro hne
        have hne' := hne hserved
        omega
    · have hlt := hpadded w hw hkey
      rw [hsession]
      exact hempty (by omega)
  · rw [if_neg hserved]
    refine ⟨h.of_log _, _, rfl, iff_of_true ?_ (fun hcon => absurd hcon hserved), ?_⟩
    · intro i hi
      exact Store.covers_block Origin.zero (Nat.zero_le i) (by simpa using hi)
    · intro w hw hkey
      rw [(Store.mem_block.mp hw).1] at hkey
      cases hkey

/-! ### A step of the producer -/

/-- The producer leaves the consumer alone and commits a unit at most. -/
structure Produces (s s' : Session) : Prop where
  consumer : s'.consumer = s.consumer
  taken : s'.taken = s.taken
  rdIndex : s'.ring.rdIndex = s.ring.rdIndex
  unitSize : s'.ring.unitSize = s.ring.unitSize
  unitCount : s'.ring.unitCount = s.ring.unitCount
  committed : s'.committed = s.committed ∨
    ∃ u : List UInt8, u.length = s.ring.unitSize ∧ s'.committed = s.committed ++ [u]

theorem produces_step (s : Session) (e : Production) : Produces s (s.step e.event) := by
  have hsame : Produces s s := ⟨rfl, rfl, rfl, rfl, rfl, Or.inl rfl⟩
  cases e with
  | getBuf wait =>
      refine Session.ite_self_of hsame fun _ => ?_
      unfold Session.getBuf
      split_ifs
      · exact ⟨rfl, rfl, rfl, rfl, rfl, Or.inl rfl⟩
      · exact hsame
      · exact ⟨rfl, rfl, rfl, rfl, rfl, Or.inl rfl⟩
  | wakeProducer => exact Session.ite_self_of hsame fun _ => ⟨rfl, rfl, rfl, rfl, rfl, Or.inl rfl⟩
  | write i b => exact Session.ite_self_of hsame fun _ => ⟨rfl, rfl, rfl, rfl, rfl, Or.inl rfl⟩
  | putData =>
      refine Session.ite_self_of hsame fun _ => ⟨rfl, rfl, rfl, rfl, rfl, Or.inr ⟨_, ?_, rfl⟩⟩
      rw [RingBuffer.unitAt, List.length_map, List.length_range]

theorem Synced.consumed_le (h : p.Synced) :
    p.consumed ≤ (p.session.committed.drop p.session.taken.length).flatten.length := by
  rw [consumed]
  split_ifs with hbuf
  · exact Nat.zero_le _
  · rw [h.pending_eq hbuf, List.flatten_cons, List.length_append, RingBuffer.unitAt,
      List.length_map, List.length_range]
    omega

theorem Synced.produce (h : p.Synced) {e : Production}
    (ht : Session.Timely p.session e.event) : (p.step (.produce e)).Synced := by
  have hprod := produces_step p.session e
  have hoffset : ∀ i, (p.session.step e.event).ring.offset i = p.session.ring.offset i := by
    intro i
    rw [RingBuffer.offset, RingBuffer.offset, hprod.unitSize, hprod.unitCount]
  refine ⟨h.counted.step e.event, (h.fifo.step_iff h.counted e.event).mpr ht, ?_, ?_, ?_, ?_, ?_⟩
  · change ∀ u ∈ (p.session.step e.event).committed,
      u.length = (p.session.step e.event).ring.unitSize
    rw [hprod.unitSize]
    obtain hsame | ⟨u, hu, hmore⟩ := hprod.committed
    · rw [hsame]
      exact h.sizes
    · rw [hmore, List.forall_mem_append, List.forall_mem_singleton]
      exact ⟨h.sizes, hu⟩
  · intro hbuf
    exact ⟨hprod.consumer.trans (h.idle hbuf).1, (h.idle hbuf).2⟩
  · intro a ha
    obtain ⟨hholding, hle, haddr⟩ := h.playing a ha
    refine ⟨hprod.consumer.trans hholding, ?_, ?_⟩
    · exact hle.trans_eq hprod.unitSize.symm
    · change a = (p.session.step e.event).ring.offset (p.session.step e.event).ring.rdIndex +
        ((p.session.step e.event).ring.unitSize - p.plyLen)
      rw [hoffset, hprod.rdIndex, hprod.unitSize]
      exact haddr
  · exact ⟨h.aligned.1, h.aligned.2.trans (hprod.unitSize ▸ Nat.dvd_refl _)⟩
  · have hconsumed : (p.step (.produce e)).consumed = p.consumed := by
      change (if p.plyBuf = none then 0 else (p.session.step e.event).ring.unitSize - p.plyLen) = _
      rw [hprod.unitSize, consumed]
    have hrest : (p.step (.produce e)).rest =
        ((p.session.step e.event).committed.drop p.session.taken.length).flatten.drop
          p.consumed := by
      rw [Player.rest, hconsumed]
      change ((p.session.step e.event).committed.drop
        (p.session.step e.event).taken.length).flatten.drop p.consumed = _
      rw [hprod.taken]
    change p.delivered ++ (p.step (.produce e)).rest = (p.session.step e.event).committed.flatten
    have hstream := h.stream
    obtain hsame | ⟨u, -, hmore⟩ := hprod.committed
    · rw [hrest, hsame]
      exact hstream
    · rw [hrest, hmore, List.drop_append_of_le_length h.fifo.length_le, List.flatten_append,
        List.drop_append_of_le_length h.consumed_le, List.flatten_append, ← List.append_assoc,
        ← hstream]
      rfl

/-! ### Runs -/

/-- The source is in step with the ring, and the last read was as it should be. -/
structure Good (p : Player) : Prop where
  synced : p.Synced
  filled : ∀ r ∈ p.lastRead, r.Filled
  padded : ∀ r ∈ p.lastRead, ∀ w ∈ r.stores, w.key = .padding → p.session.ring.isEmpty

theorem Good.sound (h : p.Good) : p.Sound where
  fifo := h.synced.fifo
  delivered := ⟨p.rest, h.synced.stream⟩
  filled := h.filled
  padded := h.padded

theorem good_step {a : Action} (h : p.Good) (hclean : Clean p a) : (p.step a).Good := by
  cases a with
  | produce e =>
      exact ⟨h.synced.produce hclean, fun _ hr => (nomatch hr), fun _ hr => (nomatch hr)⟩
  | read buf frames =>
      obtain ⟨hsynced, r, hlog, hfilled, hpadded⟩ := h.synced.read buf frames
      refine ⟨hsynced, fun r' hr' => ?_, fun r' hr' => ?_⟩
      · obtain rfl := Option.some.inj (hlog.symm.trans hr')
        exact hfilled.mpr hclean
      · obtain rfl := Option.some.inj (hlog.symm.trans hr')
        exact hpadded

theorem clean_of_sound_step {a : Action} (h : p.Good) (hsound : (p.step a).Sound) :
    Clean p a := by
  cases a with
  | produce e => exact (h.synced.fifo.step_iff h.synced.counted e.event).mp hsound.fifo
  | read buf frames =>
      obtain ⟨-, r, hlog, hfilled, -⟩ := h.synced.read buf frames
      exact hfilled.mp (hsound.filled r hlog)

theorem good_start {unitCount unitFrames : ℕ} (hpos : 1 ≤ unitCount)
    (hlt : unitCount < 2 ^ 32) (hsize : unitCount * (4 * unitFrames) < 2 ^ 32)
    (lastL lastR : UInt8 × UInt8) : (start unitCount unitFrames lastL lastR).Good where
  synced := by
    refine ⟨Session.counted_start hpos hlt hsize, Session.fifo_start hpos hlt hsize,
      fun _ hu => (nomatch hu), fun _ => ⟨rfl, rfl⟩, fun _ ha => (nomatch ha),
      ⟨Nat.dvd_zero 4, Nat.dvd_mul_right 4 unitFrames⟩, rfl⟩
  filled := fun _ hr => nomatch hr
  padded := fun _ hr => nomatch hr

/-- Every read of a run fills its buffer and pads it on an empty ring only, and the reads
together deliver the committed units' bytes in order, exactly if the producer is timely
and no read that looks at the ring finds one frame too few. -/
theorem reads_sound_iff {unitCount unitFrames : ℕ} (hpos : 1 ≤ unitCount)
    (hlt : unitCount < 2 ^ 32) (hsize : unitCount * (4 * unitFrames) < 2 ^ 32)
    (lastL lastR : UInt8 × UInt8) (es : List Action) :
    (∀ fs, fs <+: es → (Run.run step (start unitCount unitFrames lastL lastR) fs).Sound) ↔
      Run.Meets step Clean (start unitCount unitFrames lastL lastR) es :=
  @Run.forall_prefix_iff_meets_of_invariant Player Action step Clean Good Sound
    (fun _ h => h.sound) (fun _ _ hclean h => good_step h hclean)
    (fun _ _ h => clean_of_sound_step h) _ (good_start hpos hlt hsize lastL lastR) es

/-- A unit of one frame is produced, and `frames` frames are read. -/
def oneUnit (frames : ℕ) : List Action :=
  [.produce (.getBuf false), .produce (.write 0 7), .produce .putData, .read (fun _ => 0) frames]

theorem reads_sound_iff_oneUnit :
    Run.Meets step Clean (start 2 1 (0, 0) (0, 0)) (oneUnit 1) ∧
      ∀ fs, fs <+: oneUnit 1 → (Run.run step (start 2 1 (0, 0) (0, 0)) fs).Sound := by
  have hmeets : Run.Meets step Clean (start 2 1 (0, 0) (0, 0)) (oneUnit 1) := by
    refine ⟨fun _ _ hfolded => ?_, trivial, trivial, fun _ => by decide +kernel, trivial⟩
    exact absurd hfolded.1 (by decide)
  exact ⟨hmeets, (reads_sound_iff (by decide) (by decide) (by decide) (0, 0) (0, 0)
    (oneUnit 1)).mpr hmeets⟩

/-- Of two frames that are read from a unit of one, the second is not written. -/
theorem frame_not_written :
    ¬ (Run.run step (start 2 1 (0, 0) (0, 0)) (oneUnit 2)).Sound := by
  intro h
  have hlast : (Run.run step (start 2 1 (0, 0) (0, 0)) (oneUnit 2)).lastRead =
      some ⟨8, Store.block .ring 0 [7, 0, 0, 0]⟩ := by
    decide +kernel
  obtain ⟨w, hw, haddr⟩ := h.filled _ hlast 4 (by decide)
  revert haddr
  revert w
  decide

end Player

end Fm

end Tarako
