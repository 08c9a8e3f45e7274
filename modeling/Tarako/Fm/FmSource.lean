import Mathlib.Data.Fintype.Card
import Mathlib.Data.UInt
import Tarako.Lib.Run

/-!
# The life of FM sources

The objects of `FMHalSource` share one PCM, one thread that reads it, and a count. The
constructor and the destructor, `start` and `stop` each hold the lock from beginning to
end. `lifecycle_run_iff` says in which runs count, PCM and thread agree with the objects.
-/

namespace Tarako.Fm

open Function

/-! ### Objects -/

inductive SourceState where
  | IDLE
  | START
  | STOP
  deriving DecidableEq

/-- `FMHalSource`. The track is `none` when the constructor has returned before it made
one. -/
structure Source where
  mTrack : Option ℕ
  state : SourceState
  deriving DecidableEq

structure HalThread where
  pcmHandle : Option ℕ
  mTrack : List ℕ
  deriving DecidableEq

/-- The objects that live at the addresses `A`, and the static members. Tracks and PCMs
have numbers, new ones from `next` on. -/
structure FmHal (A : Type) where
  sources : A → Option Source
  openCount : UInt32
  pcmHandle : Option ℕ
  fmThread : Option HalThread
  /-- Threads that run on although `FMThread` does not refer to them any more. -/
  abandoned : List HalThread
  /-- The PCMs that have been closed. -/
  closed : List ℕ
  next : ℕ

/-! ### Operations -/

def HalThread.start (t : HalThread) (track : Option ℕ) : Option HalThread :=
  track.map fun k => if k ∈ t.mTrack then t else { t with mTrack := t.mTrack ++ [k] }

def HalThread.stop (t : HalThread) (track : Option ℕ) : Option HalThread :=
  track.bind fun k => if k ∈ t.mTrack then some { t with mTrack := t.mTrack.erase k } else none

namespace FmHal

variable {A : Type}

/-- The first part of the constructor, up to the PCM; `none` when there is no card. -/
def openPcm (s : FmHal A) (card ready : Bool) : Option (FmHal A) :=
  if s.pcmHandle.isSome then some s
  else if !card then none
  else if ready then some { s with pcmHandle := some s.next, next := s.next + 1 }
  else some { s with closed := s.next :: s.closed, next := s.next + 1 }

variable [DecidableEq A]

/-- `FMHalSource::FMHalSource` at address `a`. `card` and `ready` are the outcomes of the
lookup of the sound card and of `pcm_open`; `nullFaults` says that `pcm_frames_to_bytes`
does not return for a PCM that is `NULL`, and `none` that the process is gone. -/
def construct (nullFaults : Bool) (s : FmHal A) (a : A) (card ready : Bool) :
    Option (FmHal A) :=
  match s.openPcm card ready with
  | none => some { s with sources := update s.sources a (some ⟨none, .IDLE⟩) }
  | some s =>
      if nullFaults && s.pcmHandle.isNone then none
      else
        some { s with
          sources := update s.sources a (some ⟨some s.next, .IDLE⟩)
          next := s.next + 1
          fmThread := some (s.fmThread.getD ⟨s.pcmHandle, []⟩)
          openCount := s.openCount + 1 }

def start (s : FmHal A) (a : A) (x : Source) : FmHal A :=
  match s.fmThread.bind (·.start x.mTrack) with
  | some t =>
      { s with
        fmThread := some t
        sources := update s.sources a (some { x with state := .START }) }
  | none => s

def stop (s : FmHal A) (a : A) (x : Source) : FmHal A :=
  match s.fmThread.bind (·.stop x.mTrack) with
  | some t =>
      { s with
        fmThread := some t
        sources := update s.sources a (some { x with state := .STOP }) }
  | none => s

/-- The destructor's work for the last object. `FMHalThread::exit` ends the thread if it
has no track; the thread holds a reference to itself and runs on otherwise. -/
def closeLast (s : FmHal A) (x : Source) : Option (FmHal A) :=
  s.fmThread.map fun t =>
    let t := if x.state = .START then (t.stop x.mTrack).getD t else t
    { s with
      fmThread := none
      abandoned := if t.mTrack = [] then s.abandoned else t :: s.abandoned
      pcmHandle := none
      closed := s.pcmHandle.toList ++ s.closed }

/-- `FMHalSource::~FMHalSource`; without a thread the call of `exit` takes the process
down. -/
def destroy (s : FmHal A) (a : A) (x : Source) : Option (FmHal A) :=
  let s := { s with openCount := s.openCount - 1, sources := update s.sources a none }
  if s.openCount = 0 then s.closeLast x else some s

end FmHal

/-! ### Runs -/

namespace FmHal

inductive Event (A : Type) where
  | construct (a : A) (card ready : Bool)
  | start (a : A)
  | stop (a : A)
  | destroy (a : A)

variable {A : Type} [DecidableEq A]

def call (nullFaults : Bool) (s : FmHal A) : Event A → Option (FmHal A)
  | .construct a card ready =>
      match s.sources a with
      | none => s.construct nullFaults a card ready
      | some _ => some s
  | .start a =>
      match s.sources a with
      | none => some s
      | some x => some (s.start a x)
  | .stop a =>
      match s.sources a with
      | none => some s
      | some x => some (s.stop a x)
  | .destroy a =>
      match s.sources a with
      | none => some s
      | some x => s.destroy a x

def step (nullFaults : Bool) (s : Option (FmHal A)) (e : Event A) : Option (FmHal A) :=
  s.bind fun s => s.call nullFaults e

omit [DecidableEq A] in
def init : FmHal A where
  sources := fun _ => none
  openCount := 0
  pcmHandle := none
  fmThread := none
  abandoned := []
  closed := []
  next := 0

/-! ### What holds together -/

/-- `k` is the track of the source at `a`, which has been constructed to the end. -/
def Has (src : A → Option Source) (a : A) (k : ℕ) : Prop :=
  ∃ x, src a = some x ∧ x.mTrack = some k

/-- `k` is the track of a live source at `a` in state `START`. -/
def PlaysAt (src : A → Option Source) (a : A) (k : ℕ) : Prop :=
  ∃ x, src a = some x ∧ x.state = .START ∧ x.mTrack = some k

def Plays (src : A → Option Source) (k : ℕ) : Prop := ∃ a, PlaysAt src a k

def completed [Fintype A] (src : A → Option Source) : Finset A :=
  Finset.univ.filter fun a => ((src a).bind Source.mTrack).isSome

def liveThreads (s : FmHal A) : List HalThread := s.fmThread.toList ++ s.abandoned

/-- Count, PCM, thread and objects agree. -/
structure Sound [Fintype A] (s : FmHal A) : Prop where
  count : s.openCount.toNat = (completed s.sources).card
  handle : ∀ t ∈ s.liveThreads, s.pcmHandle ≠ none
  tracks : ∀ t ∈ s.liveThreads, t.mTrack.Nodup ∧ ∀ k, k ∈ t.mTrack ↔ Plays s.sources k
  readable : ∀ t ∈ s.liveThreads, ∀ h, t.pcmHandle = some h → h ∉ s.closed

/-- A process that is gone keeps no promise. -/
def Holds [Fintype A] : Option (FmHal A) → Prop
  | some s => s.Sound
  | none => False

/-- The condition on a step: a constructor that looks for the PCM finds it ready or finds
no card, and only sources that are constructed to the end are destroyed, and not in state
`START` unless they are the last. -/
def Regular (s : Option (FmHal A)) (e : Event A) : Prop :=
  ∃ s', s = some s' ∧
    match e with
    | .construct a card ready =>
        s'.sources a = none → s'.pcmHandle = none → card = true → ready = true
    | .destroy a => ∀ x, s'.sources a = some x →
        x.mTrack ≠ none ∧ (x.state = .START → s'.openCount = 1)
    | _ => True

structure Tied (s : FmHal A) (t : HalThread) : Prop where
  handle : s.pcmHandle ≠ none ∧ t.pcmHandle = s.pcmHandle
  nodup : t.mTrack.Nodup
  mem_iff : ∀ k, k ∈ t.mTrack ↔ Plays s.sources k

/-- Every track belongs to one source, and its number is below `next`. -/
structure Table (src : A → Option Source) (next : ℕ) : Prop where
  owner : ∀ a b k, Has src a k → Has src b k → a = b
  track_lt : ∀ a k, Has src a k → k < next

/-- What the steps that meet the condition keep of the objects and their numbers. -/
structure Kept [Fintype A] (s : FmHal A) : Prop where
  count : s.openCount.toNat = (completed s.sources).card
  table : Table s.sources s.next
  abandoned : s.abandoned = []
  handle_lt : ∀ h, s.pcmHandle = some h → h < s.next ∧ h ∉ s.closed
  closed_lt : ∀ h ∈ s.closed, h < s.next

/-- The invariant: there is a thread exactly as long as there is a source for it. -/
structure Settled [Fintype A] (s : FmHal A) : Prop extends Kept s where
  thread : s.fmThread = none ∧ s.pcmHandle = none ∧ completed s.sources = ∅ ∨
    ∃ t, s.fmThread = some t ∧ s.Tied t

omit [DecidableEq A] in
theorem Settled.tied [Fintype A] {s : FmHal A} (h : s.Settled) {t : HalThread}
    (ht : s.fmThread = some t) : s.Tied t := by
  rcases h.thread with ⟨hnone, -, -⟩ | ⟨t', ht', htied⟩
  · rw [hnone] at ht
    cases ht
  · rw [ht'] at ht
    cases ht
    exact htied

omit [DecidableEq A] in
theorem Settled.sound [Fintype A] {s : FmHal A} (h : s.Settled) : s.Sound := by
  have hlive : ∀ t ∈ s.liveThreads, s.Tied t := by
    intro t ht
    rw [liveThreads, h.abandoned, List.append_nil, Option.mem_toList] at ht
    exact h.tied ht
  exact ⟨h.count, fun t ht => (hlive t ht).handle.1,
    fun t ht => ⟨(hlive t ht).nodup, (hlive t ht).mem_iff⟩,
    fun t ht k hk => (h.handle_lt k ((hlive t ht).handle.2.symm.trans hk)).2⟩

/-! ### Sources after a step -/

section

variable {src : A → Option Source} {a : A} {k : ℕ}

theorem plays_update {y : Option Source} :
    Plays (update src a y) k ↔
      (∃ x, y = some x ∧ x.state = .START ∧ x.mTrack = some k) ∨
        ∃ b, b ≠ a ∧ PlaysAt src b k := by
  constructor
  · rintro ⟨b, x, hx, hk⟩
    by_cases hb : b = a
    · subst hb
      rw [update_self] at hx
      exact .inl ⟨x, hx, hk⟩
    · rw [update_of_ne hb] at hx
      exact .inr ⟨b, hb, x, hx, hk⟩
  · rintro (⟨x, hx, hk⟩ | ⟨b, hb, x, hx, hk⟩)
    · exact ⟨a, x, by rw [update_self, hx], hk⟩
    · exact ⟨b, x, by rw [update_of_ne hb, hx], hk⟩

theorem plays_iff (a : A) : Plays src k ↔ PlaysAt src a k ∨ ∃ b, b ≠ a ∧ PlaysAt src b k := by
  constructor
  · rintro ⟨b, hb⟩
    by_cases hba : b = a
    · exact .inl (hba ▸ hb)
    · exact .inr ⟨b, hba, hb⟩
  · rintro (h | ⟨b, -, hb⟩)
    · exact ⟨a, h⟩
    · exact ⟨b, hb⟩

theorem Table.update {n n' : ℕ} (h : Table src n) (hn : n ≤ n') {y : Option Source}
    (hy : ∀ x, y = some x → ∀ k, x.mTrack = some k → k < n' ∧ (n ≤ k ∨ Has src a k)) :
    Table (update src a y) n' := by
  have hself {k : ℕ} (hk : Has (Function.update src a y) a k) :
      k < n' ∧ (n ≤ k ∨ Has src a k) := by
    obtain ⟨x, hx, hk⟩ := hk
    rw [update_self] at hx
    exact hy x hx k hk
  have hother {b : A} {k : ℕ} (hb : b ≠ a) (hk : Has (Function.update src a y) b k) :
      Has src b k := by
    obtain ⟨x, hx, hk⟩ := hk
    exact ⟨x, by rwa [update_of_ne hb] at hx, hk⟩
  -- a track of another source is neither new nor the one that `a` had
  have hdistinct {b : A} {k : ℕ} (hb : b ≠ a) (hka : Has (Function.update src a y) a k)
      (hkb : Has (Function.update src a y) b k) : False := by
    have hsrc := hother hb hkb
    rcases (hself hka).2 with hnew | hold
    · exact absurd (h.track_lt b k hsrc) (Nat.not_lt.mpr hnew)
    · exact hb (h.owner b a k hsrc hold)
  refine ⟨fun b c k hb hc => ?_, fun b k hb => ?_⟩
  · by_cases hba : b = a
    · subst hba
      by_contra hbc
      exact hdistinct (Ne.symm hbc) hb hc
    · by_cases hca : c = a
      · subst hca
        exact (hdistinct hba hc hb).elim
      · exact h.owner b c k (hother hba hb) (hother hca hc)
  · by_cases hba : b = a
    · subst hba
      exact (hself hb).1
    · exact lt_of_lt_of_le (h.track_lt b k (hother hba hb)) hn

variable [Fintype A]

omit [DecidableEq A] in
theorem mem_completed : a ∈ completed src ↔ ∃ k, Has src a k := by
  simp only [completed, Finset.mem_filter, Finset.mem_univ, true_and, Option.isSome_iff_exists,
    Option.bind_eq_some_iff, Has]

theorem completed_update_of_track {x : Source} (hx : x.mTrack = some k) :
    completed (update src a (some x)) = insert a (completed src) := by
  ext b
  rw [Finset.mem_insert, mem_completed, mem_completed]
  by_cases hb : b = a
  · subst hb
    simp [Has, hx]
  · simp [Has, hb]

theorem completed_update_of_none {y : Option Source} (hy : y.bind Source.mTrack = none) :
    completed (update src a y) = (completed src).erase a := by
  ext b
  rw [Finset.mem_erase, mem_completed, mem_completed]
  by_cases hb : b = a
  · subst hb
    have hnone : ∀ x, y = some x → x.mTrack = none := by
      rintro x rfl
      exact hy
    simp only [Has, update_self, ne_eq, not_true, false_and, iff_false]
    rintro ⟨k, x, hx, hk⟩
    rw [hnone x hx] at hk
    cases hk
  · simp [Has, hb]

theorem completed_update_state {x : Source} (hx : src a = some x) (st : SourceState) :
    completed (update src a (some { x with state := st })) = completed src := by
  ext b
  rw [mem_completed, mem_completed]
  by_cases hb : b = a
  · subst hb
    simp [Has, hx]
  · simp [Has, hb]

end

/-! ### The constructor -/

theorem toNat_add_one {c : UInt32} (h : c.toNat + 1 < 2 ^ 32) : (c + 1).toNat = c.toNat + 1 := by
  rw [UInt32.toNat_add, UInt32.toNat_one, Nat.mod_eq_of_lt h]

variable [Fintype A] {s : FmHal A} {a : A}

omit [DecidableEq A] in
theorem not_mem_completed (h : s.sources a = none) : a ∉ completed s.sources := by
  rw [mem_completed]
  rintro ⟨k, x, hx, -⟩
  rw [h] at hx
  cases hx

/-- An object that gets no further than the lookup of the card changes nothing else. -/
theorem Settled.early (h : s.Settled) (ha : s.sources a = none) :
    Settled { s with sources := update s.sources a (some ⟨none, .IDLE⟩) } := by
  have hcompleted : completed (update s.sources a (some ⟨none, .IDLE⟩)) = completed s.sources := by
    rw [completed_update_of_none rfl, Finset.erase_eq_of_notMem (not_mem_completed ha)]
  have htable : Table (update s.sources a (some ⟨none, .IDLE⟩)) s.next := by
    refine h.table.update le_rfl ?_
    rintro x ⟨⟩ k hk
    cases hk
  have hplays (k : ℕ) : Plays (update s.sources a (some ⟨none, .IDLE⟩)) k ↔ Plays s.sources k := by
    rw [plays_update, plays_iff a]
    simp [PlaysAt, ha]
  refine ⟨⟨?_, htable, h.abandoned, h.handle_lt, h.closed_lt⟩, ?_⟩
  · rw [hcompleted, h.count]
  · rcases h.thread with ⟨hnone, hpcm, hempty⟩ | ⟨t, ht, htied⟩
    · exact .inl ⟨hnone, hpcm, hcompleted.trans hempty⟩
    · exact .inr ⟨t, ht, htied.handle, htied.nodup,
        fun k => (htied.mem_iff k).trans (hplays k).symm⟩

/-- The end of the constructor, when the thread is the right one for the PCM. -/
theorem Kept.add (h : s.Kept) (hcard : Fintype.card A < 2 ^ 32) (ha : s.sources a = none)
    (hthread : s.Tied (s.fmThread.getD ⟨s.pcmHandle, []⟩)) :
    Settled { s with
      sources := update s.sources a (some ⟨some s.next, .IDLE⟩)
      next := s.next + 1
      fmThread := some (s.fmThread.getD ⟨s.pcmHandle, []⟩)
      openCount := s.openCount + 1 } := by
  have hcompleted : (completed (update s.sources a (some ⟨some s.next, .IDLE⟩))).card
      = (completed s.sources).card + 1 := by
    rw [completed_update_of_track (k := s.next) rfl,
      Finset.card_insert_of_notMem (not_mem_completed ha)]
  have hlt : (completed s.sources).card + 1 < 2 ^ 32 := by
    rw [← hcompleted]
    exact lt_of_le_of_lt (Finset.card_le_univ _) hcard
  have htable : Table (update s.sources a (some ⟨some s.next, .IDLE⟩)) (s.next + 1) := by
    refine h.table.update (Nat.le_succ _) ?_
    rintro x ⟨⟩ k ⟨⟩
    exact ⟨Nat.lt_succ_self _, .inl le_rfl⟩
  have hplays (k : ℕ) : Plays (update s.sources a (some ⟨some s.next, .IDLE⟩)) k
      ↔ Plays s.sources k := by
    rw [plays_update, plays_iff a]
    simp [PlaysAt, ha]
  refine ⟨⟨?_, htable, h.abandoned, ?_, ?_⟩, .inr ⟨_, rfl, hthread.handle, hthread.nodup,
    fun k => (hthread.mem_iff k).trans (hplays k).symm⟩⟩
  · rw [hcompleted, ← h.count]
    rw [← h.count] at hlt
    exact toNat_add_one hlt
  · intro k hk
    exact ⟨Nat.lt_succ_of_lt (h.handle_lt k hk).1, (h.handle_lt k hk).2⟩
  · exact fun k hk => Nat.lt_succ_of_lt (h.closed_lt k hk)

omit [DecidableEq A] in
/-- Nothing plays before a source has been constructed to the end. -/
theorem not_plays_of_completed_eq_empty
    (hempty : completed s.sources = ∅) (k : ℕ) : ¬ Plays s.sources k := by
  rintro ⟨b, x, hx, -, hk⟩
  have hmem : b ∈ completed s.sources := mem_completed.mpr ⟨k, x, hx, hk⟩
  rw [hempty] at hmem
  exact Finset.notMem_empty b hmem

/-- A constructor that finds the PCM ready, if it looks for it, keeps the invariant. -/
theorem Settled.construct (h : s.Settled) (hcard : Fintype.card A < 2 ^ 32)
    (ha : s.sources a = none) (nullFaults : Bool) {card ready : Bool}
    (hready : s.pcmHandle = none → card = true → ready = true) :
    ∃ s', s.construct nullFaults a card ready = some s' ∧ s'.Settled := by
  rcases h.thread with ⟨hnone, hpcm, hempty⟩ | ⟨t, ht, htied⟩
  · cases card with
    | false =>
      have hopen : s.openPcm false ready = none := by simp [openPcm, hpcm]
      exact ⟨_, by rw [FmHal.construct, hopen], h.early ha⟩
    | true =>
      have hopen : s.openPcm true ready
          = some { s with pcmHandle := some s.next, next := s.next + 1 } := by
        simp [openPcm, hpcm, hready hpcm rfl]
      have hkept : Kept { s with pcmHandle := some s.next, next := s.next + 1 } := by
        refine ⟨h.count, ⟨h.table.owner,
          fun b k hb => Nat.lt_succ_of_lt (h.table.track_lt b k hb)⟩, h.abandoned, ?_,
          fun k hk => Nat.lt_succ_of_lt (h.closed_lt k hk)⟩
        rintro k ⟨⟩
        exact ⟨Nat.lt_succ_self _, fun hk => absurd (h.closed_lt _ hk) (Nat.lt_irrefl _)⟩
      refine ⟨_, by rw [FmHal.construct, hopen]; simp, hkept.add hcard ha ?_⟩
      rw [hnone]
      exact ⟨⟨by simp, rfl⟩, List.nodup_nil, fun k => ⟨fun hk => absurd hk List.not_mem_nil,
        fun hk => absurd hk (not_plays_of_completed_eq_empty hempty k)⟩⟩
  · obtain ⟨k, hk⟩ := Option.ne_none_iff_exists'.mp htied.handle.1
    have hopen : s.openPcm card ready = some s := by simp [openPcm, hk]
    refine ⟨_, by rw [FmHal.construct, hopen]; simp [hk], h.toKept.add hcard ha ?_⟩
    rw [ht]
    exact htied

/-! ### Start and stop -/

variable {x : Source}

omit [Fintype A] [DecidableEq A] in
theorem exists_ne_playsAt_iff {n : ℕ} (h : Table s.sources n) (hx : s.sources a = some x) {k : ℕ}
    (hk : x.mTrack = some k) (i : ℕ) :
    (∃ b, b ≠ a ∧ PlaysAt s.sources b i) ↔ Plays s.sources i ∧ i ≠ k := by
  constructor
  · rintro ⟨b, hb, y, hy, hstart, hi⟩
    refine ⟨⟨b, y, hy, hstart, hi⟩, ?_⟩
    rintro rfl
    exact hb (h.owner b a i ⟨y, hy, hi⟩ ⟨x, hx, hk⟩)
  · rintro ⟨⟨b, y, hy, hstart, hi⟩, hne⟩
    refine ⟨b, ?_, y, hy, hstart, hi⟩
    rintro rfl
    rw [hx] at hy
    cases hy
    exact hne (Option.some.inj (hi.symm.trans hk))

/-- A source with a new state, and a thread whose list has been changed with it. -/
theorem Settled.move (h : s.Settled) (hx : s.sources a = some x) {t u : HalThread}
    (ht : s.fmThread = some t) (hpcm : u.pcmHandle = t.pcmHandle) (hnodup : u.mTrack.Nodup)
    (st : SourceState)
    (hmem : ∀ i, i ∈ u.mTrack ↔ Plays (update s.sources a (some { x with state := st })) i) :
    Settled { s with
      fmThread := some u
      sources := update s.sources a (some { x with state := st }) } := by
  have htied := h.tied ht
  have htable : Table (update s.sources a (some { x with state := st })) s.next := by
    refine h.table.update le_rfl ?_
    rintro y ⟨⟩ k hk
    exact ⟨h.table.track_lt a k ⟨x, hx, hk⟩, .inr ⟨x, hx, hk⟩⟩
  refine ⟨⟨?_, htable, h.abandoned, h.handle_lt, h.closed_lt⟩,
    .inr ⟨u, rfl, ⟨htied.handle.1, hpcm.trans htied.handle.2⟩, hnodup, hmem⟩⟩
  rw [completed_update_state hx]
  exact h.count

theorem Settled.start (h : s.Settled) (hx : s.sources a = some x) : (s.start a x).Settled := by
  rw [FmHal.start]
  split
  · rename_i t' hstart
    obtain ⟨t, ht, hstart⟩ := Option.bind_eq_some_iff.mp hstart
    obtain ⟨k, hk, rfl⟩ := Option.map_eq_some_iff.mp hstart
    have htied := h.tied ht
    have hplays (i : ℕ) : Plays (update s.sources a (some { x with state := .START })) i
        ↔ i = k ∨ Plays s.sources i := by
      rw [plays_update, exists_ne_playsAt_iff h.table hx hk]
      have hself : (∃ y, some { x with state := SourceState.START } = some y ∧ y.state = .START ∧
          y.mTrack = some i) ↔ i = k := by
        simp [hk, eq_comm]
      rw [hself]
      tauto
    refine h.move hx ht (u := if k ∈ t.mTrack then t else { t with mTrack := t.mTrack ++ [k] })
      ?_ ?_ .START fun i => ?_
    · split <;> rfl
    · split
      · exact htied.nodup
      · exact List.nodup_append.mpr ⟨htied.nodup, List.nodup_singleton k, by
          rintro i hi j hj rfl
          rw [List.mem_singleton] at hj
          exact absurd (hj ▸ hi) ‹k ∉ t.mTrack›⟩
    · rw [hplays, ← htied.mem_iff]
      split
      · exact ⟨.inr, fun hi => hi.elim (fun hi => hi ▸ ‹k ∈ t.mTrack›) id⟩
      · simp [or_comm]
  · exact h

theorem Settled.stop (h : s.Settled) (hx : s.sources a = some x) : (s.stop a x).Settled := by
  rw [FmHal.stop]
  split
  · rename_i t' hstop
    obtain ⟨t, ht, hstop⟩ := Option.bind_eq_some_iff.mp hstop
    obtain ⟨k, hk, hstop⟩ := Option.bind_eq_some_iff.mp hstop
    obtain ⟨hmem, rfl⟩ : k ∈ t.mTrack ∧ { t with mTrack := t.mTrack.erase k } = t' := by
      by_cases hmem : k ∈ t.mTrack
      · rw [if_pos hmem] at hstop
        exact ⟨hmem, Option.some.inj hstop⟩
      · rw [if_neg hmem] at hstop
        cases hstop
    have htied := h.tied ht
    refine h.move hx ht (u := { t with mTrack := t.mTrack.erase k }) rfl (htied.nodup.erase k)
      .STOP fun i => ?_
    rw [plays_update, exists_ne_playsAt_iff h.table hx hk, htied.nodup.mem_erase_iff,
      htied.mem_iff, and_comm]
    simp
  · exact h

/-! ### The destructor -/

theorem sub_one_eq_zero_iff {c : UInt32} : c - 1 = 0 ↔ c = 1 := sub_eq_zero

theorem toNat_sub_one {c : UInt32} (h : 0 < c.toNat) : (c - 1).toNat = c.toNat - 1 := by
  rw [UInt32.toNat_sub_of_le, UInt32.toNat_one]
  rw [UInt32.le_iff_toNat_le, UInt32.toNat_one]
  exact h

omit [Fintype A] [DecidableEq A] in
/-- The last source gives back its track, and with it the thread has none. -/
theorem Tied.getD_stop_eq_nil {t : HalThread} (h : s.Tied t) (hx : s.sources a = some x)
    (hlast : ∀ b k, Has s.sources b k → b = a) :
    (if x.state = .START then (t.stop x.mTrack).getD t else t).mTrack = [] := by
  have hplays (i : ℕ) (hi : i ∈ t.mTrack) : x.state = .START ∧ x.mTrack = some i := by
    obtain ⟨b, y, hy, hstart, hk⟩ := (h.mem_iff i).mp hi
    obtain rfl := hlast b i ⟨y, hy, hk⟩
    rw [hx] at hy
    cases hy
    exact ⟨hstart, hk⟩
  split
  · cases hk : x.mTrack with
    | none =>
      refine List.eq_nil_iff_forall_not_mem.mpr fun i hi => ?_
      have hi := (hplays i hi).2
      rw [hk] at hi
      cases hi
    | some k =>
      have hmem : k ∈ t.mTrack := (h.mem_iff k).mpr ⟨a, x, hx, ‹_›, hk⟩
      rw [HalThread.stop, Option.bind_some, if_pos hmem, Option.getD_some]
      refine List.eq_nil_iff_forall_not_mem.mpr fun i hi => ?_
      rw [h.nodup.mem_erase_iff] at hi
      have hi' := (hplays i hi.2).2
      rw [hk] at hi'
      exact hi.1 (Option.some.inj hi').symm
  · refine List.eq_nil_iff_forall_not_mem.mpr fun i hi => ?_
    exact absurd (hplays i hi).1 ‹_›

/-- A source that has been constructed to the end, and that plays only if it is the last,
is destroyed in order. -/
theorem Settled.destroy (h : s.Settled) (hx : s.sources a = some x) (htrack : x.mTrack ≠ none)
    (hlast : x.state = .START → s.openCount = 1) :
    ∃ s', s.destroy a x = some s' ∧ s'.Settled := by
  obtain ⟨k, hk⟩ := Option.ne_none_iff_exists'.mp htrack
  have hmem : a ∈ completed s.sources := mem_completed.mpr ⟨k, x, hx, hk⟩
  have hcompleted : completed (update s.sources a none) = (completed s.sources).erase a :=
    completed_update_of_none rfl
  have htable : Table (update s.sources a none) s.next :=
    h.table.update le_rfl fun y hy => by cases hy
  have hpos : 0 < s.openCount.toNat := h.count ▸ Finset.card_pos.mpr ⟨a, hmem⟩
  have hcount : (s.openCount - 1).toNat = (completed (update s.sources a none)).card := by
    rw [toNat_sub_one hpos, hcompleted, Finset.card_erase_of_mem hmem, h.count]
  obtain ⟨t, ht, htied⟩ : ∃ t, s.fmThread = some t ∧ s.Tied t := by
    rcases h.thread with ⟨-, -, hempty⟩ | hthread
    · rw [hempty] at hmem
      exact absurd hmem (Finset.notMem_empty a)
    · exact hthread
  obtain ⟨p, hp⟩ := Option.ne_none_iff_exists'.mp htied.handle.1
  rw [FmHal.destroy]
  by_cases hzero : s.openCount - 1 = 0
  · -- the last one: the thread ends and the PCM is closed
    have hempty : completed (update s.sources a none) = ∅ := by
      rw [← Finset.card_eq_zero, ← hcount, hzero]
      rfl
    have honly : ∀ b k, Has s.sources b k → b = a := by
      intro b k hb
      by_contra hne
      have hb : b ∈ completed (update s.sources a none) := by
        rw [hcompleted, Finset.mem_erase]
        exact ⟨hne, mem_completed.mpr ⟨k, hb⟩⟩
      rw [hempty] at hb
      exact Finset.notMem_empty b hb
    have hnil := htied.getD_stop_eq_nil hx honly
    refine ⟨_, by rw [if_pos hzero, closeLast]; simp only [ht, Option.map_some]; rfl, ?_⟩
    rw [if_pos hnil]
    refine ⟨⟨hcount, htable, h.abandoned, ?_, ?_⟩, .inl ⟨rfl, rfl, hempty⟩⟩
    · rintro q ⟨⟩
    · intro q hq
      rw [hp, Option.toList_some, List.singleton_append, List.mem_cons] at hq
      rcases hq with rfl | hq
      · exact (h.handle_lt q hp).1
      · exact h.closed_lt q hq
  · -- others live on, and this one does not play
    have hidle : x.state ≠ .START := fun hstart => hzero (sub_one_eq_zero_iff.mpr (hlast hstart))
    have hplays (i : ℕ) : Plays (update s.sources a none) i ↔ Plays s.sources i := by
      rw [plays_update, plays_iff a]
      simp [PlaysAt, hx, hidle]
    refine ⟨_, if_neg hzero, ⟨hcount, htable, h.abandoned, h.handle_lt, h.closed_lt⟩,
      .inr ⟨t, ht, htied.handle, htied.nodup, fun i => (htied.mem_iff i).trans (hplays i).symm⟩⟩

/-! ### Runs that meet the condition -/

def Lives (s : Option (FmHal A)) : Prop := ∃ s', s = some s' ∧ s'.Settled

theorem Lives.step (hcard : Fintype.card A < 2 ^ 32) (nullFaults : Bool)
    {s : Option (FmHal A)} {e : Event A} (hreg : Regular s e) (h : Lives s) :
    Lives (FmHal.step nullFaults s e) := by
  obtain ⟨s, rfl, hs⟩ := h
  obtain ⟨s', heq, hreg⟩ := hreg
  cases heq
  change Lives (s.call nullFaults e)
  cases e with
  | construct a card ready =>
    rw [call]
    cases ha : s.sources a with
    | none => exact hs.construct hcard ha nullFaults (hreg ha)
    | some x => exact ⟨s, rfl, hs⟩
  | start a =>
    rw [call]
    cases ha : s.sources a with
    | none => exact ⟨s, rfl, hs⟩
    | some x => exact ⟨_, rfl, hs.start ha⟩
  | stop a =>
    rw [call]
    cases ha : s.sources a with
    | none => exact ⟨s, rfl, hs⟩
    | some x => exact ⟨_, rfl, hs.stop ha⟩
  | destroy a =>
    rw [call]
    cases ha : s.sources a with
    | none => exact ⟨s, rfl, hs⟩
    | some x => exact hs.destroy ha (hreg x ha).1 (hreg x ha).2

/-! ### Steps that do not -/

/-- A constructor that goes on with a PCM that is not ready leaves a thread without one. -/
theorem not_holds_construct (hpcm : s.pcmHandle = none) (nullFaults : Bool) :
    ¬ Holds (s.construct nullFaults a true false) := by
  have hopen : s.openPcm true false
      = some { s with closed := s.next :: s.closed, next := s.next + 1 } := by
    simp [openPcm, hpcm]
  rw [FmHal.construct, hopen]
  cases nullFaults with
  | true => simp [hpcm, Holds]
  | false =>
    intro h
    exact h.handle (s.fmThread.getD ⟨s.pcmHandle, []⟩) (List.mem_append_left _ (by simp)) hpcm

/-- The destructor counts a source that the constructor has not counted. -/
theorem not_holds_destroy_of_track (h : s.Settled) (hx : s.sources a = some x)
    (htrack : x.mTrack = none) : ¬ Holds (s.destroy a x) := by
  have hcompleted : completed (update s.sources a none) = completed s.sources := by
    rw [completed_update_of_none rfl, Finset.erase_eq_of_notMem]
    rw [mem_completed]
    rintro ⟨k, y, hy, hk⟩
    rw [hx] at hy
    cases hy
    rw [htrack] at hk
    cases hk
  have hwrong : (s.openCount - 1).toNat ≠ (completed (update s.sources a none)).card := by
    rw [hcompleted, ← h.count]
    intro heq
    have hself : s.openCount - 1 = s.openCount := UInt32.toNat_inj.mp heq
    exact absurd (sub_eq_self.mp hself) (by decide)
  intro hholds
  rw [FmHal.destroy] at hholds
  by_cases hzero : s.openCount - 1 = 0
  · rw [if_pos hzero, closeLast] at hholds
    cases ht : s.fmThread with
    | none =>
      rw [ht] at hholds
      exact hholds
    | some t =>
      rw [ht] at hholds
      exact hwrong hholds.count
  · rw [if_neg hzero] at hholds
    exact hwrong hholds.count

/-- A source that is destroyed while it plays, and is not the last, leaves its track in
the list of the thread. -/
theorem not_holds_destroy_of_start (h : s.Settled) (hx : s.sources a = some x) {k : ℕ}
    (hk : x.mTrack = some k) (hstart : x.state = .START) (hmore : s.openCount ≠ 1) :
    ¬ Holds (s.destroy a x) := by
  have hplays : Plays s.sources k := ⟨a, x, hx, hstart, hk⟩
  obtain ⟨t, ht, htied⟩ : ∃ t, s.fmThread = some t ∧ s.Tied t := by
    rcases h.thread with ⟨-, -, hempty⟩ | hthread
    · exact absurd hplays (not_plays_of_completed_eq_empty hempty k)
    · exact hthread
  intro hholds
  rw [FmHal.destroy, if_neg fun hzero => hmore (sub_one_eq_zero_iff.mp hzero)] at hholds
  have hlive : t ∈ liveThreads { s with
      openCount := s.openCount - 1, sources := update s.sources a none } :=
    List.mem_append_left _ (Option.mem_toList.mpr ht)
  have hafter := ((hholds.tracks t hlive).2 k).mp ((htied.mem_iff k).mpr hplays)
  rw [plays_update, exists_ne_playsAt_iff h.table hx hk] at hafter
  rcases hafter with ⟨y, hy, -⟩ | ⟨-, hne⟩
  · cases hy
  · exact hne rfl

theorem regular_of_holds_step (nullFaults : Bool) {s : Option (FmHal A)} {e : Event A}
    (h : Lives s) (hholds : Holds (FmHal.step nullFaults s e)) : Regular s e := by
  obtain ⟨s, rfl, hs⟩ := h
  change Holds (s.call nullFaults e) at hholds
  refine ⟨s, rfl, ?_⟩
  cases e with
  | construct a card ready =>
    intro ha hpcm hcard
    rw [call, ha] at hholds
    subst hcard
    cases ready with
    | true => rfl
    | false => exact absurd hholds (not_holds_construct hpcm nullFaults)
  | start a => trivial
  | stop a => trivial
  | destroy a =>
    intro x hx
    rw [call, hx] at hholds
    have htrack : x.mTrack ≠ none := fun hnone =>
      not_holds_destroy_of_track hs hx hnone hholds
    obtain ⟨k, hk⟩ := Option.ne_none_iff_exists'.mp htrack
    refine ⟨htrack, fun hstart => ?_⟩
    by_contra hmore
    exact not_holds_destroy_of_start hs hx hk hstart hmore hholds

/-! ### The life of the sources -/

omit [DecidableEq A] in
theorem settled_init : (init : FmHal A).Settled := by
  have hempty : completed (fun _ : A => none) = ∅ := by
    refine Finset.eq_empty_of_forall_notMem fun a ha => ?_
    obtain ⟨k, x, hx, -⟩ := mem_completed.mp ha
    cases hx
  refine ⟨⟨by rw [init, hempty]; rfl, ⟨?_, ?_⟩, rfl, ?_, ?_⟩, .inl ⟨rfl, rfl, hempty⟩⟩
  · rintro b c k ⟨x, hx, -⟩
    cases hx
  · rintro b k ⟨x, hx, -⟩
    cases hx
  · rintro p ⟨⟩
  · intro p hp
    exact absurd hp List.not_mem_nil

abbrev Address : Type := {a : Fin (2 ^ 32) // a ≠ 0}

theorem card_address_lt : Fintype.card Address < 2 ^ 32 := by
  have h := Fintype.card_subtype_lt (p := fun a : Fin (2 ^ 32) => a ≠ 0) (x := 0) (by simp)
  rwa [Fintype.card_fin] at h

/-- Count, PCM, thread and sources agree in every state of a run exactly when each of its
steps meets the condition. -/
theorem lifecycle_run_iff (nullFaults : Bool) (es : List (Event Address)) :
    (∀ fs, fs <+: es → Holds (Run.run (step nullFaults) (some init) fs)) ↔
      Run.Meets (step nullFaults) Regular (some init) es :=
  @Run.forall_prefix_iff_meets_of_invariant (Option (FmHal Address)) (Event Address)
    (step nullFaults) Regular Lives Holds
    (fun _ ⟨_, heq, h⟩ => heq ▸ h.sound)
    (fun _ _ hreg h => h.step card_address_lt nullFaults hreg)
    (fun _ _ h hholds => regular_of_holds_step nullFaults h hholds)
    (some init) ⟨init, rfl, settled_init⟩ es

/-- A source that has found no card is destroyed; a source is destroyed while it plays and
another one lives. -/
theorem lifecycle_broken :
    let a : Address := ⟨1, by decide⟩
    let b : Address := ⟨2, by decide⟩
    ¬ Holds (Run.run (step false) (some init) [.construct a false false, .destroy a]) ∧
      ¬ Holds (Run.run (step false) (some init)
        [.construct a true true, .construct b true true, .start a, .destroy a]) := by
  intro a b
  constructor
  · have hearly := settled_init.early (a := a) rfl
    exact not_holds_destroy_of_track (x := ⟨none, .IDLE⟩) hearly (by simp) rfl
  · intro h
    have hrun : Run.run (step false) (some init)
        [.construct a true true, .construct b true true, .start a] = some
        { sources := update (update (update (fun _ => none) a (some ⟨some 1, .IDLE⟩)) b
            (some ⟨some 2, .IDLE⟩)) a (some ⟨some 1, .START⟩)
          openCount := 0 + 1 + 1
          pcmHandle := some 0
          fmThread := some ⟨some 0, [1]⟩
          abandoned := []
          closed := []
          next := 3 } := by
      rfl
    change Holds (step false (Run.run (step false) (some init)
      [.construct a true true, .construct b true true, .start a]) (.destroy a)) at h
    rw [hrun] at h
    change Holds (FmHal.destroy _ a ⟨some 1, .START⟩) at h
    rw [FmHal.destroy, if_neg (by decide)] at h
    obtain ⟨c, x, hx, hstart, -⟩ := ((h.tracks ⟨some 0, [1]⟩
      (List.mem_singleton_self _)).2 1).mp (by decide)
    simp only [update_apply] at hx
    split_ifs at hx
    cases hx
    cases hstart

end FmHal

end Tarako.Fm
