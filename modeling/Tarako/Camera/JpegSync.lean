import Tarako.Camera.JpegCodec

/-!
# Requests that wait for their result

`jpeg_enc_add_eixf` and `jpeg_enc_thumbnail` wait for the worker on one semaphore and
read a static result. The worker discards every message but STOP while `is_stop` is set,
and a request with it; the caller is then never woken. When two requests are under way,
either caller can take the other's token, and a later result replaces an earlier one.
`answered_of_safe` gives the runs in which every request is answered with its own result.
-/

namespace Tarako

namespace JpegCodec

def Msg.isSync : Msg → Bool
  | sync _ _ => true
  | _ => false

/-- The thread waits on `sync_sem`. -/
def Caller.waits : Caller → Bool
  | syncing _ _ => true
  | _ => false

def Caller.reads : Caller → Bool
  | reading _ _ => true
  | _ => false

/-- The worker has a request that it has not posted `sync_sem` for. -/
def Worker.holds : Worker → Bool
  | got m => m.isSync
  | answered => true
  | _ => false

namespace State

/-- No caller is blocked on `sync_sem` with nothing left for the worker to do, and every
result received is the one computed for that request. -/
structure Answered (s : State) : Prop where
  not_blocked : s.worker = .waiting → s.queue = [] → s.syncSem = 0 →
    ∀ (t : ℕ) kind r, s.callers[t]? ≠ some (Caller.syncing kind r)
  own : ∀ p ∈ s.received, p ∈ s.computed

/-- The condition on a step: a request is posted when no other one is under way, and the
worker does not find `is_stop` set when it has taken a request. -/
def SyncSafe (s : State) : Event → Prop
  | .call _ (.sync _) => ∀ c ∈ s.callers, c.waits = false ∧ c.reads = false
  | .worker _ _ => ∀ kind r, s.worker = .got (.sync kind r) → s.isStop = false
  | _ => True

/-- At most one request is under way. While its caller waits there is one token for it:
its message, the worker at it, or `sync_sem`; and from the time its result has been
stored until the caller has read it, the result stays. -/
structure SyncInv (s : State) : Prop where
  single : s.callers.countP Caller.waits + s.callers.countP Caller.reads ≤ 1
  tokens : s.queue.countP Msg.isSync + s.worker.holds.toNat + s.syncSem =
    s.callers.countP Caller.waits
  queued : ∀ (t : ℕ) kind r, s.callers[t]? = some (Caller.syncing kind r) →
    ∀ m ∈ s.queue, m.isSync = true → m = .sync kind r
  taken : ∀ (t : ℕ) kind r, s.callers[t]? = some (Caller.syncing kind r) →
    ∀ m, s.worker = .got m → m.isSync = true → m = .sync kind r
  stored : ∀ (t : ℕ) kind r, s.callers[t]? = some (Caller.syncing kind r) →
    s.worker = .answered ∨ 0 < s.syncSem → (r, answer (s.results kind)) ∈ s.computed
  woken : ∀ (t : ℕ) kind r, s.callers[t]? = some (Caller.reading kind r) →
    (r, answer (s.results kind)) ∈ s.computed
  own : ∀ p ∈ s.received, p ∈ s.computed

theorem syncInv_start (n : ℕ) : SyncInv (start n) := by
  have hidle : ∀ (t : ℕ) (c : Caller), (start n).callers[t]? = some c → c = Caller.idle := by
    intro t c hc
    exact List.eq_of_mem_replicate (List.mem_of_getElem? hc)
  refine ⟨?_, ?_, ?_, ?_, ?_, ?_, nofun⟩
  · simp [start, List.countP_replicate, Caller.waits, Caller.reads]
  · simp [start, List.countP_replicate, Caller.waits, Worker.holds]
  · exact fun t kind r hc => nomatch hidle t _ hc
  · exact fun t kind r hc => nomatch hidle t _ hc
  · exact fun t kind r hc => nomatch hidle t _ hc
  · exact fun t kind r hc => nomatch hidle t _ hc

theorem SyncInv.answered {s : State} (h : SyncInv s) : Answered s := by
  refine ⟨fun hworker hqueue hsem t kind r hc => ?_, h.own⟩
  have hwaits := Tokens.countP_pos Caller.waits hc rfl
  have htokens := h.tokens
  rw [hworker, hqueue, hsem] at htokens
  simp only [List.countP_nil, Worker.holds, Bool.toNat_false] at htokens
  omega

/-! ## Steps that concern no request -/

/-- A thread that does not wait for a result moves on, and not to a request. -/
theorem SyncInv.setCaller {s : State} (h : SyncInv s) {t : ℕ} {x : Caller}
    (hx : s.callers[t]? = some x) (hwaits : x.waits = false) {y : Caller}
    (hy : y.waits = false) (hy' : y.reads = false) : SyncInv (s.setCaller t y) := by
  have hcount := Tokens.countP_set_add Caller.waits hx y
  have hcount' := Tokens.countP_set_add Caller.reads hx y
  rw [hwaits, hy] at hcount
  rw [hy', Bool.toNat_false, Nat.add_zero] at hcount'
  have hold : ∀ (u : ℕ) (c : Caller), (s.setCaller t y).callers[u]? = some c →
      c.waits = true ∨ c.reads = true → s.callers[u]? = some c := by
    intro u c hc hsync
    change (s.callers.set t y)[u]? = some c at hc
    by_cases hu : t = u
    · subst hu
      rw [List.getElem?_set_self (List.getElem?_eq_some_iff.mp hx).1] at hc
      obtain rfl := Option.some.inj hc
      simp [hy, hy'] at hsync
    · rwa [List.getElem?_set_ne hu] at hc
  refine ⟨?_, ?_, ?_, ?_, ?_, ?_, h.own⟩
  · change (s.callers.set t y).countP Caller.waits + (s.callers.set t y).countP Caller.reads ≤ 1
    have hsingle := h.single
    omega
  · change _ = (s.callers.set t y).countP Caller.waits
    have htokens := h.tokens
    change s.queue.countP Msg.isSync + s.worker.holds.toNat + s.syncSem = _
    omega
  · exact fun u kind r hc => h.queued u kind r (hold u _ hc (Or.inl rfl))
  · exact fun u kind r hc => h.taken u kind r (hold u _ hc (Or.inl rfl))
  · exact fun u kind r hc => h.stored u kind r (hold u _ hc (Or.inl rfl))
  · exact fun u kind r hc => h.woken u kind r (hold u _ hc (Or.inr rfl))

theorem SyncInv.post {s s' : State} (h : SyncInv s) {m : Msg} (hm : m.isSync = false)
    (hpost : s.post m = some s') : SyncInv s' := by
  rw [eq_of_post hpost]
  refine ⟨h.single, ?_, ?_, h.taken, h.stored, h.woken, h.own⟩
  · have htokens := h.tokens
    simp only [List.countP_append, List.countP_singleton, hm, Bool.false_eq_true, if_false,
      Nat.add_zero]
    exact htokens
  · intro t kind r hc m' hm' hsync
    obtain hm' | hm' := List.mem_append.mp hm'
    · exact h.queued t kind r hc m' hm' hsync
    · rw [List.mem_singleton.mp hm', hm] at hsync
      cases hsync

/-- What the invariant does not speak of changes, and the worker between two places
without a request. -/
theorem SyncInv.frame {s s' : State} (h : SyncInv s) (hqueue : s'.queue = s.queue)
    (hcallers : s'.callers = s.callers) (hsem : s'.syncSem = s.syncSem)
    (hresults : s'.results = s.results) (hcomputed : s'.computed = s.computed)
    (hreceived : s'.received = s.received)
    (hworker : s'.worker = s.worker ∨ s.worker.holds = false ∧ s'.worker.holds = false) :
    SyncInv s' := by
  have hholds : s'.worker.holds = s.worker.holds := by
    obtain hw | ⟨hw, hw'⟩ := hworker
    · rw [hw]
    · rw [hw, hw']
  refine ⟨?_, ?_, ?_, ?_, ?_, ?_, ?_⟩
  · rw [hcallers]
    exact h.single
  · rw [hqueue, hholds, hsem, hcallers]
    exact h.tokens
  · rw [hcallers, hqueue]
    exact h.queued
  · rw [hcallers]
    intro t kind r hc m hm hsync
    obtain hw | ⟨-, hw⟩ := hworker
    · exact h.taken t kind r hc m (hw ▸ hm) hsync
    · rw [hm, Worker.holds, hsync] at hw
      cases hw
  · rw [hcallers, hsem, hresults, hcomputed]
    intro t kind r hc hstored
    obtain hw | ⟨-, hw⟩ := hworker
    · exact h.stored t kind r hc (hw ▸ hstored)
    · obtain hstored | hstored := hstored
      · rw [hstored] at hw
        cases hw
      · exact h.stored t kind r hc (Or.inr hstored)
  · rw [hcallers, hresults, hcomputed]
    exact h.woken
  · rw [hreceived, hcomputed]
    exact h.own

theorem SyncInv.resumeStart {s : State} (h : SyncInv s) {t n : ℕ}
    (hx : s.callers[t]? = some (Caller.starting n)) : SyncInv (s.resumeStart t n) := by
  rw [State.resumeStart]
  cases hn : s.sessions[n]? with
  | none => exact h
  | some x =>
      simp only
      cases x.stage with
      | posted => exact h.frame rfl rfl rfl rfl rfl rfl (Or.inl rfl)
      | active => exact h.frame rfl rfl rfl rfl rfl rfl (Or.inl rfl)
      | published =>
          have hstage : SyncInv (s.setStage n .returned) :=
            h.frame rfl rfl rfl rfl rfl rfl (Or.inl rfl)
          exact hstage.setCaller hx rfl rfl rfl
      | returned => exact h

/-! ## The steps of a request -/

theorem countP_eq_zero_of_safe {s : State}
    (h : ∀ c ∈ s.callers, c.waits = false ∧ c.reads = false) :
    s.callers.countP Caller.waits = 0 ∧ s.callers.countP Caller.reads = 0 := by
  constructor
  · exact List.countP_eq_zero.mpr fun c hc => by simp [(h c hc).1]
  · exact List.countP_eq_zero.mpr fun c hc => by simp [(h c hc).2]

theorem SyncInv.request {s s' : State} (h : SyncInv s) {t : ℕ}
    (hx : s.callers[t]? = some .idle) {kind : Sync}
    (hsafe : ∀ c ∈ s.callers, c.waits = false ∧ c.reads = false)
    (hpost : s.post (.sync kind s.requests) = some s') :
    SyncInv ({ s' with requests := s'.requests + 1 }.setCaller t (.syncing kind s'.requests)) := by
  obtain ⟨hwaits, hreads⟩ := countP_eq_zero_of_safe hsafe
  have htokens := h.tokens
  rw [hwaits] at htokens
  have hqueue : s.queue.countP Msg.isSync = 0 := by omega
  have hholds : s.worker.holds = false := by
    cases hw : s.worker.holds with
    | false => rfl
    | true =>
        rw [hw, Bool.toNat_true] at htokens
        omega
  have hcount := Tokens.countP_set_add Caller.waits hx (.syncing kind s.requests)
  have hcount' := Tokens.countP_set_add Caller.reads hx (.syncing kind s.requests)
  simp only [Caller.waits, Caller.reads, Bool.toNat_false, Bool.toNat_true] at hcount hcount'
  rw [eq_of_post hpost]
  -- the only thread at a request is now this one
  have honly : ∀ (u : ℕ) (c : Caller),
      (s.callers.set t (.syncing kind s.requests))[u]? = some c →
        c.waits = true ∨ c.reads = true → c = .syncing kind s.requests := by
    intro u c hc hsync
    obtain hmem | heq := List.mem_or_eq_of_mem_set (List.mem_of_getElem? hc)
    · have hnone := hsafe c hmem
      simp [hnone.1, hnone.2] at hsync
    · exact heq
  refine ⟨?_, ?_, ?_, ?_, ?_, ?_, h.own⟩
  · change (s.callers.set t (.syncing kind s.requests)).countP Caller.waits +
      (s.callers.set t (.syncing kind s.requests)).countP Caller.reads ≤ 1
    omega
  · change (s.queue ++ [Msg.sync kind s.requests]).countP Msg.isSync + s.worker.holds.toNat +
      s.syncSem = (s.callers.set t (.syncing kind s.requests)).countP Caller.waits
    rw [List.countP_append, hqueue, hholds]
    simp only [List.countP_singleton, Msg.isSync, if_true, Bool.toNat_false]
    omega
  · intro u kind' r hc m hm hsync
    cases honly u _ hc (Or.inl rfl)
    obtain hm | hm := List.mem_append.mp hm
    · have hpos := List.countP_pos_iff.mpr ⟨m, hm, hsync⟩
      omega
    · exact List.mem_singleton.mp hm
  · intro u kind' r hc m hm hsync
    change s.worker = .got m at hm
    rw [hm, Worker.holds, hsync] at hholds
    cases hholds
  · intro u kind' r hc hstored
    obtain hstored | hstored := hstored
    · change s.worker = .answered at hstored
      rw [hstored] at hholds
      cases hholds
    · change 0 < s.syncSem at hstored
      omega
  · intro u kind' r hc
    cases honly u _ hc (Or.inr rfl)

theorem SyncInv.wake {s : State} (h : SyncInv s) {t : ℕ} {kind : Sync} {r : ℕ}
    (hx : s.callers[t]? = some (Caller.syncing kind r)) (hsem : s.syncSem ≠ 0) :
    SyncInv ({ s with syncSem := s.syncSem - 1 }.setCaller t (.reading kind r)) := by
  have hwaits := Tokens.countP_pos Caller.waits hx rfl
  have hsingle := h.single
  have htokens := h.tokens
  have hcount := Tokens.countP_set_add Caller.waits hx (.reading kind r)
  have hcount' := Tokens.countP_set_add Caller.reads hx (.reading kind r)
  simp only [Caller.waits, Caller.reads, Bool.toNat_false, Bool.toNat_true] at hcount hcount'
  have hnone : (s.callers.set t (.reading kind r)).countP Caller.waits = 0 := by omega
  have hwaiting : ∀ (u : ℕ) kind' r',
      (s.callers.set t (.reading kind r))[u]? ≠ some (Caller.syncing kind' r') := by
    intro u kind' r' hc
    cases Tokens.not_of_countP_eq_zero Caller.waits hnone hc
  refine ⟨?_, ?_, ?_, ?_, ?_, ?_, h.own⟩
  · change (s.callers.set t (.reading kind r)).countP Caller.waits +
      (s.callers.set t (.reading kind r)).countP Caller.reads ≤ 1
    omega
  · change s.queue.countP Msg.isSync + s.worker.holds.toNat + (s.syncSem - 1) =
      (s.callers.set t (.reading kind r)).countP Caller.waits
    omega
  · exact fun u kind' r' hc => absurd hc (hwaiting u kind' r')
  · exact fun u kind' r' hc => absurd hc (hwaiting u kind' r')
  · exact fun u kind' r' hc => absurd hc (hwaiting u kind' r')
  · intro u kind' r' hc
    change (s.callers.set t (.reading kind r))[u]? = some (Caller.reading kind' r') at hc
    by_cases hu : t = u
    · subst hu
      rw [List.getElem?_set_self (List.getElem?_eq_some_iff.mp hx).1] at hc
      cases hc
      exact h.stored t kind r hx (Or.inr (Nat.pos_of_ne_zero hsem))
    · rw [List.getElem?_set_ne hu] at hc
      have hreads := Tokens.countP_pos Caller.reads hc rfl
      omega

theorem SyncInv.read {s : State} (h : SyncInv s) {t : ℕ} {kind : Sync} {r : ℕ}
    (hx : s.callers[t]? = some (Caller.reading kind r)) :
    SyncInv ({ s with received := s.received ++ [(r, answer (s.results kind))] }.setCaller t
      .idle) := by
  have hread : SyncInv { s with received := s.received ++ [(r, answer (s.results kind))] } := by
    refine ⟨h.single, h.tokens, h.queued, h.taken, h.stored, h.woken, fun p hp => ?_⟩
    obtain hp | hp := List.mem_append.mp hp
    · exact h.own p hp
    · rw [List.mem_singleton.mp hp]
      exact h.woken t kind r hx
  exact hread.setCaller hx rfl rfl rfl

theorem SyncInv.take {s : State} (h : SyncInv s) (hworker : s.worker = .waiting) {m : Msg}
    {queue : List Msg} (hqueue : s.queue = m :: queue) :
    SyncInv { s with worker := .got m, queue } := by
  refine ⟨h.single, ?_, ?_, ?_, ?_, h.woken, h.own⟩
  · have htokens := h.tokens
    rw [hqueue, hworker, List.countP_cons] at htokens
    change queue.countP Msg.isSync + m.isSync.toNat + s.syncSem = _
    cases hm : m.isSync with
    | true =>
        rw [hm] at htokens
        simpa [Worker.holds] using htokens
    | false =>
        rw [hm] at htokens
        simpa [Worker.holds] using htokens
  · intro t kind r hc m' hm'
    exact h.queued t kind r hc m' (by rw [hqueue]; exact List.mem_cons_of_mem m hm')
  · intro t kind r hc m' hm'
    cases hm'
    exact h.queued t kind r hc m (by rw [hqueue]; exact List.mem_cons_self)
  · intro t kind r hc hstored
    obtain hstored | hstored := hstored
    · cases hstored
    · exact h.stored t kind r hc (Or.inr hstored)

theorem SyncInv.store {s : State} (h : SyncInv s) {kind : Sync} {r : ℕ}
    (hworker : s.worker = .got (.sync kind r)) (result : Option Result) :
    SyncInv (s.process result (.sync kind r)) := by
  have htokens := h.tokens
  have hsingle := h.single
  rw [hworker] at htokens
  simp only [Worker.holds, Msg.isSync, Bool.toNat_true] at htokens
  refine ⟨h.single, ?_, h.queued, nofun, ?_, ?_, ?_⟩
  · simp only [process, Worker.holds, Bool.toNat_true]
    exact htokens
  · intro t kind' r' hc _
    have hm := h.taken t kind' r' hc _ hworker rfl
    cases hm
    refine List.mem_append_right _ (List.mem_singleton.mpr ?_)
    simp [process]
  · intro t kind' r' hc
    have hreads := Tokens.countP_pos Caller.reads hc rfl
    change 0 < s.callers.countP Caller.reads at hreads
    omega
  · exact fun p hp => List.mem_append_left _ (h.own p hp)

theorem SyncInv.signal {s : State} (h : SyncInv s) (hworker : s.worker = .answered) :
    SyncInv { s with worker := .waiting, syncSem := s.syncSem + 1 } := by
  refine ⟨h.single, ?_, h.queued, nofun, ?_, h.woken, h.own⟩
  · have htokens := h.tokens
    rw [hworker] at htokens
    simp only [Worker.holds, Bool.toNat_true, Bool.toNat_false] at htokens ⊢
    omega
  · exact fun t kind r hc _ => h.stored t kind r hc (Or.inl hworker)

/-! ## Runs -/

theorem SyncInv.call {s : State} (h : SyncInv s) {t : ℕ} (hx : s.callers[t]? = some .idle)
    {c : Call} (hsafe : s.SyncSafe (.call t c)) : SyncInv (s.call t c) := by
  cases c with
  | start kind =>
      simp only [State.call]
      cases hpost : s.post (.start s.sessions.length) with
      | none => exact h
      | some s' =>
          have hcallers : s'.callers[t]? = some .idle := by rwa [eq_of_post hpost]
          have hsessions : SyncInv { s' with
              sessions := s'.sessions ++ [⟨kind, .posted, false⟩] } :=
            (h.post rfl hpost).frame rfl rfl rfl rfl rfl rfl (Or.inl rfl)
          exact hsessions.setCaller hcallers rfl rfl rfl
  | next kind n =>
      simp only [State.call]
      split_ifs
      · exact h
      · exact h.setCaller hx rfl rfl rfl
  | stop n =>
      have hstop : SyncInv { s with isStop := true } :=
        h.frame rfl rfl rfl rfl rfl rfl (Or.inl rfl)
      exact hstop.setCaller hx rfl rfl rfl
  | deinit =>
      simp only [State.call]
      cases hpost : s.post .kill with
      | none => exact h
      | some s' =>
          have hcallers : s'.callers[t]? = some .idle := by rwa [eq_of_post hpost]
          exact (h.post rfl hpost).setCaller hcallers rfl rfl rfl
  | sync kind =>
      simp only [State.call]
      cases hpost : s.post (.sync kind s.requests) with
      | none => exact h
      | some s' => exact h.request hx hsafe hpost

theorem SyncInv.resume {s : State} (h : SyncInv s) {t : ℕ} {x : Caller}
    (hx : s.callers[t]? = some x) : SyncInv (s.resume t x) := by
  cases x with
  | idle => exact h
  | starting n => exact h.resumeStart hx
  | nexting kind n =>
      simp only [State.resume]
      cases hpost : s.post (.next kind n) with
      | none => exact h.setCaller hx rfl rfl rfl
      | some s' =>
          have hcallers : s'.callers[t]? = some (.nexting kind n) := by rwa [eq_of_post hpost]
          exact (h.post rfl hpost).setCaller hcallers rfl rfl rfl
  | stopping n =>
      simp only [State.resume]
      cases hpost : s.post (.stop n) with
      | none => exact h.setCaller hx rfl rfl rfl
      | some s' =>
          have hcallers : s'.callers[t]? = some (.stopping n) := by rwa [eq_of_post hpost]
          have hposted : SyncInv { s' with stopPosted := n :: s'.stopPosted } :=
            (h.post rfl hpost).frame rfl rfl rfl rfl rfl rfl (Or.inl rfl)
          exact hposted.setCaller hcallers rfl rfl rfl
  | waitingStop =>
      simp only [State.resume]
      split_ifs
      · exact h
      · have hsem : SyncInv { s with stopSem := s.stopSem - 1 } :=
          h.frame rfl rfl rfl rfl rfl rfl (Or.inl rfl)
        exact hsem.setCaller hx rfl rfl rfl
  | clearing =>
      have hclear : SyncInv { s with isStop := false } :=
        h.frame rfl rfl rfl rfl rfl rfl (Or.inl rfl)
      exact hclear.setCaller hx rfl rfl rfl
  | joining =>
      simp only [State.resume]
      split_ifs
      · exact h.setCaller hx rfl rfl rfl
      · exact h
  | syncing kind r =>
      simp only [State.resume]
      split_ifs with hsem
      · exact h
      · exact h.wake hx hsem
  | reading kind r => exact h.read hx

theorem SyncInv.process {s : State} (h : SyncInv s) {m : Msg} (hworker : s.worker = .got m)
    (hm : m.isSync = false) (result : Option Result) : SyncInv (s.process result m) := by
  have hholds : s.worker.holds = false := by rw [hworker, Worker.holds, hm]
  cases m with
  | start n =>
      simp only [State.process]
      cases s.sessions[n]? with
      | none => exact h.frame rfl rfl rfl rfl rfl rfl (Or.inr ⟨hholds, rfl⟩)
      | some x =>
          simp only [afterCodec]
          cases x.kind with
          | enc => exact h.frame rfl rfl rfl rfl rfl rfl (Or.inr ⟨hholds, rfl⟩)
          | dec => exact h.frame rfl rfl rfl rfl rfl rfl (Or.inr ⟨hholds, rfl⟩)
  | next kind n =>
      cases kind with
      | enc => exact h.frame rfl rfl rfl rfl rfl rfl (Or.inr ⟨hholds, rfl⟩)
      | dec => exact h.frame rfl rfl rfl rfl rfl rfl (Or.inr ⟨hholds, rfl⟩)
  | stop n => exact h.frame rfl rfl rfl rfl rfl rfl (Or.inr ⟨hholds, rfl⟩)
  | kill =>
      simp only [State.process]
      cases s.activeHandle with
      | none => exact h.frame rfl rfl rfl rfl rfl rfl (Or.inr ⟨hholds, rfl⟩)
      | some n => exact h.frame rfl rfl rfl rfl rfl rfl (Or.inr ⟨hholds, rfl⟩)
  | sync kind r => cases hm

theorem SyncInv.workerStep {s : State} (h : SyncInv s) (result : Option Result) (again : Bool)
    (hsafe : s.SyncSafe (.worker result again)) : SyncInv (s.workerStep result again) := by
  rw [State.workerStep]
  cases hworker : s.worker with
  | waiting =>
      simp only
      cases hqueue : s.queue with
      | nil => exact h
      | cons m queue => exact h.take hworker hqueue
  | got m =>
      simp only
      cases hm : m.isSync with
      | false =>
          have hholds : s.worker.holds = false := by rw [hworker, Worker.holds, hm]
          split_ifs
          · exact h.frame rfl rfl rfl rfl rfl rfl (Or.inr ⟨hholds, rfl⟩)
          · exact h.process hworker hm result
      | true =>
          cases m with
          | sync kind r =>
              rw [hsafe kind r hworker]
              exact h.store hworker result
          | _ => cases hm
  | calling n =>
      have hholds : s.worker.holds = false := by
        rw [hworker]
        rfl
      simp only
      split_ifs
      · exact h.frame rfl rfl rfl rfl rfl rfl (Or.inl hworker.symm)
      · exact h.frame rfl rfl rfl rfl rfl rfl (Or.inr ⟨hholds, rfl⟩)
  | answered => exact h.signal hworker
  | exited => exact h

theorem SyncInv.step {s : State} (h : SyncInv s) (e : Event) (hsafe : s.SyncSafe e) :
    SyncInv (s.step e) := by
  cases e with
  | call t c =>
      rw [State.step]
      split_ifs with hx
      · exact h.call hx hsafe
      · exact h
  | resume t =>
      cases hx : s.callers[t]? with
      | none => simpa [State.step, hx] using h
      | some x =>
          rw [step_resume hx]
          exact h.resume hx
  | worker result again => exact h.workerStep result again hsafe

/-- In a run whose steps are safe every request is answered, with its own result. -/
theorem answered_of_safe (n : ℕ) {es fs : List Event} (hfs : fs <+: es)
    (hes : Run.Meets step SyncSafe (start n) es) : ((start n).run fs).Answered :=
  (Run.invariant_prefix (fun _ e he hs => hs.step e he) hfs hes (syncInv_start n)).answered

theorem answered_single :
    ((start 1).run [.call 0 (.sync .exif), .worker none false, .worker (some ⟨4096, 100⟩) false,
      .worker none false, .resume 0, .resume 0]).Answered :=
  answered_of_safe 1 (List.prefix_refl _) (by
    simp [Run.Meets, SyncSafe, step, start, State.call, State.post, JPEG_MSG_QUEUE_SIZE,
      State.setCaller, State.workerStep, State.process, Caller.waits, Caller.reads])

def encoding : List Event :=
  [.call 0 (.start .enc), .resume 0, .resume 0, .resume 0, .worker none false, .worker none false]

/-- A request that is taken while a stop is under way is discarded, and its caller stays
blocked; of two requests under way, the first caller reads the second one's result. -/
theorem request_lost_or_mixed :
    ¬ ((start 2).run (encoding ++ [.call 0 (.sync .exif), .call 1 (.stop 0), .worker none false,
      .worker none false, .resume 1, .worker none false, .worker none false, .resume 1,
      .resume 1])).Answered ∧
    ¬ ((start 2).run [.call 0 (.sync .exif), .call 1 (.sync .exif), .worker none false,
      .worker (some ⟨4096, 100⟩) false, .worker none false, .worker none false,
      .worker (some ⟨8192, 200⟩) false, .resume 0, .resume 0]).Answered := by
  constructor
  · intro h
    exact h.not_blocked (by decide) (by decide) (by decide) 0 .exif 0 (by decide)
  · intro h
    exact absurd (h.own (0, some ⟨8192, 200⟩) (by decide)) (by decide)

end State

end JpegCodec

end Tarako
