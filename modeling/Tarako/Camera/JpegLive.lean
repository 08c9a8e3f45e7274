import Tarako.Camera.JpegCodec

/-!
# The handles that the worker goes through

The worker frees a handle and its context on STOP, and finds both for the other messages
through the handle alone; `_dec_callback` finds its decoder through `active_handle`, which
the callers store after they have posted. Nothing keeps a NEXT from being posted behind
the STOP of its handle, the worker from being faster than the caller that started a
decoder, or a second session from taking `active_handle` over. `live_of_safe` gives the
runs in which the worker only meets handles and contexts that are there, and the decoder
that its message is for.
-/

namespace Tarako

namespace JpegCodec

def Msg.session : Msg → Option ℕ
  | start n | next _ n | stop n => some n
  | kill | sync _ _ => none

def Worker.hand : Worker → List Msg
  | got m => [m]
  | _ => []

namespace State

def pending (s : State) : List Msg := s.worker.hand ++ s.queue

/-- Whatever handle the worker went through was there with its context, and whenever it
ran `_dec_callback` it reached the decoder of its message. -/
structure Live (s : State) : Prop where
  accesses : ∀ a ∈ s.accesses, a.live = true
  callbacks : ∀ c ∈ s.callbacks, c.reached = some c.session

/-- Every session but `n` that has not been freed is an encoder. -/
def NoOtherDecoder (s : State) (n : ℕ) : Prop :=
  ∀ (m : ℕ) (x : Session), s.sessions[m]? = some x → m ≠ n → x.freed = false → x.kind = .enc

/-- Session `n` has been returned to its caller, and no STOP has been posted for it. -/
def Open (s : State) (n : ℕ) : Prop :=
  (∃ x, s.sessions[n]? = some x ∧ x.stage = .returned) ∧ n ∉ s.stopPosted

/-- The condition on a caller's next step: it takes `active_handle` over from no decoder,
and posts NEXT and STOP for a session that is open, NEXT to a decoder only for one. -/
def CallerSafe (s : State) : Caller → Prop
  | .starting n =>
      ∀ x, s.sessions[n]? = some x → x.stage = .posted → s.NoOtherDecoder n
  | .nexting kind n => s.Open n ∧
      (kind = .dec → ∀ x, s.sessions[n]? = some x → x.kind = .dec)
  | .stopping n => s.Open n
  | _ => True

/-- The condition on a message that the worker is about to handle: a decoder's START finds
its context in the handle, a STOP leaves no other decoder without `active_handle`, and a
KILL finds no session between `active_handle` and the end of its start. -/
def MessageSafe (s : State) : Msg → Prop
  | .start n => ∀ x, s.sessions[n]? = some x → x.kind = .dec → x.published = true
  | .stop n => s.NoOtherDecoder n
  | .kill => ∀ n, s.activeHandle = some n → ∀ x, s.sessions[n]? = some x → x.stage = .returned
  | _ => True

def LiveSafe (s : State) : Event → Prop
  | .call _ _ => True
  | .resume t => ∀ c, s.callers[t]? = some c → s.CallerSafe c
  | .worker _ _ => ∀ m, s.worker = .got m → (s.isStop && !m.isStop) = false → s.MessageSafe m

/-- What the messages on their way and the worker can rely on. -/
structure Core (s : State) : Prop where
  freed : ∀ (n : ℕ) (x : Session), s.sessions[n]? = some x → x.freed = true → n ∈ s.stopPosted
  stopped : ∀ n ∈ s.stopPosted, ∃ x, s.sessions[n]? = some x ∧ x.stage = .returned
  active : ∀ n, s.activeHandle = some n →
    ∃ x, s.sessions[n]? = some x ∧ x.freed = false ∧ x.stage ≠ .posted
  decoder : ∀ (n : ℕ) (x : Session), s.sessions[n]? = some x → x.kind = .dec →
    x.freed = false → x.stage ≠ .posted → s.activeHandle = some n
  unfreed : ∀ m ∈ s.pending, ∀ n, m.session = some n →
    ∃ x, s.sessions[n]? = some x ∧ x.freed = false
  order : s.pending.Pairwise fun a b => ∀ n, a = .stop n → b.session ≠ some n
  stops : ∀ n, .stop n ∈ s.pending → n ∈ s.stopPosted
  nexts : ∀ kind n, .next kind n ∈ s.pending →
    ∃ x, s.sessions[n]? = some x ∧ x.stage = .returned ∧ (kind = .dec → x.kind = .dec)
  calling : ∀ n, s.worker = .calling n →
    ∃ x, s.sessions[n]? = some x ∧ x.kind = .dec ∧ x.freed = false ∧ x.published = true

/-- After KILL the worker handles nothing any more. -/
structure LiveInv (s : State) : Prop where
  live : Live s
  core : s.worker ≠ .exited → Core s

theorem liveInv_start (n : ℕ) : LiveInv (start n) where
  live := ⟨nofun, nofun⟩
  core := fun _ => ⟨nofun, nofun, nofun, nofun, nofun, List.Pairwise.nil, nofun, nofun, nofun⟩

/-! ## Changes of one part of the state -/

/-- Messages are dropped, the worker comes to a callback, or nothing of this changes. -/
theorem Core.frame {s s' : State} (h : Core s) (hsessions : s'.sessions = s.sessions)
    (hstop : s'.stopPosted = s.stopPosted) (hactive : s'.activeHandle = s.activeHandle)
    (hpending : List.Sublist s'.pending s.pending)
    (hcalling : ∀ n, s'.worker = .calling n → ∃ x, s.sessions[n]? = some x ∧
      x.kind = .dec ∧ x.freed = false ∧ x.published = true) : Core s' := by
  refine ⟨?_, ?_, ?_, ?_, ?_, h.order.sublist hpending, ?_, ?_, ?_⟩
  · rw [hsessions, hstop]
    exact h.freed
  · rw [hsessions, hstop]
    exact h.stopped
  · rw [hsessions, hactive]
    exact h.active
  · rw [hsessions, hactive]
    exact h.decoder
  · rw [hsessions]
    exact fun m hm => h.unfreed m (hpending.subset hm)
  · rw [hstop]
    exact fun n hn => h.stops n (hpending.subset hn)
  · rw [hsessions]
    exact fun kind n hn => h.nexts kind n (hpending.subset hn)
  · rw [hsessions]
    exact hcalling

/-- A message is posted; none is posted behind the STOP of its session. -/
theorem Core.post {s : State} (h : Core s) {m : Msg}
    (hunfreed : ∀ n, m.session = some n → ∃ x, s.sessions[n]? = some x ∧ x.freed = false)
    (horder : ∀ n, m.session = some n → .stop n ∉ s.pending)
    (hstops : ∀ n, m = .stop n → n ∈ s.stopPosted)
    (hnexts : ∀ kind n, m = .next kind n →
      ∃ x, s.sessions[n]? = some x ∧ x.stage = .returned ∧ (kind = .dec → x.kind = .dec)) :
    Core { s with queue := s.queue ++ [m] } := by
  have hpending : ({ s with queue := s.queue ++ [m] } : State).pending = s.pending ++ [m] :=
    (List.append_assoc _ _ _).symm
  refine ⟨h.freed, h.stopped, h.active, h.decoder, ?_, ?_, ?_, ?_, h.calling⟩
  · rw [hpending]
    intro m' hm' n hn
    obtain hm' | hm' := List.mem_append.mp hm'
    · exact h.unfreed m' hm' n hn
    · rw [List.mem_singleton.mp hm'] at hn
      exact hunfreed n hn
  · rw [hpending, List.pairwise_append]
    refine ⟨h.order, List.pairwise_singleton _ _, fun a ha b hb n hn hsession => ?_⟩
    rw [List.mem_singleton.mp hb] at hsession
    exact horder n hsession (hn ▸ ha)
  · rw [hpending]
    intro n hn
    obtain hn | hn := List.mem_append.mp hn
    · exact h.stops n hn
    · exact hstops n (List.mem_singleton.mp hn).symm
  · rw [hpending]
    intro kind n hn
    obtain hn | hn := List.mem_append.mp hn
    · exact h.nexts kind n hn
    · exact hnexts kind n (List.mem_singleton.mp hn).symm

theorem getElem?_setStage_self {s : State} {n : ℕ} {x : Session} (hx : s.sessions[n]? = some x)
    (stage : Stage) : (s.setStage n stage).sessions[n]? = some { x with stage } := by
  simp [setStage, hx]

theorem getElem?_setStage_of_ne (s : State) {m n : ℕ} (hne : m ≠ n) (stage : Stage) :
    (s.setStage n stage).sessions[m]? = s.sessions[m]? := by
  simp [setStage, hne.symm]

/-- What is known of a session that the change of stage does not reach. -/
theorem exists_setStage_of_ne {s : State} {m n : ℕ} (hne : m ≠ n) (stage : Stage)
    {P : Session → Prop} (h : ∃ x, s.sessions[m]? = some x ∧ P x) :
    ∃ x, (s.setStage n stage).sessions[m]? = some x ∧ P x := by
  rwa [getElem?_setStage_of_ne s hne]

/-- A session that has not been returned has no STOP and no NEXT under way. -/
theorem ne_of_returned {s : State} {m n : ℕ} {x : Session} (hx : s.sessions[n]? = some x)
    (hstage : x.stage ≠ .returned) {P : Session → Prop}
    (h : ∃ y, s.sessions[m]? = some y ∧ y.stage = .returned ∧ P y) : m ≠ n := by
  rintro rfl
  obtain ⟨y, hy, hreturned, -⟩ := h
  rw [hx] at hy
  obtain rfl := Option.some.inj hy
  exact hstage hreturned

theorem Core.activate {s : State} (h : Core s) {n : ℕ} {x : Session}
    (hx : s.sessions[n]? = some x) (hstage : x.stage = .posted) (hsafe : s.NoOtherDecoder n) :
    Core ({ s with activeHandle := some n }.setStage n .active) := by
  have hreturned : x.stage ≠ .returned := by
    rw [hstage]
    decide
  have hstopped : n ∉ s.stopPosted := fun hn => by
    obtain ⟨y, hy, hy'⟩ := h.stopped n hn
    exact ne_of_returned (P := fun _ => True) hx hreturned ⟨y, hy, hy', trivial⟩ rfl
  have hunfreed : x.freed = false := by
    cases hfreed : x.freed with
    | false => rfl
    | true => exact absurd (h.freed n x hx hfreed) hstopped
  have hself := getElem?_setStage_self (s := { s with activeHandle := some n }) hx .active
  have hother : ∀ m, m ≠ n → ({ s with activeHandle := some n }.setStage n .active).sessions[m]? =
      s.sessions[m]? := fun m hm => getElem?_setStage_of_ne _ hm _
  refine ⟨?_, ?_, ?_, ?_, ?_, h.order, h.stops, ?_, ?_⟩
  · intro m y hy hfreed
    by_cases hm : m = n
    · subst hm
      rw [hself] at hy
      obtain rfl := Option.some.inj hy
      rw [hunfreed] at hfreed
      cases hfreed
    · rw [hother m hm] at hy
      exact h.freed m y hy hfreed
  · intro m hm
    have hne : m ≠ n := fun heq => hstopped (heq ▸ hm)
    rw [hother m hne]
    exact h.stopped m hm
  · intro m hm
    cases hm
    exact ⟨_, hself, hunfreed, nofun⟩
  · intro m y hy hkind hfreed _
    by_cases hm : m = n
    · rw [hm]
      rfl
    · rw [hother m hm] at hy
      have henc := hsafe m y hy hm hfreed
      rw [hkind] at henc
      cases henc
  · intro m hm k hk
    by_cases hkn : k = n
    · subst hkn
      exact ⟨_, hself, hunfreed⟩
    · rw [hother k hkn]
      exact h.unfreed m hm k hk
  · intro kind m hm
    have hnext := h.nexts kind m hm
    have hne := ne_of_returned hx hreturned hnext
    rw [hother m hne]
    exact hnext
  · intro m hm
    obtain ⟨y, hy, hcalling⟩ := h.calling m hm
    have hne : m ≠ n := by
      rintro rfl
      rw [hx] at hy
      obtain rfl := Option.some.inj hy
      simp [Session.published, hstage] at hcalling
    rw [hother m hne]
    exact ⟨y, hy, hcalling⟩

/-- A start that has stored `active_handle` stores a field of the handle. -/
theorem Core.fill {s : State} (h : Core s) {n : ℕ} {x : Session} (hx : s.sessions[n]? = some x)
    (hposted : x.stage ≠ .posted) (hreturned : x.stage ≠ .returned) {stage : Stage}
    (hstage : stage = .published ∨ stage = .returned) : Core (s.setStage n stage) := by
  have hself := getElem?_setStage_self hx stage
  have hnew : stage ≠ .posted := by
    obtain rfl | rfl := hstage
    · decide
    · decide
  refine ⟨?_, ?_, ?_, ?_, ?_, h.order, h.stops, ?_, ?_⟩
  · intro m y hy hfreed
    by_cases hm : m = n
    · subst hm
      rw [hself] at hy
      obtain rfl := Option.some.inj hy
      exact h.freed m x hx hfreed
    · rw [getElem?_setStage_of_ne s hm] at hy
      exact h.freed m y hy hfreed
  · intro m hm
    obtain ⟨y, hy, hy'⟩ := h.stopped m hm
    have hne := ne_of_returned (P := fun _ => True) hx hreturned ⟨y, hy, hy', trivial⟩
    exact exists_setStage_of_ne hne stage ⟨y, hy, hy'⟩
  · intro m hm
    obtain ⟨y, hy, hfreed, hy'⟩ := h.active m hm
    by_cases hmn : m = n
    · subst hmn
      rw [hx] at hy
      obtain rfl := Option.some.inj hy
      exact ⟨_, hself, hfreed, hnew⟩
    · exact exists_setStage_of_ne hmn stage ⟨y, hy, hfreed, hy'⟩
  · intro m y hy hkind hfreed hy'
    by_cases hm : m = n
    · subst hm
      rw [hself] at hy
      obtain rfl := Option.some.inj hy
      exact h.decoder m x hx hkind hfreed hposted
    · rw [getElem?_setStage_of_ne s hm] at hy
      exact h.decoder m y hy hkind hfreed hy'
  · intro m hm k hk
    obtain ⟨y, hy, hfreed⟩ := h.unfreed m hm k hk
    by_cases hkn : k = n
    · subst hkn
      rw [hx] at hy
      obtain rfl := Option.some.inj hy
      exact ⟨_, hself, hfreed⟩
    · exact exists_setStage_of_ne hkn stage ⟨y, hy, hfreed⟩
  · intro kind m hm
    have hnext := h.nexts kind m hm
    exact exists_setStage_of_ne (ne_of_returned hx hreturned hnext) stage hnext
  · intro m hm
    obtain ⟨y, hy, hkind, hfreed, hpublished⟩ := h.calling m hm
    by_cases hmn : m = n
    · subst hmn
      rw [hx] at hy
      obtain rfl := Option.some.inj hy
      refine ⟨_, hself, hkind, hfreed, ?_⟩
      obtain rfl | rfl := hstage
      · rfl
      · rfl
    · exact exists_setStage_of_ne hmn stage ⟨y, hy, hkind, hfreed, hpublished⟩

/-- A session that no STOP has been posted for is there, and none is under way. -/
theorem Core.exists_of_open {s : State} (h : Core s) {n : ℕ} (hopen : s.Open n) :
    (∃ x, s.sessions[n]? = some x ∧ x.freed = false) ∧ .stop n ∉ s.pending := by
  obtain ⟨⟨x, hx, -⟩, hn⟩ := hopen
  refine ⟨⟨x, hx, ?_⟩, fun hstop => hn (h.stops n hstop)⟩
  cases hfreed : x.freed with
  | false => rfl
  | true => exact absurd (h.freed n x hx hfreed) hn

theorem getElem?_append_of_eq_some {α : Type} {l : List α} {n : ℕ} {x : α} (h : l[n]? = some x)
    (y : α) : (l ++ [y])[n]? = some x := by
  rw [List.getElem?_append_left (List.getElem?_eq_some_iff.mp h).1]
  exact h

theorem Core.allocate {s : State} (h : Core s) (kind : Kind) :
    Core { s with sessions := s.sessions ++ [⟨kind, .posted, false⟩] } := by
  -- what a session of the longer list that is not the new one was before
  have hold : ∀ (n : ℕ) (x : Session),
      (s.sessions ++ [(⟨kind, .posted, false⟩ : Session)])[n]? = some x →
        s.sessions[n]? = some x ∨ x = ⟨kind, .posted, false⟩ := by
    intro n x hx
    rw [List.getElem?_append] at hx
    split_ifs at hx with hn
    · exact Or.inl hx
    · exact Or.inr (List.mem_singleton.mp (List.mem_of_getElem? hx))
  refine ⟨?_, ?_, ?_, ?_, ?_, h.order, h.stops, ?_, ?_⟩
  · intro n x hx hfreed
    obtain hx | rfl := hold n x hx
    · exact h.freed n x hx hfreed
    · cases hfreed
  · intro n hn
    obtain ⟨x, hx, hstage⟩ := h.stopped n hn
    exact ⟨x, getElem?_append_of_eq_some hx _, hstage⟩
  · intro n hn
    obtain ⟨x, hx, hfreed⟩ := h.active n hn
    exact ⟨x, getElem?_append_of_eq_some hx _, hfreed⟩
  · intro n x hx hkind hfreed hstage
    obtain hx | rfl := hold n x hx
    · exact h.decoder n x hx hkind hfreed hstage
    · exact absurd rfl hstage
  · intro m hm n hn
    obtain ⟨x, hx, hfreed⟩ := h.unfreed m hm n hn
    exact ⟨x, getElem?_append_of_eq_some hx _, hfreed⟩
  · intro kind' n hn
    obtain ⟨x, hx, hnext⟩ := h.nexts kind' n hn
    exact ⟨x, getElem?_append_of_eq_some hx _, hnext⟩
  · intro n hn
    obtain ⟨x, hx, hcalling⟩ := h.calling n hn
    exact ⟨x, getElem?_append_of_eq_some hx _, hcalling⟩

theorem Core.stopPost {s : State} (h : Core s) {n : ℕ} (hopen : s.Open n) :
    Core { s with queue := s.queue ++ [.stop n], stopPosted := n :: s.stopPosted } := by
  have hnoted : Core { s with stopPosted := n :: s.stopPosted } := by
    refine ⟨fun m x hx hfreed => List.mem_cons_of_mem n (h.freed m x hx hfreed), ?_, h.active,
      h.decoder, h.unfreed, h.order, fun m hm => List.mem_cons_of_mem n (h.stops m hm), h.nexts,
      h.calling⟩
    intro m hm
    obtain rfl | hm := List.mem_cons.mp hm
    · exact hopen.1
    · exact h.stopped m hm
  obtain ⟨hthere, hnone⟩ := h.exists_of_open hopen
  refine hnoted.post ?_ ?_ ?_ nofun
  · intro m hm
    cases hm
    exact hthere
  · intro m hm
    cases hm
    exact hnone
  · intro m hm
    cases hm
    exact List.mem_cons_self

/-! ## The callers -/

theorem Core.setCaller {s : State} (h : Core s) (t : ℕ) (c : Caller) : Core (s.setCaller t c) :=
  h.frame rfl rfl rfl (List.Sublist.refl _) h.calling

theorem Core.call {s : State} (h : Core s) (t : ℕ) (c : Call) : Core (s.call t c) := by
  cases c with
  | start kind =>
      simp only [State.call]
      cases hpost : s.post (.start s.sessions.length) with
      | none => exact h
      | some s' =>
          rw [eq_of_post hpost]
          refine Core.setCaller ((h.allocate kind).post (m := .start s.sessions.length) ?_ ?_ nofun
            nofun) t _
          · intro n hn
            cases hn
            exact ⟨⟨kind, .posted, false⟩, by simp, rfl⟩
          · intro n hn hstop
            cases hn
            obtain ⟨x, hx, -⟩ := h.stopped _ (h.stops _ hstop)
            simp at hx
  | next kind n =>
      simp only [State.call]
      split_ifs
      · exact h
      · exact h.setCaller t _
  | stop n => exact h.frame rfl rfl rfl (List.Sublist.refl _) h.calling
  | deinit =>
      simp only [State.call]
      cases hpost : s.post .kill with
      | none => exact h
      | some s' =>
          rw [eq_of_post hpost]
          exact (h.post (m := .kill) nofun nofun nofun nofun).setCaller t _
  | sync kind =>
      simp only [State.call]
      cases hpost : s.post (.sync kind s.requests) with
      | none => exact h
      | some s' =>
          rw [eq_of_post hpost]
          exact (h.post (m := .sync kind s.requests) nofun nofun nofun nofun).frame rfl rfl rfl
            (List.Sublist.refl _) h.calling

theorem Core.resumeStart {s : State} (h : Core s) (t : ℕ) {n : ℕ}
    (hsafe : s.CallerSafe (.starting n)) : Core (s.resumeStart t n) := by
  rw [State.resumeStart]
  cases hx : s.sessions[n]? with
  | none => exact h
  | some x =>
      simp only
      cases hstage : x.stage with
      | posted => exact h.activate hx hstage (hsafe x hx hstage)
      | active => exact h.fill hx (by simp [hstage]) (by simp [hstage]) (Or.inl rfl)
      | published =>
          exact (h.fill hx (by simp [hstage]) (by simp [hstage]) (Or.inr rfl)).setCaller t _
      | returned => exact h

theorem Core.resume {s : State} (h : Core s) (t : ℕ) {c : Caller} (hsafe : s.CallerSafe c) :
    Core (s.resume t c) := by
  cases c with
  | idle => exact h
  | starting n => exact h.resumeStart t hsafe
  | nexting kind n =>
      obtain ⟨hopen, hkind⟩ := hsafe
      obtain ⟨hthere, hnone⟩ := h.exists_of_open hopen
      simp only [State.resume]
      cases hpost : s.post (.next kind n) with
      | none => exact h.setCaller t _
      | some s' =>
          rw [eq_of_post hpost]
          refine (h.post (m := .next kind n) ?_ ?_ nofun ?_).setCaller t _
          · intro m hm
            cases hm
            exact hthere
          · intro m hm
            cases hm
            exact hnone
          · intro kind' m hm
            cases hm
            obtain ⟨x, hx, hreturned⟩ := hopen.1
            exact ⟨x, hx, hreturned, fun hdec => hkind hdec x hx⟩
  | stopping n =>
      simp only [State.resume]
      cases hpost : s.post (.stop n) with
      | none => exact h.setCaller t _
      | some s' =>
          rw [eq_of_post hpost]
          exact (h.stopPost hsafe).setCaller t _
  | waitingStop =>
      simp only [State.resume]
      split_ifs
      · exact h
      · exact h.frame rfl rfl rfl (List.Sublist.refl _) h.calling
  | clearing => exact h.frame rfl rfl rfl (List.Sublist.refl _) h.calling
  | joining =>
      simp only [State.resume]
      split_ifs
      · exact h.setCaller t _
      · exact h
  | syncing kind r =>
      simp only [State.resume]
      split_ifs
      · exact h
      · exact h.frame rfl rfl rfl (List.Sublist.refl _) h.calling
  | reading kind r => exact h.frame rfl rfl rfl (List.Sublist.refl _) h.calling

def notes (s : State) : Worker × List Access × List Callback := (s.worker, s.accesses, s.callbacks)

theorem notes_call (s : State) (t : ℕ) (c : Call) : (s.call t c).notes = s.notes := by
  cases c with
  | start kind =>
      simp only [State.call]
      cases hpost : s.post (.start s.sessions.length) with
      | none => rfl
      | some s' =>
          rw [eq_of_post hpost]
          rfl
  | next kind n =>
      simp only [State.call]
      split_ifs <;> rfl
  | stop n => rfl
  | deinit =>
      simp only [State.call]
      cases hpost : s.post .kill with
      | none => rfl
      | some s' =>
          rw [eq_of_post hpost]
          rfl
  | sync kind =>
      simp only [State.call]
      cases hpost : s.post (.sync kind s.requests) with
      | none => rfl
      | some s' =>
          rw [eq_of_post hpost]
          rfl

theorem notes_resume (s : State) (t : ℕ) (c : Caller) : (s.resume t c).notes = s.notes := by
  cases c with
  | idle => rfl
  | starting n =>
      simp only [State.resume, State.resumeStart]
      split
      · rfl
      · split <;> rfl
  | nexting kind n =>
      simp only [State.resume]
      cases hpost : s.post (.next kind n) with
      | none => rfl
      | some s' =>
          rw [eq_of_post hpost]
          rfl
  | stopping n =>
      simp only [State.resume]
      cases hpost : s.post (.stop n) with
      | none => rfl
      | some s' =>
          rw [eq_of_post hpost]
          rfl
  | waitingStop =>
      simp only [State.resume]
      split_ifs <;> rfl
  | clearing => rfl
  | joining =>
      simp only [State.resume]
      split_ifs <;> rfl
  | syncing kind r =>
      simp only [State.resume]
      split_ifs <;> rfl
  | reading kind r => rfl

/-- A caller's step keeps the invariant when it keeps what the worker relies on. -/
theorem LiveInv.of_notes {s s' : State} (h : LiveInv s) (hnotes : s'.notes = s.notes)
    (hcore : Core s → Core s') : LiveInv s' := by
  simp only [notes, Prod.mk.injEq] at hnotes
  obtain ⟨hworker, haccesses, hcallbacks⟩ := hnotes
  refine ⟨⟨?_, ?_⟩, fun hexited => hcore (h.core (hworker ▸ hexited))⟩
  · rw [haccesses]
    exact h.live.accesses
  · rw [hcallbacks]
    exact h.live.callbacks

/-! ## The worker -/

theorem live_of_published {s : State} {n : ℕ} {x : Session} (hx : s.sessions[n]? = some x)
    (hfreed : x.freed = false) (hpublished : x.published = true) : s.live n = true := by
  simp [live, hx, hfreed, hpublished]

theorem Live.access {s s' : State} (h : Live s) {a : Access}
    (haccesses : s'.accesses = s.accesses ++ [a]) (hcallbacks : s'.callbacks = s.callbacks)
    (ha : a.live = true) : Live s' := by
  refine ⟨fun b hb => ?_, hcallbacks ▸ h.callbacks⟩
  rw [haccesses] at hb
  obtain hb | hb := List.mem_append.mp hb
  · exact h.accesses b hb
  · rw [List.mem_singleton.mp hb]
    exact ha

theorem Core.free {s : State} (h : Core s) {n : ℕ} (hworker : s.worker = .got (.stop n))
    (hsafe : s.NoOtherDecoder n) :
    Core { s.jpegStop n with worker := .waiting, stopSem := s.stopSem + 1 } := by
  have hpending : s.pending = .stop n :: s.queue := by
    rw [pending, hworker]
    rfl
  have hstop : n ∈ s.stopPosted := h.stops n (hpending ▸ List.mem_cons_self)
  have horder := h.order
  rw [hpending, List.pairwise_cons] at horder
  have hself : ∀ x, s.sessions[n]? = some x →
      (s.jpegStop n).sessions[n]? = some { x with freed := true } := by
    intro x hx
    simp [jpegStop, hx]
  have hother : ∀ m, m ≠ n → (s.jpegStop n).sessions[m]? = s.sessions[m]? := by
    intro m hm
    simp [jpegStop, hm.symm]
  -- what is known of the stage and the kind of a session stays
  have hkeep : ∀ (m : ℕ) {P : Stage → Kind → Prop},
      (∃ x, s.sessions[m]? = some x ∧ P x.stage x.kind) →
        ∃ x, (s.jpegStop n).sessions[m]? = some x ∧ P x.stage x.kind := by
    rintro m P ⟨x, hx, hP⟩
    by_cases hm : m = n
    · subst hm
      exact ⟨_, hself x hx, hP⟩
    · exact ⟨x, (hother m hm).trans hx, hP⟩
  refine ⟨?_, ?_, nofun, ?_, ?_, horder.2, ?_, ?_, nofun⟩
  · intro m x hx hfreed
    by_cases hm : m = n
    · rw [hm]
      exact hstop
    · exact h.freed m x ((hother m hm).symm.trans hx) hfreed
  · intro m hm
    exact hkeep m (P := fun stage _ => stage = .returned) (h.stopped m hm)
  · intro m x hx hkind hfreed _
    by_cases hm : m = n
    · subst hm
      obtain ⟨y, hy, -⟩ := h.stopped m hstop
      rw [hself y hy] at hx
      obtain rfl := Option.some.inj hx
      cases hfreed
    · have henc := hsafe m x ((hother m hm).symm.trans hx) hm hfreed
      rw [hkind] at henc
      cases henc
  · intro m hm k hk
    have hkn : k ≠ n := fun heq => horder.1 m hm n rfl (heq ▸ hk)
    obtain ⟨x, hx, hfreed⟩ := h.unfreed m (hpending ▸ List.mem_cons_of_mem _ hm) k hk
    exact ⟨x, (hother k hkn).trans hx, hfreed⟩
  · intro m hm
    exact h.stops m (hpending ▸ List.mem_cons_of_mem _ hm)
  · intro kind m hm
    exact hkeep m (P := fun stage k => stage = .returned ∧ (kind = .dec → k = .dec))
      (h.nexts kind m (hpending ▸ List.mem_cons_of_mem _ hm))

theorem Core.wait {s s' : State} (h : Core s) (hsessions : s'.sessions = s.sessions)
    (hstop : s'.stopPosted = s.stopPosted) (hactive : s'.activeHandle = s.activeHandle)
    (hqueue : s'.queue = s.queue) (hworker : s'.worker.hand = [])
    (hcalling : ∀ n, s'.worker ≠ .calling n) : Core s' := by
  refine h.frame hsessions hstop hactive ?_ fun n hn => absurd hn (hcalling n)
  rw [pending, pending, hworker, hqueue, List.nil_append]
  exact List.sublist_append_right _ _

theorem Core.afterCodec {s : State} (h : Core s) {kind : Kind} {n : ℕ}
    (hdec : kind = .dec → ∃ x, s.sessions[n]? = some x ∧ x.kind = .dec ∧ x.freed = false ∧
      x.published = true) : Core (s.afterCodec kind n) := by
  cases kind with
  | enc => exact h.wait rfl rfl rfl rfl rfl nofun
  | dec =>
      refine h.frame rfl rfl rfl (List.sublist_append_right _ _) fun m hm => ?_
      cases hm
      exact hdec rfl

theorem LiveInv.process {s : State} (h : LiveInv s) {m : Msg} (hworker : s.worker = .got m)
    (hsafe : s.MessageSafe m) (result : Option Result) : LiveInv (s.process result m) := by
  have hcore : Core s := h.core (by simp [hworker])
  have hpending : m ∈ s.pending := by
    rw [pending, hworker]
    exact List.mem_cons_self
  cases m with
  | start n =>
      obtain ⟨x, hx, hfreed⟩ := hcore.unfreed _ hpending n rfl
      simp only [State.process, hx]
      refine ⟨?_, fun _ => hcore.afterCodec fun hdec => ?_⟩
      · cases x.kind with
        | enc => exact ⟨h.live.accesses, h.live.callbacks⟩
        | dec => exact ⟨h.live.accesses, h.live.callbacks⟩
      · exact ⟨x, hx, hdec, hfreed, hsafe x hx hdec⟩
  | next kind n =>
      obtain ⟨x, hx, hreturned, hkind⟩ := hcore.nexts kind n hpending
      obtain ⟨y, hy, hfreed⟩ := hcore.unfreed _ hpending n rfl
      rw [hx] at hy
      obtain rfl := Option.some.inj hy
      have hpublished : x.published = true := by simp [Session.published, hreturned]
      have hlive := live_of_published hx hfreed hpublished
      refine ⟨?_, fun _ => ?_⟩
      · cases kind with
        | enc => exact h.live.access rfl rfl hlive
        | dec => exact h.live.access rfl rfl hlive
      · have hnoted : Core { s with accesses := s.accesses ++ [⟨n, s.live n⟩] } :=
          hcore.frame rfl rfl rfl (List.Sublist.refl _) hcore.calling
        exact hnoted.afterCodec fun hdec => ⟨x, hx, hkind hdec, hfreed, hpublished⟩
  | stop n =>
      obtain ⟨x, hx, hreturned⟩ := hcore.stopped n (hcore.stops n hpending)
      obtain ⟨y, hy, hfreed⟩ := hcore.unfreed _ hpending n rfl
      rw [hx] at hy
      obtain rfl := Option.some.inj hy
      refine ⟨h.live.access rfl rfl ?_, fun _ => hcore.free hworker hsafe⟩
      simp [hx, hfreed, hreturned]
  | kill =>
      simp only [State.process]
      cases hactive : s.activeHandle with
      | none => exact ⟨⟨h.live.accesses, h.live.callbacks⟩, fun hexited => absurd rfl hexited⟩
      | some n =>
          obtain ⟨x, hx, hfreed, -⟩ := hcore.active n hactive
          have hreturned := hsafe n hactive x hx
          refine ⟨h.live.access rfl rfl ?_, fun hexited => absurd rfl hexited⟩
          simp [hx, hfreed, hreturned]
  | sync kind r =>
      exact ⟨⟨h.live.accesses, h.live.callbacks⟩, fun _ => hcore.wait rfl rfl rfl rfl rfl nofun⟩

/-- The worker reaches the decoder of its message in `_dec_callback`. -/
theorem LiveInv.callback {s : State} (h : LiveInv s) {n : ℕ} (hworker : s.worker = .calling n) :
    LiveInv { s with callbacks := s.callbacks ++ [⟨n, s.reached⟩] } := by
  have hcore : Core s := h.core (by simp [hworker])
  obtain ⟨x, hx, hkind, hfreed, hpublished⟩ := hcore.calling n hworker
  have hposted : x.stage ≠ .posted := by
    intro hstage
    simp [Session.published, hstage] at hpublished
  have hactive := hcore.decoder n x hx hkind hfreed hposted
  have hreached : s.reached = some n := by
    rw [reached, hactive, Option.filter_some, live_of_published hx hfreed hpublished]
    rfl
  refine ⟨⟨h.live.accesses, fun c hc => ?_⟩,
    fun _ => hcore.frame rfl rfl rfl (List.Sublist.refl _) hcore.calling⟩
  obtain hc | hc := List.mem_append.mp hc
  · exact h.live.callbacks c hc
  · rw [List.mem_singleton.mp hc]
    exact hreached

theorem LiveInv.workerStep {s : State} (h : LiveInv s) (result : Option Result) (again : Bool)
    (hsafe : s.LiveSafe (.worker result again)) : LiveInv (s.workerStep result again) := by
  rw [State.workerStep]
  cases hworker : s.worker with
  | waiting =>
      have hcore : Core s := h.core (by simp [hworker])
      simp only
      cases hqueue : s.queue with
      | nil => exact h
      | cons m queue =>
          refine ⟨⟨h.live.accesses, h.live.callbacks⟩, fun _ => ?_⟩
          refine hcore.frame rfl rfl rfl ?_ nofun
          rw [pending, pending, hworker, hqueue]
          exact List.Sublist.refl _
  | got m =>
      have hcore : Core s := h.core (by simp [hworker])
      simp only
      split_ifs with hdiscard
      · exact ⟨⟨h.live.accesses, h.live.callbacks⟩, fun _ => hcore.wait rfl rfl rfl rfl rfl nofun⟩
      · exact h.process hworker (hsafe m hworker (by simpa using hdiscard)) result
  | calling n =>
      have hcore : Core s := h.core (by simp [hworker])
      simp only
      split_ifs
      · rw [← hworker]
        exact h.callback hworker
      · exact ⟨⟨h.live.accesses, h.live.callbacks⟩, fun _ => hcore.wait rfl rfl rfl rfl rfl nofun⟩
  | answered =>
      have hcore : Core s := h.core (by simp [hworker])
      exact ⟨⟨h.live.accesses, h.live.callbacks⟩, fun _ => hcore.wait rfl rfl rfl rfl rfl nofun⟩
  | exited => exact h

/-! ## Runs -/

theorem LiveInv.step {s : State} (h : LiveInv s) (e : Event) (hsafe : s.LiveSafe e) :
    LiveInv (s.step e) := by
  cases e with
  | call t c =>
      rw [State.step]
      split_ifs
      · exact h.of_notes (notes_call s t c) fun hcore => hcore.call t c
      · exact h
  | resume t =>
      cases hc : s.callers[t]? with
      | none => simpa [State.step, hc] using h
      | some c =>
          rw [step_resume hc]
          exact h.of_notes (notes_resume s t c) fun hcore => hcore.resume t (hsafe c hc)
  | worker result again => exact h.workerStep result again hsafe

/-- In a run whose steps are safe the worker only meets handles and contexts that are
there, and every `_dec_callback` reaches the decoder of its message. -/
theorem live_of_safe (n : ℕ) {es fs : List Event} (hfs : fs <+: es)
    (hes : Run.Meets step LiveSafe (start n) es) : Live ((start n).run fs) :=
  (Run.invariant_prefix (fun _ e he hs => hs.step e he) hfs hes (liveInv_start n)).live

/-- A decoder is started and has its callback, and is stopped after a NEXT. -/
theorem live_decoder :
    Live ((start 1).run [.call 0 (.start .dec), .resume 0, .resume 0, .resume 0,
      .worker none false, .worker none false, .worker none true, .worker none false,
      .call 0 (.next .dec 0), .resume 0, .worker none false, .worker none false,
      .worker none false, .call 0 (.stop 0), .resume 0, .worker none false,
      .worker none false]) :=
  live_of_safe 1 (List.prefix_refl _) (by
    have hsingle : ∀ (y : Session) (m : ℕ) (x : Session), [y][m]? = some x → ¬m = 0 →
        x.freed = false → x.kind = .enc := by
      intro y m x hx hm
      simp [hm] at hx
    simp [Run.Meets, LiveSafe, CallerSafe, MessageSafe, NoOtherDecoder, Open, step, start,
      State.call, State.resume, State.resumeStart, State.post, JPEG_MSG_QUEUE_SIZE,
      State.setCaller, State.setStage, State.workerStep, State.process, State.afterCodec,
      Session.published, Msg.isStop]
    exact ⟨hsingle _, hsingle _⟩)

/-- A NEXT that is posted behind the STOP of its handle finds the handle freed; a decoder
whose START is handled before `active_handle` has been stored has no callback. -/
theorem freed_or_unset_handle :
    ¬ Live ((start 2).run [.call 0 (.start .enc), .resume 0, .resume 0, .resume 0,
      .worker none false, .worker none false, .call 0 (.next .enc 0), .call 1 (.stop 0),
      .resume 1, .resume 0, .worker none false, .worker none false, .resume 1, .resume 1,
      .worker none false, .worker none false]) ∧
    ¬ Live ((start 1).run [.call 0 (.start .dec), .worker none false, .worker none false,
      .worker none true]) := by
  constructor
  · intro h
    exact absurd (h.accesses ⟨0, false⟩ (by decide)) (by decide)
  · intro h
    exact absurd (h.callbacks ⟨0, none⟩ (by decide)) (by decide)

end State

end JpegCodec

end Tarako
