import Tarako.Engcs.Service

/-!
# Which thread of `engservice` closes a descriptor

A descriptor of a client is closed once, and never one of another client, in the runs whose steps
meet `Safe` (`owned_of_safe`). After the client has disconnected it can take a while:
`eng_event_reg` may still be at it, or `select` may wait on a copy of `read_fds` that was made
before it was registered. What ends that wait is the answer of the monitor, which the main thread
tells of every client.
-/

namespace Tarako

namespace Engcs

open SlotTable

/-- The client that `eng_event_reg` has not entered into `fd_table` yet, and its descriptor. -/
def MainThread.entering : MainThread → Option (ℕ × ℕ)
  | accepted conn fd | reading conn fd | named conn fd => some (conn, fd)
  | creating c => some (c.fe.conn, c.fe.fd)
  | accepting | created _ | updated _ => none

/-- Whether a client is in `fd_table` that the monitor has still to be told of. -/
def MainThread.untold : MainThread → Bool
  | created _ | updated _ => true
  | accepting | accepted _ _ | reading _ _ | named _ _ | creating _ => false

/-- The client whose callback runs, until `fdevent_destroy`. -/
def SvcThread.fe : SvcThread → Option Fdevent
  | unborn | looping | selecting _ | destroyed _ _ | cleared _ => none
  | entered fe _ _ | reading fe _ _ | sending fe _ _ _ _ | scanning fe _ | copying fe _ _
  | cutting fe _ _ | parsing fe _ | responding fe _ _ | leaving fe => some fe

/-- The number that `eng_event_unreg` is going to close again. -/
def SvcThread.closing : SvcThread → Option ℕ
  | destroyed _ fe | cleared fe => some fe.fd
  | _ => none

/-- The entry of the registry that `eng_event_unreg` is going to clear. -/
def SvcThread.stale : SvcThread → Option ℕ
  | destroyed i _ => some i
  | _ => none

/-- Whether `fdevent_loop` is in a callback or between two of them. -/
def SvcThread.busy : SvcThread → Bool
  | unborn | selecting _ | destroyed _ _ | cleared _ => false
  | _ => true

theorem SvcThread.stale_of_busy {p : SvcThread} (h : p.busy) : p.stale = none := by
  cases p <;> first | rfl | cases h

theorem SvcThread.closing_of_busy {p : SvcThread} (h : p.busy) : p.closing = none := by
  cases p <;> first | rfl | cases h

theorem SvcThread.not_waits_of_busy {p : SvcThread} (h : p.busy) :
    ¬ (p = .unborn ∨ ∃ rfd, p = .selecting rfd) := by
  rintro (rfl | ⟨rfd, rfl⟩) <;> cases h

namespace Engservice

/-! ## The property -/

/-- `select` fails on a closed descriptor. -/
def Selectable (s : Engservice) : Prop :=
  ∀ fd < s.fdTable.length, (get s.fdTable fd).isSome → (get s.files.slots fd).isSome

/-- `fd` is the descriptor of a client that is registered as the monitor. -/
def IsMonitor (s : Engservice) (fd : ℕ) : Prop :=
  (get s.fdTable fd).any (·.func = .monitorclient)

instance (s : Engservice) (fd : ℕ) : Decidable (s.IsMonitor fd) := by
  unfold IsMonitor
  infer_instance

/-- `fd` ends a `select`: there is something to read, or its client is the monitor, which
answers what it has been told. -/
def Wakes (s : Engservice) (fd : ℕ) : Prop :=
  s.readable fd ∨ s.IsMonitor fd ∧ ∃ conn ∈ s.told, get s.files.slots fd = some conn

/-- `select` is going to look at `fd`, which is in `read_fds`. -/
def Watches (s : Engservice) (fd : ℕ) : Prop :=
  match s.svc with
  | .unborn => s.main.untold
  | .selecting rfd => fd ∈ rfd ∨ s.main.untold ∨ ∃ fd' ∈ rfd, s.Wakes fd'
  | _ => True

/-- The descriptor of `conn` is still going to be closed: by the end of the process, by
`eng_event_reg`, or by a callback that unregisters it when `select` finds it. -/
def UnderWay (s : Engservice) (conn : ℕ) : Prop :=
  s.ended ∨ (∃ fd, s.main.entering = some (conn, fd)) ∨
    s.Selectable ∧ ∃ fe, some fe ∈ s.fdTable ∧ fe.conn = conn ∧ fe.func.unregisters ∧
      s.Watches fe.fd

/-- No call of `close` closes a file that it is not for, and a client that has
disconnected has had its descriptor closed once or is going to. -/
structure Owned (s : Engservice) : Prop where
  own : ∀ call ∈ s.files.closes, ∀ conn, call.hit = some conn → conn = call.owner
  closed : ∀ conn ∈ s.gone, s.files.closed conn = 1 ∨ s.files.closed conn = 0 ∧ s.UnderWay conn

/-! ## The condition -/

/-- When the monitor is told of a client that a `select` does not know of, that `select` waits
for the monitor. -/
def MonitorWatched (s : Engservice) : Prop :=
  match s.svc with
  | .selecting rfd =>
      (∀ fd < s.fdTable.length, (get s.fdTable fd).isSome → fd ∈ rfd) ∨
        ∃ fd ∈ rfd, s.monitorSvcFd = some fd ∧ s.IsMonitor fd
  | _ => True

/-- The condition on a step of the main thread: a number is not accepted again between its two
calls of `close`, the registry has room, a client that has disconnected does not register with a
callback that ignores it, `fdevent_create` gets its memory and does not run while
`fdevent_destroy` does, the thread is created, and the monitor is there to be told. -/
def MainSafe (s : Engservice) (ok : Bool) : Prop :=
  match s.main with
  | .accepting => s.svc.closing ≠ some (lowestFree s.files.slots)
  | .accepted _ _ => s.engEventCanReg
  | .named conn fd =>
      ∀ r ∈ s.getnametype, ∀ c ∈ s.newClient conn fd r.2 r.1,
        conn ∈ s.gone → c.fe.func.unregisters
  | .creating _ =>
      ok ∧ match s.svc with
        | .leaving _ => False
        | _ => True
  | .updated _ => (s.hasThread = false → ok) ∧ s.MonitorWatched
  | .reading _ _ | .created _ => True

/-- The condition on a step of the thread of `fdevent_loop`: `fdevent_destroy` does not run while
`fdevent_create` does, nor for a client that is not in the registry yet. -/
def SvcSafe (s : Engservice) : Prop :=
  match s.svc, s.main with
  | .leaving _, .creating _ => False
  | .leaving fe, .created c => c.fe.fd ≠ fe.fd
  | _, _ => True

/-- The condition on a step. A client that disconnects has a callback that unregisters it. -/
def Safe (s : Engservice) : Event → Prop
  | .main _ ok => s.MainSafe ok
  | .svc _ _ => s.SvcSafe
  | .hangUp conn =>
      (∀ o ∈ s.fdTable, ∀ fe ∈ o, fe.conn = conn → fe.func.unregisters) ∧
        match s.main with
        | .creating c => c.fe.conn = conn → c.fe.func.unregisters
        | _ => True
  | .send _ _ | .reply _ _ => True

instance (s : Engservice) (e : Event) : Decidable (s.Safe e) := by
  unfold Safe MainSafe SvcSafe MonitorWatched
  repeat' split
  all_goals infer_instance

/-! ## What holds between the steps -/

/-- The clients whose callbacks run or are going to. -/
def active (s : Engservice) : List Fdevent := s.svc.fe.toList ++ s.listPending

/-- What the step that the main thread is at needs. -/
def MainReady (s : Engservice) : Prop :=
  match s.main with
  | .accepting | .updated _ => True
  | .accepted conn fd => get s.files.slots fd = some conn ∧ get s.fdTable fd = none
  | .reading conn fd | .named conn fd =>
      get s.files.slots fd = some conn ∧ get s.fdTable fd = none ∧ s.engEventCanReg
  | .creating c =>
      get s.files.slots c.fe.fd = some c.fe.conn ∧ get s.fdTable c.fe.fd = none ∧
        s.engEventCanReg ∧ (c.fe.conn ∈ s.gone → c.fe.func.unregisters)
  | .created c =>
      get s.fdTable c.fe.fd = some c.fe ∧ s.engEventCanReg ∧
        ∀ i c', get s.clientInfo i = some c' → c'.fe = c.fe → s.svc.stale = some i

/-- The entries of `fd_table` are open, and each is in the registry once. Every open
descriptor of a client is registered or about to be, and the number that
`eng_event_unreg` is going to close is free. -/
structure Inv (s : Engservice) : Prop where
  files : s.files.Valid
  event : ∀ {fd fe}, get s.fdTable fd = some fe → fe.fd = fd ∧ get s.files.slots fd = some fe.conn
  info : ∀ {i c}, get s.clientInfo i = some c → s.svc.stale ≠ some i →
    get s.fdTable c.fe.fd = some c.fe
  infoInj : ∀ {i j c c'}, get s.clientInfo i = some c → get s.clientInfo j = some c' →
    c.fe = c'.fe → s.svc.stale ≠ some i → s.svc.stale ≠ some j → i = j
  listed : ∀ {fd fe}, get s.fdTable fd = some fe → (∃ c, s.main = .created c ∧ c.fe = fe) ∨
    ∃ i c, get s.clientInfo i = some c ∧ c.fe = fe ∧ s.svc.stale ≠ some i
  main : s.MainReady
  stale : ∀ {i}, s.svc.stale = some i → get s.clientInfo i ≠ none
  closing : ∀ {fd}, s.svc.closing = some fd → get s.files.slots fd = none
  clients : ∀ conn ∈ s.clients, conn < s.files.next ∧
    ∀ fd, get s.files.slots fd = some conn →
      s.main.entering = some (conn, fd) ∨ (get s.fdTable fd).isSome
  gone : ∀ conn ∈ s.gone, conn ∈ s.clients
  goneFunc : ∀ {fd fe}, get s.fdTable fd = some fe → fe.conn ∈ s.gone → fe.func.unregisters
  thread : s.hasThread = false ↔ s.svc = .unborn
  live : ∀ fe ∈ s.active, get s.fdTable fe.fd = some fe
  nodup : s.active.Nodup
  idle : (s.svc = .unborn ∨ ∃ rfd, s.svc = .selecting rfd) → s.listPending = []
  rfd : ∀ {rfd}, s.svc = .selecting rfd → rfd.Nodup ∧ ∀ fd ∈ rfd, (get s.fdTable fd).isSome
  watched : ∀ {fd}, (get s.fdTable fd).isSome → s.Watches fd

variable {s : Engservice}

theorem Inv.selectable (h : s.Inv) : s.Selectable := by
  intro fd _ hsome
  obtain ⟨fe, hfe⟩ := Option.isSome_iff_exists.mp hsome
  rw [(h.event hfe).2]
  rfl

theorem Inv.owned (h : s.Inv) : s.Owned where
  own := h.files.owned
  closed := by
    intro conn hconn
    obtain ⟨hlt, hwatched⟩ := h.clients conn (h.gone conn hconn)
    rcases h.files.closed_eq hlt with hone | ⟨hzero, fd, hfd⟩
    · exact Or.inl hone
    refine Or.inr ⟨hzero, Or.inr ?_⟩
    rcases hwatched fd hfd with hmain | hsome
    · exact Or.inl ⟨fd, hmain⟩
    · obtain ⟨fe, hfe⟩ := Option.isSome_iff_exists.mp hsome
      obtain ⟨rfl, hslot⟩ := h.event hfe
      have heq : fe.conn = conn := Option.some.inj (hslot.symm.trans hfd)
      exact Or.inr ⟨h.selectable, fe, mem_of_get hfe, heq, h.goneFunc hfe (heq ▸ hconn),
        h.watched hsome⟩

theorem get_replicate_none {α : Type*} (n i : ℕ) :
    get (List.replicate n (none : Option α)) i = none := by
  rw [SlotTable.get, List.getElem?_replicate]
  split_ifs <;> rfl

theorem inv_start (n : ℕ) : (start n).Inv where
  files := Handles.valid_start n
  event h := by cases h
  info h := by
    rw [start, get_replicate_none] at h
    cases h
  infoInj h := by
    rw [start, get_replicate_none] at h
    cases h
  listed h := by cases h
  main := trivial
  stale h := by cases h
  closing h := by cases h
  clients := by
    intro conn hconn
    cases hconn
  gone := by
    intro conn hconn
    cases hconn
  goneFunc h := by cases h
  thread := Iff.intro (fun _ => rfl) fun _ => rfl
  live := by
    intro fe hfe
    cases hfe
  nodup := List.nodup_nil
  idle _ := rfl
  rfd h := by cases h
  watched h := by cases h

/-! ## Steps that leave the tables as they are -/

/-- `s'` has the descriptors and the tables of `s`. -/
structure Kept (s s' : Engservice) : Prop where
  files : s'.files = s.files
  fdTable : s'.fdTable = s.fdTable
  clientInfo : s'.clientInfo = s.clientInfo
  hasThread : s'.hasThread = s.hasThread
  main : s'.main = s.main
  clients : s'.clients = s.clients
  gone : s'.gone = s.gone

theorem Kept.trans {s s' s'' : Engservice} (h : s.Kept s') (h' : s'.Kept s'') : s.Kept s'' :=
  ⟨h'.files.trans h.files, h'.fdTable.trans h.fdTable, h'.clientInfo.trans h.clientInfo,
    h'.hasThread.trans h.hasThread, h'.main.trans h.main, h'.clients.trans h.clients,
    h'.gone.trans h.gone⟩

theorem engWrite_kept (s : Engservice) (fd : ℕ) (bytes : List Tagged) :
    s.Kept (s.engWrite fd bytes) := by
  unfold engWrite
  repeat' split
  all_goals exact ⟨rfl, rfl, rfl, rfl, rfl, rfl, rfl⟩

/-- Such a step keeps the invariant when it keeps what depends on the thread of
`fdevent_loop`. -/
theorem Inv.of_kept (h : s.Inv) {s' : Engservice} (hk : s.Kept s')
    (hstale : s'.svc.stale = s.svc.stale)
    (hclosing : ∀ {fd}, s'.svc.closing = some fd → s.svc.closing = some fd)
    (hthread : s'.svc = .unborn ↔ s.svc = .unborn) (hactive : s'.active.Sublist s.active ∨
      (∀ fe ∈ s'.active, get s.fdTable fe.fd = some fe) ∧ s'.active.Nodup)
    (hidle : (s'.svc = .unborn ∨ ∃ rfd, s'.svc = .selecting rfd) → s'.listPending = [])
    (hrfd : ∀ {rfd}, s'.svc = .selecting rfd →
      rfd.Nodup ∧ ∀ fd ∈ rfd, (get s.fdTable fd).isSome)
    (hwatched : ∀ {fd}, (get s.fdTable fd).isSome → s'.Watches fd) : s'.Inv where
  files := hk.files ▸ h.files
  event := by
    rw [hk.fdTable, hk.files]
    exact h.event
  info := by
    rw [hk.clientInfo, hk.fdTable, hstale]
    exact h.info
  infoInj := by
    rw [hk.clientInfo, hstale]
    exact h.infoInj
  listed := by
    rw [hk.fdTable, hk.main, hk.clientInfo, hstale]
    exact h.listed
  main := by
    have hready := h.main
    unfold MainReady engEventCanReg at hready ⊢
    rw [hk.main, hk.files, hk.fdTable, hk.clientInfo, hk.gone, hstale]
    exact hready
  stale := by
    rw [hk.clientInfo, hstale]
    exact h.stale
  closing := by
    intro fd hfd
    rw [hk.files]
    exact h.closing (hclosing hfd)
  clients := by
    rw [hk.clients, hk.files, hk.main, hk.fdTable]
    exact h.clients
  gone := by
    rw [hk.gone, hk.clients]
    exact h.gone
  goneFunc := by
    rw [hk.fdTable, hk.gone]
    exact h.goneFunc
  thread := by
    rw [hk.hasThread, hthread]
    exact h.thread
  live := by
    rw [hk.fdTable]
    rcases hactive with hsub | ⟨hlive, -⟩
    · exact fun fe hfe => h.live fe (hsub.subset hfe)
    · exact hlive
  nodup := by
    rcases hactive with hsub | ⟨-, hnodup⟩
    · exact h.nodup.sublist hsub
    · exact hnodup
  idle := hidle
  rfd := by
    rw [hk.fdTable]
    exact hrfd
  watched := by
    rw [hk.fdTable]
    exact hwatched

/-- What a step in a callback keeps. -/
structure Moves (s s' : Engservice) : Prop where
  kept : s.Kept s'
  busy : s'.svc.busy
  active : s'.active.Sublist s.active

theorem watches_of_busy {s : Engservice} (h : s.svc.busy) (fd : ℕ) : s.Watches fd := by
  unfold Watches
  revert h
  cases s.svc <;> intro h <;> trivial

theorem Inv.moves (h : s.Inv) (hs : s.svc.busy) {s' : Engservice} (hm : s.Moves s') : s'.Inv := by
  have hno := SvcThread.not_waits_of_busy hm.busy
  refine h.of_kept hm.kept ?_ ?_ ?_ (Or.inl hm.active) ?_ ?_ ?_
  · rw [SvcThread.stale_of_busy hm.busy, SvcThread.stale_of_busy hs]
  · intro fd hfd
    rw [SvcThread.closing_of_busy hm.busy] at hfd
    cases hfd
  · have hold := SvcThread.not_waits_of_busy hs
    exact iff_of_false (fun heq => hno (Or.inl heq)) fun heq => hold (Or.inl heq)
  · exact fun hw => absurd hw hno
  · exact fun heq => absurd (Or.inr ⟨_, heq⟩) hno
  · exact fun _ => watches_of_busy hm.busy _

/-! ## Callbacks -/

theorem Moves.ended (hs : s.svc.busy) : s.Moves { s with ended := true } :=
  ⟨⟨rfl, rfl, rfl, rfl, rfl, rfl, rfl⟩, hs, List.Sublist.refl _⟩

theorem Moves.of_svc {s' : Engservice} (hk : s.Kept s') (hbusy : s'.svc.busy)
    (hfe : s'.svc.fe = s.svc.fe ∨ s'.svc.fe = none) (hlist : s'.listPending = s.listPending) :
    s.Moves s' where
  kept := hk
  busy := hbusy
  active := by
    unfold Engservice.active
    rw [hlist]
    refine List.Sublist.append ?_ (List.Sublist.refl _)
    rcases hfe with hfe | hfe
    · rw [hfe]
    · rw [hfe]
      exact List.nil_sublist _

theorem engWrite_svc (s : Engservice) (fd : ℕ) (bytes : List Tagged) :
    (s.engWrite fd bytes).svc = s.svc ∧ (s.engWrite fd bytes).listPending = s.listPending := by
  unfold engWrite
  repeat' split
  all_goals exact ⟨rfl, rfl⟩

theorem Moves.engWrite {s' : Engservice} (hk : s.Kept s') (hsvc : s'.svc = .looping)
    (hlist : s'.listPending = s.listPending) (fd : ℕ) (bytes : List Tagged) :
    s.Moves (s'.engWrite fd bytes) := by
  obtain ⟨hsame, hpending⟩ := s'.engWrite_svc fd bytes
  refine Moves.of_svc (hk.trans (s'.engWrite_kept fd bytes)) ?_ (Or.inr ?_)
    (hpending.trans hlist)
  · rw [hsame, hsvc]
    rfl
  · rw [hsame, hsvc]
    rfl

theorem readClient_moves {fe : Fdevent} {type : ℤ} {destFd : Option ℕ}
    (hsvc : s.svc = .reading fe type destFd) (k : ℕ) (ok : Bool) :
    s.Moves (s.readClient fe type destFd k ok) := by
  have hfe : s.svc.fe = some fe := by rw [hsvc]; rfl
  unfold readClient
  cases fe.func with
  | monitorclient =>
      by_cases heof : (s.engRead fe.fd k ok).eof
      · simp only [heof, if_true]
        exact Moves.of_svc ⟨rfl, rfl, rfl, rfl, rfl, rfl, rfl⟩ rfl (Or.inl hfe.symm) rfl
      · simp only [heof]
        exact Moves.of_svc ⟨rfl, rfl, rfl, rfl, rfl, rfl, rfl⟩ rfl (Or.inr rfl) rfl
  | pcclient | adrvclient | logclient =>
      exact Moves.of_svc ⟨rfl, rfl, rfl, rfl, rfl, rfl, rfl⟩ rfl (Or.inr rfl) rfl
  | appclient | modemclient =>
      exact Moves.of_svc ⟨rfl, rfl, rfl, rfl, rfl, rfl, rfl⟩ rfl (Or.inl hfe.symm) rfl

theorem sendRequest_moves {fe : Fdevent} {destFd conn k : ℕ} {text : List UInt8} :
    s.Moves (s.sendRequest fe destFd conn k text) := by
  unfold sendRequest
  simp only
  split_ifs
  · refine Moves.engWrite ?_ ?_ ?_ destFd _
    · constructor <;> rfl
    · rfl
    · rfl
  · have hm : s.Moves ({ s with engWriteBuf := untagged text, svc := .looping }.engWrite destFd
        (untagged text)) := by
      refine Moves.engWrite ?_ ?_ ?_ destFd _
      · constructor <;> rfl
      · rfl
      · rfl
    exact ⟨{ hm.kept with }, hm.busy, hm.active⟩

theorem appclientEventFunc_moves {fe : Fdevent} {type : ℤ} {destFd : Option ℕ} {conn : ℕ}
    {eof : Bool} (hsvc : s.svc = .sending fe type destFd conn eof) (k : ℕ) :
    s.Moves (s.appclientEventFunc fe type destFd conn eof k) := by
  have hfe : s.svc.fe = some fe := by rw [hsvc]; rfl
  unfold appclientEventFunc
  split_ifs
  · exact Moves.of_svc ⟨rfl, rfl, rfl, rfl, rfl, rfl, rfl⟩ rfl (Or.inl hfe.symm) rfl
  · cases destFd with
    | none =>
        refine Moves.engWrite ?_ ?_ ?_ fe.fd _
        · constructor <;> rfl
        · rfl
        · rfl
    | some destFd =>
        simp only
        split_ifs
        · exact Moves.of_svc ⟨rfl, rfl, rfl, rfl, rfl, rfl, rfl⟩ rfl (Or.inr rfl) rfl
        · exact sendRequest_moves
        · exact Moves.ended (by rw [hsvc]; rfl)

theorem respond_moves {fe : Fdevent} {eof : Bool} {destFd : ℤ}
    (hsvc : s.svc = .responding fe eof destFd) (k : ℕ) : s.Moves (s.respond fe eof destFd k) := by
  have hfe : s.svc.fe = some fe := by rw [hsvc]; rfl
  unfold respond
  split_ifs
  · exact Moves.of_svc ⟨rfl, rfl, rfl, rfl, rfl, rfl, rfl⟩ rfl (Or.inl hfe.symm) rfl
  · refine Moves.engWrite ?_ ?_ ?_ _ _
    · constructor <;> rfl
    · rfl
    · rfl
  · refine Moves.engWrite ?_ ?_ ?_ _ _
    · constructor <;> rfl
    · rfl
    · rfl

theorem call_fe (s : Engservice) (fe : Fdevent) :
    (s.call fe).fe = some fe ∧ (s.call fe).busy := by
  unfold call
  cases fe.func <;> exact ⟨rfl, rfl⟩

/-- The steps of `fdevent_loop` other than those of `fdevent_process` and of
`eng_event_unreg`. -/
theorem svcStep_moves {k : ℕ} {ok : Bool} (hbusy : s.svc.busy)
    (hloop : s.svc = .looping → s.listPending ≠ []) (hleave : ∀ fe, s.svc ≠ .leaving fe) :
    s.Moves (s.svcStep k ok) := by
  unfold svcStep
  cases hsvc : s.svc with
  | unborn | selecting rfd | destroyed i fe | cleared fe =>
      rw [hsvc] at hbusy
      cases hbusy
  | leaving fe => exact absurd hsvc (hleave fe)
  | looping =>
      cases hlist : s.listPending with
      | nil => exact absurd hlist (hloop hsvc)
      | cons fe rest =>
          obtain ⟨hfe, hcall⟩ := s.call_fe fe
          refine ⟨⟨rfl, rfl, rfl, rfl, rfl, rfl, rfl⟩, hcall, ?_⟩
          simp only [active, hsvc, hlist, hfe]
          exact List.Sublist.refl _
  | entered fe type destFd =>
      exact Moves.of_svc ⟨rfl, rfl, rfl, rfl, rfl, rfl, rfl⟩ rfl (Or.inl (by rw [hsvc]; rfl)) rfl
  | reading fe type destFd => exact readClient_moves hsvc k ok
  | sending fe type destFd conn eof => exact appclientEventFunc_moves hsvc k
  | scanning fe eof =>
      have hfe : s.svc.fe = some fe := by rw [hsvc]; rfl
      simp only [scan]
      split_ifs
      · exact Moves.of_svc ⟨rfl, rfl, rfl, rfl, rfl, rfl, rfl⟩ rfl (Or.inl hfe.symm) rfl
      · exact Moves.of_svc ⟨rfl, rfl, rfl, rfl, rfl, rfl, rfl⟩ rfl (Or.inl hfe.symm) rfl
      · exact Moves.ended hbusy
  | copying fe eof ptr =>
      have hfe : s.svc.fe = some fe := by rw [hsvc]; rfl
      simp only [copyOut]
      split_ifs
      · exact Moves.of_svc ⟨rfl, rfl, rfl, rfl, rfl, rfl, rfl⟩ rfl (Or.inl hfe.symm) rfl
      · exact Moves.ended hbusy
  | cutting fe eof ptr =>
      exact Moves.of_svc ⟨rfl, rfl, rfl, rfl, rfl, rfl, rfl⟩ rfl (Or.inl (by rw [hsvc]; rfl)) rfl
  | parsing fe eof =>
      have hfe : s.svc.fe = some fe := by rw [hsvc]; rfl
      simp only [parseFd]
      split_ifs
      · exact Moves.of_svc ⟨rfl, rfl, rfl, rfl, rfl, rfl, rfl⟩ rfl (Or.inl hfe.symm) rfl
      · exact Moves.ended hbusy
  | responding fe eof destFd => exact respond_moves hsvc k

/-! ## `fdevent_process` -/

theorem mem_readFds {fd : ℕ} : fd ∈ s.readFds ↔ (get s.fdTable fd).isSome := by
  rw [readFds, List.mem_filter, List.mem_range, and_iff_right_iff_imp]
  intro hsome
  by_contra hle
  rw [get_of_length_le (Nat.not_lt.mp hle)] at hsome
  cases hsome

theorem Inv.process (h : s.Inv) (hsvc : s.svc = .looping) (hlist : s.listPending = []) :
    Inv { s with svc := .selecting s.readFds } := by
  refine @Inv.of_kept s h _ ⟨rfl, rfl, rfl, rfl, rfl, rfl, rfl⟩ ?_ ?_ ?_ (Or.inl ?_) ?_ ?_ ?_
  · rw [hsvc]
    rfl
  · intro fd hfd
    cases hfd
  · rw [hsvc]
    exact iff_of_false (fun heq => by cases heq) fun heq => by cases heq
  · exact List.sublist_append_right _ _
  · exact fun _ => hlist
  · rintro rfd ⟨⟩
    exact ⟨List.nodup_range.filter _, fun fd hfd => mem_readFds.mp hfd⟩
  · exact fun hfd => Or.inl (mem_readFds.mpr hfd)

/-- `select` returns, and the clients that it has found are queued. -/
theorem Inv.select (h : s.Inv) {rfd : List ℕ} (hsvc : s.svc = .selecting rfd) :
    (s.select rfd).Inv := by
  obtain ⟨hnodup, hsome⟩ := h.rfd hsvc
  have hlist : s.listPending = [] := h.idle (Or.inr ⟨rfd, hsvc⟩)
  have hstale : SvcThread.looping.stale = s.svc.stale := by
    rw [hsvc]
    rfl
  have hborn : SvcThread.looping = .unborn ↔ s.svc = .unborn := by
    rw [hsvc]
    exact iff_of_false (fun heq => by cases heq) fun heq => by cases heq
  unfold Engservice.select
  split
  · exact h
  · next hfds =>
    split_ifs
    · exact { h with }
    · have hevent : ∀ fe ∈ (rfd.filter s.readable).filterMap (get s.fdTable),
          get s.fdTable fe.fd = some fe := by
        intro fe hfe
        obtain ⟨fd, -, hget⟩ := List.mem_filterMap.mp hfe
        rw [(h.event hget).1, hget]
      refine @Inv.of_kept s h _ ⟨rfl, rfl, rfl, rfl, rfl, rfl, rfl⟩ hstale
        (fun heq => by cases heq) hborn (Or.inr ⟨?_, ?_⟩) ?_ (fun heq => by cases heq)
        fun _ => trivial
      · intro fe hfe
        change fe ∈ [] ++ (s.listPending ++ _) at hfe
        rw [hlist] at hfe
        exact hevent fe hfe
      · change ([] ++ (s.listPending ++ _)).Nodup
        rw [hlist]
        refine List.Pairwise.filterMap _ ?_ (hnodup.filter _)
        rintro fd fd' hne fe hfd _ hfd' rfl
        exact hne ((h.event hfd).1.symm.trans (h.event hfd').1)
      · rintro (heq | ⟨_, heq⟩) <;> cases heq

/-! ## The steps of the main thread -/

/-- What ends a `select` still does when the files it looks at are the same. -/
theorem Wakes.of_same {s s' : Engservice} {fd : ℕ} (h : s.Wakes fd)
    (hslot : get s'.files.slots fd = get s.files.slots fd)
    (htable : get s'.fdTable fd = get s.fdTable fd)
    (hinbox : ∀ conn, get s.files.slots fd = some conn → s.inbox conn ≠ [] → s'.inbox conn ≠ [])
    (hgone : ∀ conn ∈ s.gone, conn ∈ s'.gone)
    (htold : ∀ conn ∈ s.told, conn ∈ s'.told ∨ s'.inbox conn ≠ []) : s'.Wakes fd := by
  unfold Wakes readable IsMonitor at h ⊢
  rw [hslot, htable]
  rcases h with h | ⟨hmon, conn, hconn, hget⟩
  · left
    cases hget : get s.files.slots fd with
    | none =>
        rw [hget] at h
        cases h
    | some conn =>
        rw [hget] at h
        simp only [Option.any_some, Bool.or_eq_true, decide_eq_true_eq] at h ⊢
        exact h.imp (hinbox conn hget) (hgone conn)
  · rcases htold conn hconn with hin | hread
    · exact Or.inr ⟨hmon, conn, hin, hget⟩
    · left
      rw [hget]
      simp only [Option.any_some, Bool.or_eq_true, decide_eq_true_eq]
      exact Or.inl hread

theorem Watches.mono {s s' : Engservice} {fd : ℕ} (h : s.Watches fd) (hsvc : s'.svc = s.svc)
    (hmain : s.main.untold → s'.main.untold)
    (hwake : ∀ rfd, s.svc = .selecting rfd → ∀ fd ∈ rfd, s.Wakes fd → s'.Wakes fd) :
    s'.Watches fd := by
  unfold Watches at h ⊢
  rw [hsvc]
  cases hpos : s.svc with
  | unborn =>
      rw [hpos] at h
      exact hmain h
  | selecting rfd =>
      rw [hpos] at h
      rcases h with hin | huntold | ⟨fd', hfd', hw⟩
      · exact Or.inl hin
      · exact Or.inr (Or.inl (hmain huntold))
      · exact Or.inr (Or.inr ⟨fd', hfd', hwake rfd hpos fd' hfd' hw⟩)
  | _ => trivial

theorem Inv.watched_of_main (h : s.Inv) (s' : Engservice)
    (hsame : s'.svc = s.svc ∧ s'.gone = s.gone ∧ s'.told = s.told)
    (hmain : s.main.untold → s'.main.untold)
    (htable : ∀ fd fe, get s.fdTable fd = some fe → get s'.fdTable fd = some fe ∧
      get s'.files.slots fd = get s.files.slots fd ∧ s'.inbox fe.conn = s.inbox fe.conn)
    {fd : ℕ} (hfd : (get s.fdTable fd).isSome) : s'.Watches fd := by
  obtain ⟨hsvc, hgone, htold⟩ := hsame
  refine (h.watched hfd).mono hsvc hmain ?_
  intro rfd hrfd fd' hfd' hw
  obtain ⟨fe, hfe⟩ := Option.isSome_iff_exists.mp ((h.rfd hrfd).2 fd' hfd')
  obtain ⟨hentry, hslot, hinbox⟩ := htable fd' fe hfe
  refine hw.of_same hslot (hentry.trans hfe.symm) ?_ ?_ fun conn hconn => Or.inl ?_
  · intro conn hconn
    rw [(h.event hfe).2] at hconn
    cases hconn
    rw [hinbox]
    exact id
  · rw [hgone]
    exact fun _ => id
  · rw [htold]
    exact hconn

theorem Inv.accept (h : s.Inv) (hmain : s.main = .accepting)
    (hsafe : s.svc.closing ≠ some (lowestFree s.files.slots)) : s.accept.Inv := by
  unfold Engservice.accept
  split_ifs
  swap
  · exact h
  have hfree : get s.files.slots (lowestFree s.files.slots) = none := get_lowestFree _
  have hslot : ∀ fd, get s.files.openFile.slots fd =
      if fd = lowestFree s.files.slots then some s.files.next else get s.files.slots fd :=
    fun fd => get_alloc _ _ fd
  have hne : ∀ {fd fe}, get s.fdTable fd = some fe → fd ≠ lowestFree s.files.slots := by
    rintro fd fe hfe rfl
    rw [(h.event hfe).2] at hfree
    cases hfree
  exact
    { h with
      files := h.files.openFile
      event := by
        intro fd fe hfe
        rw [hslot, if_neg (hne hfe)]
        exact h.event hfe
      listed := by
        intro fd fe hfe
        rcases h.listed hfe with ⟨c, hcreated, -⟩ | hlisted
        · rw [hmain] at hcreated
          cases hcreated
        · exact Or.inr hlisted
      main := by
        refine ⟨by rw [hslot, if_pos rfl], ?_⟩
        rw [Option.eq_none_iff_forall_ne_some]
        intro fe hfe
        exact hne hfe rfl
      closing := by
        intro fd hfd
        rw [hslot, if_neg]
        · exact h.closing hfd
        · rintro rfl
          exact hsafe hfd
      clients := by
        intro conn hconn
        rcases List.mem_cons.mp hconn with rfl | hconn
        · refine ⟨Nat.lt_succ_self _, fun fd hfd => Or.inl ?_⟩
          rw [hslot] at hfd
          split_ifs at hfd with heq
          · rw [heq]
            rfl
          · exact absurd (h.files.lt hfd) (Nat.lt_irrefl _)
        obtain ⟨hlt, hwatched⟩ := h.clients conn hconn
        refine ⟨Nat.lt_succ_of_lt hlt, fun fd hfd => ?_⟩
        rw [hslot] at hfd
        split_ifs at hfd
        · cases hfd
          exact absurd hlt (Nat.lt_irrefl _)
        · rcases hwatched fd hfd with hat | hsome
          · rw [hmain] at hat
            cases hat
          · exact Or.inr hsome
      gone := fun conn hconn => List.mem_cons_of_mem _ (h.gone conn hconn)
      watched := by
        intro fd hfd
        refine h.watched_of_main _ ?_ ?_ ?_ hfd
        · exact ⟨rfl, rfl, rfl⟩
        · rw [hmain]
          exact fun huntold => by cases huntold
        · intro fd' fe hfe
          exact ⟨hfe, by rw [hslot, if_neg (hne hfe)], rfl⟩ }

/-- A step between two points of the main thread that leaves the tables as they are. -/
theorem Inv.of_main (h : s.Inv) {m : MainThread} (hm : MainReady { s with main := m })
    (hcreated : ∀ c, s.main = .created c → m = .created c) (hconn : m.entering = s.main.entering)
    (huntold : s.main.untold → m.untold) : Inv { s with main := m } :=
  { h with
    listed := by
      intro fd fe hfe
      rcases h.listed hfe with ⟨c, hc, heq⟩ | hlisted
      · exact Or.inl ⟨c, hcreated c hc, heq⟩
      · exact Or.inr hlisted
    main := hm
    clients := by
      intro conn hc
      rw [hconn]
      exact h.clients conn hc
    watched := by
      intro fd hfd
      refine h.watched_of_main _ ?_ ?_ ?_ hfd
      · exact ⟨rfl, rfl, rfl⟩
      · exact huntold
      · exact fun _ _ hfe => ⟨hfe, rfl, rfl⟩ }

theorem Inv.main_at (h : s.Inv) {m : MainThread} (hmain : s.main = m) :
    MainReady { s with main := m } := by
  subst hmain
  exact h.main

theorem Inv.canReg (h : s.Inv) {conn fd : ℕ} (hmain : s.main = .accepted conn fd)
    (hroom : s.engEventCanReg) : Inv { s with engReadBuf := [], main := .reading conn fd } := by
  obtain ⟨hopen, hnone⟩ : get s.files.slots fd = some conn ∧ get s.fdTable fd = none :=
    h.main_at hmain
  have hinv : Inv { s with main := .reading conn fd } := by
    refine h.of_main ⟨hopen, hnone, hroom⟩ ?_ ?_ ?_
    · intro c hc
      rw [hmain] at hc
      cases hc
    · rw [hmain]
      rfl
    · rw [hmain]
      exact fun huntold => by cases huntold
  exact { hinv with }

theorem Inv.refusable (h : s.Inv) {conn fd : ℕ}
    (hmain : s.main = .reading conn fd ∨ s.main = .named conn fd) :
    (get s.files.slots fd = some conn ∧ get s.fdTable fd = none ∧ s.engEventCanReg) ∧
      s.main.entering = some (conn, fd) ∧ s.main.untold = false ∧ ∀ c, s.main ≠ .created c := by
  rcases hmain with hmain | hmain
  all_goals
    have hready : get s.files.slots fd = some conn ∧ get s.fdTable fd = none ∧
        s.engEventCanReg := h.main_at hmain
    rw [hmain]
    exact ⟨hready, rfl, rfl, fun c heq => by cases heq⟩

theorem Inv.refuse (h : s.Inv) {conn fd : ℕ}
    (hmain : s.main = .reading conn fd ∨ s.main = .named conn fd) : (s.refuse conn fd).Inv := by
  obtain ⟨⟨hopen, hnone, -⟩, hentering, huntold, hcreated⟩ := h.refusable hmain
  have hvalid : (s.files.close conn fd).Valid := h.files.close fun file hfile =>
    Option.some.inj (hfile.symm.trans hopen)
  have hslot : ∀ i, get (s.files.close conn fd).slots i =
      if i = fd then none else get s.files.slots i := fun i => get_free _ _ i
  have hne : ∀ {i fe}, get s.fdTable i = some fe → i ≠ fd := by
    rintro i fe hfe rfl
    rw [hnone] at hfe
    cases hfe
  exact
    { h with
      files := hvalid
      event := by
        intro i fe hfe
        obtain ⟨hfd, hget⟩ := h.event hfe
        refine ⟨hfd, ?_⟩
        change get (s.files.close conn fd).slots i = _
        rw [hslot, if_neg (hne hfe), hget]
      listed := by
        intro i fe hfe
        rcases h.listed hfe with ⟨c, hc, -⟩ | hlisted
        · exact absurd hc (hcreated c)
        · exact Or.inr hlisted
      main := trivial
      closing := by
        intro i hi
        change get (s.files.close conn fd).slots i = none
        rw [hslot]
        split_ifs
        · rfl
        · exact h.closing hi
      clients := by
        intro c hc
        obtain ⟨hlt, hwatched⟩ := h.clients c hc
        refine ⟨hlt, fun i hi => ?_⟩
        change get (s.files.close conn fd).slots i = some c at hi
        rw [hslot] at hi
        split_ifs at hi with hi'
        rcases hwatched i hi with hat | hsome
        · rw [hentering] at hat
          cases hat
          exact absurd rfl hi'
        · exact Or.inr hsome
      watched := by
        intro i hi
        refine h.watched_of_main _ ?_ ?_ ?_ hi
        · exact ⟨rfl, rfl, rfl⟩
        · rw [huntold]
          exact fun heq => by cases heq
        · exact fun j fe hfe => ⟨hfe, by
            change get (s.files.close conn fd).slots j = _
            rw [hslot, if_neg (hne hfe)], rfl⟩ }

theorem Inv.engWrite (h : s.Inv) (fd : ℕ) (bytes : List Tagged) : (s.engWrite fd bytes).Inv := by
  unfold Engservice.engWrite
  repeat' split
  all_goals exact { h with }

theorem Inv.refuseUnmonitored (h : s.Inv) {conn fd : ℕ} (hmain : s.main = .named conn fd) :
    (s.refuseUnmonitored conn fd).Inv := by
  have hinv := h.engWrite fd (untagged ENG_DESTERROR)
  have hk := s.engWrite_kept fd (untagged ENG_DESTERROR)
  unfold Engservice.refuseUnmonitored
  simp only
  split_ifs
  · exact hinv
  · exact hinv.refuse (Or.inr (hk.main.trans hmain))

/-- The registration that the main thread reads is not on a descriptor that `select` looks at. -/
theorem Inv.readName (h : s.Inv) {conn fd : ℕ} (hmain : s.main = .reading conn fd) (k : ℕ)
    (ok : Bool) : (s.readName conn fd k ok).Inv := by
  obtain ⟨⟨hopen, hnone, hroom⟩, hentering, huntold, hcreated⟩ := h.refusable (Or.inl hmain)
  unfold Engservice.readName
  cases s.engRead fd k ok with
  | nothing => exact h
  | error => exact h.refuse (Or.inl hmain)
  | data bytes =>
      exact
        { h with
          listed := by
            intro i fe hfe
            rcases h.listed hfe with ⟨c, hc, -⟩ | hlisted
            · exact absurd hc (hcreated c)
            · exact Or.inr hlisted
          main := ⟨hopen, hnone, hroom⟩
          clients := by
            intro c hc
            have hclient := h.clients c hc
            rw [hentering] at hclient
            exact hclient
          watched := by
            intro i hi
            refine h.watched_of_main _ ?_ ?_ ?_ hi
            · exact ⟨rfl, rfl, rfl⟩
            · rw [huntold]
              exact fun heq => by cases heq
            · intro j fe hfe
              refine ⟨hfe, rfl, ?_⟩
              change consume s fd bytes.length fe.conn = _
              rw [consume, if_neg]
              intro hget
              -- a file is open under one number
              rw [h.files.inj hget (h.event hfe).2, hfe] at hnone
              cases hnone }

theorem Inv.parseName (h : s.Inv) {conn fd : ℕ} (hmain : s.main = .named conn fd)
    (hsafe : ∀ r ∈ s.getnametype, ∀ c ∈ s.newClient conn fd r.2 r.1,
      conn ∈ s.gone → c.fe.func.unregisters) : (s.parseName conn fd).Inv := by
  obtain ⟨⟨hopen, hnone, hroom⟩, hentering, huntold, hcreated⟩ := h.refusable (Or.inr hmain)
  unfold Engservice.parseName
  cases hname : s.getnametype with
  | none => exact { h with }
  | some r =>
      obtain ⟨type, regname⟩ := r
      simp only
      cases hclient : s.newClient conn fd regname type with
      | none =>
          simp only
          split_ifs
          · exact h.refuseUnmonitored hmain
          · exact h.refuse (Or.inr hmain)
      | some c =>
          have hc : c.fe.conn = conn ∧ c.fe.fd = fd := by
            unfold newClient at hclient
            split_ifs at hclient
            obtain ⟨func, -, rfl⟩ := Option.map_eq_some_iff.mp hclient
            exact ⟨rfl, rfl⟩
          have hunreg := hsafe _ hname c hclient
          rw [← hc.1, ← hc.2] at hopen hentering
          rw [← hc.2] at hnone
          have hinv : Inv { s with main := .creating c } := by
            refine h.of_main ⟨hopen, hnone, hroom, ?_⟩ ?_ hentering.symm ?_
            · rw [hc.1]
              exact hunreg
            · exact fun c' hc' => absurd hc' (hcreated c')
            · rw [huntold]
              exact fun heq => by cases heq
          exact { hinv with }

theorem Inv.create (h : s.Inv) {c : ClientInfo} (hmain : s.main = .creating c) :
    Inv { s with fdTable := put s.fdTable c.fe.fd c.fe, main := .created c } := by
  obtain ⟨hopen, hnone, hroom, hgone⟩ : get s.files.slots c.fe.fd = some c.fe.conn ∧
      get s.fdTable c.fe.fd = none ∧ s.engEventCanReg ∧
        (c.fe.conn ∈ s.gone → c.fe.func.unregisters) := h.main_at hmain
  have hnew : ∀ i, get (put s.fdTable c.fe.fd c.fe) i =
      if i = c.fe.fd then some c.fe else get s.fdTable i := fun i => get_put _ _ _ i
  have hold : ∀ {i fe}, get s.fdTable i = some fe → i ≠ c.fe.fd := by
    rintro i fe hfe rfl
    rw [hnone] at hfe
    cases hfe
  have hkeep : ∀ {i fe}, get s.fdTable i = some fe →
      get (put s.fdTable c.fe.fd c.fe) i = some fe := by
    intro i fe hfe
    rw [hnew, if_neg (hold hfe), hfe]
  exact
    { h with
      event := by
        intro i fe hfe
        rw [hnew] at hfe
        split_ifs at hfe with hi
        · cases hfe
          exact ⟨hi.symm, hi ▸ hopen⟩
        · exact h.event hfe
      info := fun hi hsi => hkeep (h.info hi hsi)
      listed := by
        intro i fe hfe
        rw [hnew] at hfe
        split_ifs at hfe
        · cases hfe
          exact Or.inl ⟨c, rfl, rfl⟩
        · rcases h.listed hfe with ⟨c', hc', -⟩ | hlisted
          · rw [hmain] at hc'
            cases hc'
          · exact Or.inr hlisted
      main := by
        refine ⟨by rw [hnew, if_pos rfl], hroom, fun i c' hi heq => ?_⟩
        by_contra hstale
        exact hold (h.info hi hstale) (congrArg Fdevent.fd heq)
      clients := by
        intro conn hconn
        obtain ⟨hlt, hwatched⟩ := h.clients conn hconn
        refine ⟨hlt, fun i hi => Or.inr ?_⟩
        rw [hnew]
        split_ifs with hne
        · rfl
        · rcases hwatched i hi with hat | hsome
          · rw [hmain] at hat
            cases hat
            exact absurd rfl hne
          · exact hsome
      goneFunc := by
        intro i fe hfe
        rw [hnew] at hfe
        split_ifs at hfe
        · cases hfe
          exact hgone
        · exact h.goneFunc hfe
      live := fun fe hfe => hkeep (h.live fe hfe)
      rfd := by
        intro rfd hrfd
        refine ⟨(h.rfd hrfd).1, fun fd hfd => ?_⟩
        obtain ⟨fe, hfe⟩ := Option.isSome_iff_exists.mp ((h.rfd hrfd).2 fd hfd)
        rw [hkeep hfe]
        rfl
      -- the new client has to be told of, and so has every other one
      watched := by
        intro fd _
        unfold Watches
        cases s.svc <;> first | trivial | exact Or.inr (Or.inl rfl) }

/-- `client_info_update`. -/
theorem Inv.update (h : s.Inv) {c : ClientInfo} (hmain : s.main = .created c) :
    Inv { s with clientInfo := s.clientInfoUpdate c, main := .updated c.fe.fd } := by
  obtain ⟨hget, hroom, hnot⟩ : get s.fdTable c.fe.fd = some c.fe ∧ s.engEventCanReg ∧
      ∀ i c', get s.clientInfo i = some c' → c'.fe = c.fe → s.svc.stale = some i :=
    h.main_at hmain
  have hlt : lowestFree s.clientInfo < s.clientInfo.length := by
    simpa [engEventCanReg] using hroom
  have hnew : ∀ i, get (alloc s.clientInfo c) i =
      if i = lowestFree s.clientInfo then some c else get s.clientInfo i :=
    fun i => get_alloc _ _ i
  have hstale : s.svc.stale ≠ some (lowestFree s.clientInfo) := fun heq =>
    h.stale heq (get_lowestFree _)
  have heq : s.clientInfoUpdate c = alloc s.clientInfo c := by
    rw [clientInfoUpdate, if_pos hlt]
  rw [heq]
  exact
    { h with
      info := by
        intro i c' hc' hi
        rw [hnew] at hc'
        split_ifs at hc'
        · cases hc'
          exact hget
        · exact h.info hc' hi
      infoInj := by
        intro i j a b hi hj hab hsi hsj
        rw [hnew] at hi hj
        split_ifs at hi hj with h1 h2 h2
        · exact h1.trans h2.symm
        · cases hi
          exact absurd (hnot j b hj hab.symm) hsj
        · cases hj
          exact absurd (hnot i a hi hab) hsi
        · exact h.infoInj hi hj hab hsi hsj
      listed := by
        intro fd fe hfe
        refine Or.inr ?_
        rcases h.listed hfe with ⟨c', hc', rfl⟩ | ⟨i, c', hi, hc', hsi⟩
        · rw [hmain] at hc'
          cases hc'
          exact ⟨lowestFree s.clientInfo, c, by rw [hnew, if_pos rfl], rfl, hstale⟩
        · refine ⟨i, c', ?_, hc', hsi⟩
          rw [hnew, if_neg, hi]
          rintro rfl
          rw [get_lowestFree] at hi
          cases hi
      main := trivial
      stale := by
        intro i hi
        rw [hnew]
        split_ifs
        · exact Option.some_ne_none c
        · exact h.stale hi
      clients := by
        intro conn hconn
        have hold := h.clients conn hconn
        rw [hmain] at hold
        exact hold
      watched := by
        intro fd hfd
        refine h.watched_of_main _ ?_ ?_ ?_ hfd
        · exact ⟨rfl, rfl, rfl⟩
        · exact fun _ => rfl
        · exact fun _ _ hfe => ⟨hfe, rfl, rfl⟩ }

/-- A monitor that has been told ends a `select` that does not know of every client. -/
theorem Inv.watches_of_told (h : s.Inv) (hborn : s.svc ≠ .unborn) (hmon : s.MonitorWatched)
    (told : List ℕ) (htold : ∀ m fe, s.monitorSvcFd = some m → get s.fdTable m = some fe →
      fe.conn ∈ told) {fd : ℕ} (hfd : (get s.fdTable fd).isSome) :
    Watches { s with main := .accepting, told } fd := by
  unfold MonitorWatched at hmon
  unfold Watches
  cases hsvc : s.svc with
  | unborn => exact absurd hsvc hborn
  | selecting rfd =>
      rw [hsvc] at hmon
      rcases hmon with hall | ⟨m, hm, hsome, hismon⟩
      · exact Or.inl (hall fd (List.mem_range.mp (List.mem_filter.mp (mem_readFds.mpr hfd)).1) hfd)
      · obtain ⟨fe, hfe⟩ := Option.isSome_iff_exists.mp ((h.rfd hsvc).2 m hm)
        refine Or.inr (Or.inr ⟨m, hm, Or.inr ⟨hismon, fe.conn, ?_, (h.event hfe).2⟩⟩)
        exact htold m fe hsome hfe
  | _ => trivial

/-- The end of a turn of `main` that leaves the tables as they are. -/
theorem Inv.turn (h : s.Inv) {fd : ℕ} (hmain : s.main = .updated fd) (told : List ℕ)
    (hwatched : ∀ {i}, (get s.fdTable i).isSome → Watches { s with main := .accepting, told } i) :
    Inv { s with main := .accepting, told } :=
  { h with
    listed := by
      intro i fe hfe
      rcases h.listed hfe with ⟨c, hc, -⟩ | hlisted
      · rw [hmain] at hc
        cases hc
      · exact Or.inr hlisted
    main := trivial
    clients := by
      intro conn hconn
      have hold := h.clients conn hconn
      rw [hmain] at hold
      exact hold
    watched := hwatched }

theorem Inv.tell (h : s.Inv) {fd : ℕ} (hmain : s.main = .updated fd) {ok : Bool}
    (hok : s.hasThread = false → ok) (hmon : s.MonitorWatched) : (s.tell ok).Inv := by
  unfold Engservice.tell
  by_cases hthread : s.hasThread
  · rw [if_pos hthread]
    have hborn : s.svc ≠ .unborn := by
      intro heq
      rw [← h.thread, hthread] at heq
      cases heq
    cases hm : s.monitorSvcFd with
    | none =>
        have hturn := h.turn hmain s.told fun hfd => h.watches_of_told hborn hmon s.told
          (fun m fe heq => by rw [hm] at heq; cases heq) hfd
        exact { hturn with }
    | some m =>
        have hturn := h.turn hmain (s.peers m ++ s.told) fun hfd =>
          h.watches_of_told hborn hmon (s.peers m ++ s.told) (fun m' fe heq hfe => by
            rw [hm] at heq
            cases heq
            rw [peers, (h.event hfe).2]
            exact List.mem_append_left _ List.mem_cons_self) hfd
        simp only [Engservice.engWrite]
        repeat' split
        all_goals exact { hturn with }
  · rw [if_neg hthread]
    obtain rfl : ok = true := hok (by simpa using hthread)
    have hborn : s.svc = .unborn := h.thread.mp (by simpa using hthread)
    have hlist : s.listPending = [] := h.idle (Or.inl hborn)
    have hstale : ∀ i, s.svc.stale ≠ some i := by
      rw [hborn]
      exact fun i heq => by cases heq
    exact
      { h with
        info := fun hi _ => h.info hi (hstale _)
        infoInj := fun hi hj heq _ _ => h.infoInj hi hj heq (hstale _) (hstale _)
        listed := by
          intro i fe hfe
          rcases h.listed hfe with ⟨c, hc, -⟩ | ⟨j, c, hj, hc, -⟩
          · rw [hmain] at hc
            cases hc
          · exact Or.inr ⟨j, c, hj, hc, fun heq => by cases heq⟩
        main := trivial
        stale := fun heq => by cases heq
        closing := fun heq => by cases heq
        clients := by
          intro conn hconn
          have hold := h.clients conn hconn
          rw [hmain] at hold
          exact hold
        thread := iff_of_false (fun heq => by cases heq) fun heq => by cases heq
        live := by
          intro fe hfe
          change fe ∈ [] ++ s.listPending at hfe
          rw [hlist] at hfe
          cases hfe
        nodup := by
          change ([] ++ s.listPending).Nodup
          rw [hlist]
          exact List.nodup_nil
        idle := fun _ => hlist
        rfd := fun heq => by cases heq
        watched := fun _ => trivial }

theorem Inv.mainStep (h : s.Inv) {k : ℕ} {ok : Bool} (hsafe : s.MainSafe ok) :
    (s.mainStep k ok).Inv := by
  unfold MainSafe at hsafe
  unfold Engservice.mainStep
  cases hmain : s.main with
  | accepting =>
      rw [hmain] at hsafe
      exact h.accept hmain hsafe
  | accepted conn fd =>
      rw [hmain] at hsafe
      simp only [hsafe, if_true]
      exact h.canReg hmain hsafe
  | reading conn fd => exact h.readName hmain k ok
  | named conn fd =>
      rw [hmain] at hsafe
      exact h.parseName hmain hsafe
  | creating c =>
      rw [hmain] at hsafe
      simp only [hsafe.1, if_true]
      exact h.create hmain
  | created c => exact h.update hmain
  | updated fd =>
      rw [hmain] at hsafe
      simp only
      split_ifs
      · exact h.engWrite fd _
      · have hinv := h.engWrite fd (untagged ENG_WELCOME)
        have hk := s.engWrite_kept fd (untagged ENG_WELCOME)
        refine hinv.tell (hk.main.trans hmain) (by rw [hk.hasThread]; exact hsafe.1) ?_
        have hmon := hsafe.2
        unfold Engservice.engWrite
        repeat' split
        all_goals exact hmon

/-! ## `eng_event_unreg` -/

/-- A client that is in the registry is found there by its number. -/
theorem Inv.find (h : s.Inv) {fe : Fdevent} (hsvc : s.svc = .leaving fe)
    (hmain : ∀ c, s.main = .created c → c.fe.fd ≠ fe.fd) :
    ∃ c, get s.clientInfo (s.clientInfo.findIdx fun c => c.any (·.fe.fd == fe.fd)) = some c ∧
      c.fe = fe ∧ get s.fdTable fe.fd = some fe := by
  have hstale : ∀ i, s.svc.stale ≠ some i := by
    rw [hsvc]
    exact fun i heq => by cases heq
  have hfe : get s.fdTable fe.fd = some fe := by
    refine h.live fe ?_
    rw [active, hsvc]
    exact List.mem_cons_self
  rcases h.listed hfe with ⟨c, hc, rfl⟩ | ⟨i, c, hi, rfl, -⟩
  · exact absurd rfl (hmain c hc)
  obtain ⟨c', hget⟩ := exists_get_findIdx (p := fun c' => c'.any (·.fe.fd == c.fe.fd)) rfl hi
    (by simp)
  have hfd : c'.fe.fd = c.fe.fd := by simpa using get_findIdx hget
  have hinfo := h.info hget (hstale _)
  rw [hfd, hfe] at hinfo
  exact ⟨c', hget, (Option.some.inj hinfo).symm, hfe⟩

/-- The step of the main thread stays possible when another descriptor is freed. -/
theorem MainReady.free {s s' : Engservice} {fd : ℕ} (hsame : s'.main = s.main)
    (hgone : s'.gone = s.gone) (hfd : (get s.fdTable fd).isSome)
    (hslot : ∀ j, get s'.files.slots j = if j = fd then none else get s.files.slots j)
    (hfree : ∀ j, get s'.fdTable j = if j = fd then none else get s.fdTable j)
    (hroom : s.engEventCanReg → s'.engEventCanReg)
    (hstale : ∀ i c fe, (get s.clientInfo i = some c → c.fe = fe → s.svc.stale = some i) →
      get s'.clientInfo i = some c → c.fe = fe → s'.svc.stale = some i)
    (hmain : ∀ c, s.main = .created c → c.fe.fd ≠ fd) (h : s.MainReady) : s'.MainReady := by
  have hne : ∀ {j}, get s.fdTable j = none → j ≠ fd := by
    rintro j hnone rfl
    rw [hnone] at hfd
    cases hfd
  have hkeep : ∀ {j conn}, get s.files.slots j = some conn ∧ get s.fdTable j = none →
      get s'.files.slots j = some conn ∧ get s'.fdTable j = none := by
    rintro j conn ⟨hconn, hnone⟩
    rw [hslot, hfree, if_neg (hne hnone), if_neg (hne hnone)]
    exact ⟨hconn, hnone⟩
  unfold MainReady at h ⊢
  rw [hsame]
  cases hm : s.main with
  | accepting | updated j => trivial
  | accepted conn j =>
      rw [hm] at h
      exact hkeep h
  | reading conn j | named conn j =>
      rw [hm] at h
      exact ⟨(hkeep ⟨h.1, h.2.1⟩).1, (hkeep ⟨h.1, h.2.1⟩).2, hroom h.2.2⟩
  | creating c =>
      rw [hm] at h
      obtain ⟨hconn, hnone, hcan, hunreg⟩ := h
      refine ⟨(hkeep ⟨hconn, hnone⟩).1, (hkeep ⟨hconn, hnone⟩).2, hroom hcan, ?_⟩
      rw [hgone]
      exact hunreg
  | created c =>
      rw [hm] at h
      obtain ⟨hget, hcan, hinfo⟩ := h
      refine ⟨?_, hroom hcan, fun i c' => hstale i c' c.fe (hinfo i c')⟩
      rw [hfree, if_neg (hmain c hm), hget]

theorem Inv.engEventUnreg (h : s.Inv) {fe : Fdevent} (hsvc : s.svc = .leaving fe)
    (hmain : ∀ c, s.main = .created c → c.fe.fd ≠ fe.fd) : (s.engEventUnreg fe).Inv := by
  have hnostale : ∀ i, s.svc.stale ≠ some i := by
    rw [hsvc]
    exact fun i heq => by cases heq
  obtain ⟨c, hi, hcfe, hfe⟩ := h.find hsvc hmain
  obtain ⟨-, hopen⟩ := h.event hfe
  have hvalid : (s.files.close fe.conn fe.fd).Valid := h.files.close fun file hfile =>
    Option.some.inj (hfile.symm.trans hopen)
  have hslot : ∀ j, get (s.files.close fe.conn fe.fd).slots j =
      if j = fe.fd then none else get s.files.slots j := fun j => get_free _ _ j
  have hfree : ∀ j, get (free s.fdTable fe.fd) j = if j = fe.fd then none else get s.fdTable j :=
    fun j => get_free _ _ j
  have hnodup := h.nodup
  rw [active, hsvc] at hnodup
  have hnew : s.listPending.erase fe = s.listPending :=
    List.erase_of_not_mem (List.nodup_cons.mp hnodup).1
  unfold Engservice.engEventUnreg
  simp only [hi, hcfe, hfe, if_true, hnew]
  exact
    { h with
      files := hvalid
      event := by
        intro j fe' hfe'
        rw [hfree] at hfe'
        split_ifs at hfe' with hj
        rw [hslot, if_neg hj]
        exact h.event hfe'
      info := by
        intro j c' hj hsj
        have hget := h.info hj (hnostale j)
        rw [hfree, if_neg]
        · exact hget
        · intro hfd
          rw [hfd, hfe] at hget
          refine hsj (congrArg some (h.infoInj hi hj ?_ (hnostale _) (hnostale j)))
          exact hcfe.trans (Option.some.inj hget)
      infoInj := fun hj hk heq _ _ => h.infoInj hj hk heq (hnostale _) (hnostale _)
      listed := by
        intro j fe' hfe'
        rw [hfree] at hfe'
        split_ifs at hfe' with hj
        rcases h.listed hfe' with hcreated | ⟨k, c', hk, hc', -⟩
        · exact Or.inl hcreated
        · refine Or.inr ⟨k, c', hk, hc', ?_⟩
          intro heq
          cases heq
          rw [hi] at hk
          cases hk
          rw [← hc', hcfe] at hfe'
          exact hj (h.event hfe').1.symm
      main := by
        refine @MainReady.free s _ fe.fd rfl rfl (by rw [hfe]; rfl) hslot hfree id ?_ hmain h.main
        exact fun j c' fe' hinfo hj heq => absurd (hinfo hj heq) (hnostale j)
      stale := by
        intro j hj
        cases hj
        rw [hi]
        exact Option.some_ne_none c
      closing := by
        intro fd hfd
        cases hfd
        rw [hslot, if_pos rfl]
      clients := by
        intro conn hconn
        obtain ⟨hlt, hwatched⟩ := h.clients conn hconn
        refine ⟨hlt, fun fd hfd => ?_⟩
        rw [hslot] at hfd
        split_ifs at hfd with hne
        rw [hfree, if_neg hne]
        exact hwatched fd hfd
      goneFunc := by
        intro j fe' hfe'
        rw [hfree] at hfe'
        split_ifs at hfe'
        exact h.goneFunc hfe'
      thread := by
        have hthread := h.thread
        rw [hsvc] at hthread
        rw [hthread]
        exact iff_of_false (fun heq => by cases heq) fun heq => by cases heq
      live := by
        intro fe' hfe'
        have hmem : fe' ∈ s.active := by
          rw [active, hsvc]
          exact List.mem_cons_of_mem _ hfe'
        rw [hfree, if_neg, h.live fe' hmem]
        intro hfd
        have hget := h.live fe' hmem
        rw [hfd, hfe] at hget
        cases hget
        exact (List.nodup_cons.mp hnodup).1 hfe'
      nodup := (List.nodup_cons.mp hnodup).2
      idle := by rintro (heq | ⟨_, heq⟩) <;> cases heq
      rfd := fun heq => by cases heq
      watched := fun _ => trivial }

theorem Inv.clear (h : s.Inv) {i : ℕ} {fe : Fdevent} (hsvc : s.svc = .destroyed i fe) :
    Inv { s with clientInfo := free s.clientInfo i, svc := .cleared fe } := by
  have hfree : ∀ j, get (free s.clientInfo i) j = if j = i then none else get s.clientInfo j :=
    fun j => get_free _ _ j
  have hstale : ∀ {j}, j ≠ i → s.svc.stale ≠ some j := by
    intro j hj heq
    rw [hsvc] at heq
    cases heq
    exact hj rfl
  have hroom : s.engEventCanReg →
      Engservice.engEventCanReg { s with clientInfo := free s.clientInfo i } := fun hcan =>
    decide_eq_true (lowestFree_free_lt (of_decide_eq_true hcan) i)
  exact
    { h with
      info := by
        intro j c hc _
        rw [hfree] at hc
        split_ifs at hc with hj
        exact h.info hc (hstale hj)
      infoInj := by
        intro j k a b hj hk hab _ _
        rw [hfree] at hj hk
        split_ifs at hj hk with hji hki
        exact h.infoInj hj hk hab (hstale hji) (hstale hki)
      listed := by
        intro fd' fe' hfe'
        rcases h.listed hfe' with hcreated | ⟨j, c, hj, hc, hsj⟩
        · exact Or.inl hcreated
        · refine Or.inr ⟨j, c, ?_, hc, fun heq => by cases heq⟩
          rw [hfree, if_neg, hj]
          rintro rfl
          exact hsj (by rw [hsvc]; rfl)
      main := by
        have hready := h.main
        unfold MainReady at hready ⊢
        revert hready
        cases s.main with
        | accepting | updated fd' => exact fun _ => trivial
        | accepted c fd' => exact fun hready => hready
        | reading c fd' | named c fd' => exact fun hready => ⟨hready.1, hready.2.1, hroom hready.2.2⟩
        | creating c =>
            exact fun hready => ⟨hready.1, hready.2.1, hroom hready.2.2.1, hready.2.2.2⟩
        | created c =>
            rintro ⟨hget, hcan, hnot⟩
            refine ⟨hget, hroom hcan, ?_⟩
            intro j c' hj heq
            rw [hfree] at hj
            split_ifs at hj with hji
            exact absurd (hnot j c' hj heq) (hstale hji)
      stale := fun hj => by cases hj
      closing := by
        intro k hk
        refine h.closing ?_
        rw [hsvc]
        exact hk
      thread := by
        rw [h.thread, hsvc]
        exact iff_of_false (fun heq => by cases heq) fun heq => by cases heq
      live := by
        intro fe' hfe'
        refine h.live fe' ?_
        rw [active, hsvc]
        exact hfe'
      nodup := by
        have hnodup := h.nodup
        rw [active, hsvc] at hnodup
        exact hnodup
      idle := by rintro (heq | ⟨_, heq⟩) <;> cases heq
      rfd := fun heq => by cases heq
      watched := fun _ => trivial }

theorem Inv.close (h : s.Inv) {fe : Fdevent} (hsvc : s.svc = .cleared fe) :
    Inv { s with files := s.files.close fe.conn fe.fd, svc := .looping } := by
  have hnone : get s.files.slots fe.fd = none := h.closing (by rw [hsvc]; rfl)
  have hvalid : (s.files.close fe.conn fe.fd).Valid := h.files.close fun file hfile => by
    rw [hnone] at hfile
    cases hfile
  -- the number is free, and stays so
  have hsame : ∀ i, get (s.files.close fe.conn fe.fd).slots i = get s.files.slots i := by
    intro i
    rw [Handles.close, get_free]
    split_ifs with hi
    · rw [hi, hnone]
    · rfl
  have hstale : ∀ i, s.svc.stale ≠ some i := by
    rw [hsvc]
    exact fun i heq => by cases heq
  exact
    { h with
      files := hvalid
      event := by
        intro i fe' hfe'
        rw [hsame]
        exact h.event hfe'
      info := fun hi _ => h.info hi (hstale _)
      infoInj := fun hi hj heq _ _ => h.infoInj hi hj heq (hstale _) (hstale _)
      listed := by
        intro i fe' hfe'
        rcases h.listed hfe' with hcreated | ⟨j, c, hj, hc, -⟩
        · exact Or.inl hcreated
        · exact Or.inr ⟨j, c, hj, hc, fun heq => by cases heq⟩
      main := by
        have hready := h.main
        unfold MainReady at hready ⊢
        revert hready
        cases s.main with
        | accepting | updated fd => exact fun _ => trivial
        | accepted c fd | reading c fd | named c fd =>
            exact fun hready => ⟨(hsame fd).trans hready.1, hready.2⟩
        | creating c => exact fun hready => ⟨(hsame c.fe.fd).trans hready.1, hready.2⟩
        | created c =>
            exact fun hready =>
              ⟨hready.1, hready.2.1, fun i c' hi heq => absurd (hready.2.2 i c' hi heq) (hstale i)⟩
      stale := fun hi => by cases hi
      closing := fun hi => by cases hi
      clients := by
        intro c hc
        obtain ⟨hlt, hwatched⟩ := h.clients c hc
        refine ⟨hlt, fun i hi => hwatched i ?_⟩
        rw [← hsame]
        exact hi
      thread := by
        rw [h.thread, hsvc]
        exact iff_of_false (fun heq => by cases heq) fun heq => by cases heq
      live := by
        intro fe' hfe'
        refine h.live fe' ?_
        rw [active, hsvc]
        exact hfe'
      nodup := by
        have hnodup := h.nodup
        rw [active, hsvc] at hnodup
        exact hnodup
      idle := by rintro (heq | ⟨_, heq⟩) <;> cases heq
      rfd := fun heq => by cases heq
      watched := fun _ => trivial }

theorem Inv.svcStep (h : s.Inv) {k : ℕ} {ok : Bool} (hsafe : s.SvcSafe) :
    (s.svcStep k ok).Inv := by
  have hmove : ∀ {p}, s.svc = p → p.busy → (p = .looping → s.listPending ≠ []) →
      (∀ fe, p ≠ .leaving fe) → (s.svcStep k ok).Inv := by
    rintro p rfl hbusy hloop hleave
    exact h.moves hbusy (svcStep_moves hbusy hloop hleave)
  cases hsvc : s.svc with
  | unborn =>
      simp only [Engservice.svcStep, hsvc]
      exact h
  | selecting rfd =>
      simp only [Engservice.svcStep, hsvc]
      exact h.select hsvc
  | destroyed i fe =>
      simp only [Engservice.svcStep, hsvc]
      exact h.clear hsvc
  | cleared fe =>
      simp only [Engservice.svcStep, hsvc]
      exact h.close hsvc
  | looping =>
      by_cases hlist : s.listPending = []
      · simp only [Engservice.svcStep, hsvc]
        split
        · split_ifs
          · exact h
          · exact h.process hsvc hlist
        · next heq => exact absurd (hlist.symm.trans heq) (List.cons_ne_nil _ _).symm
      · exact hmove hsvc rfl (fun _ => hlist) fun fe heq => by cases heq
  | leaving fe =>
      simp only [Engservice.svcStep, hsvc]
      refine h.engEventUnreg hsvc ?_
      intro c hc
      unfold SvcSafe at hsafe
      rw [hsvc, hc] at hsafe
      exact hsafe
  | _ => exact hmove hsvc rfl (fun heq => by cases heq) fun fe heq => by cases heq

/-! ## Every step -/

/-- What a client sends wakes `select`, as a monitor that answers does. -/
theorem Inv.send (h : s.Inv) (conn : ℕ) (data : List Tagged) : (s.send conn data).Inv :=
  { h with
    watched := by
      intro fd hfd
      refine (h.watched hfd).mono rfl id ?_
      intro rfd _ fd' _ hw
      have hgrow : ∀ c, s.inbox c ≠ [] → (s.send conn data).inbox c ≠ [] := by
        intro c hc
        simp only [Engservice.send]
        split_ifs
        · exact List.append_ne_nil_of_left_ne_nil hc _
        · exact hc
      refine hw.of_same rfl rfl (fun c _ => hgrow c) (fun _ => id) ?_
      intro c hc
      simp only [Engservice.send]
      by_cases hdata : data = []
      · exact Or.inl (by rwa [if_pos hdata])
      · rw [if_neg hdata]
        by_cases hconn : c = conn
        · right
          rw [if_pos hconn]
          exact List.append_ne_nil_of_right_ne_nil _ hdata
        · exact Or.inl (List.mem_filter.mpr ⟨hc, by simpa using hconn⟩) }

theorem Inv.reply (h : s.Inv) (conn : ℕ) (text : List UInt8) : (s.reply conn text).Inv := by
  unfold Engservice.reply
  repeat' split
  · exact h
  · exact { h.send conn _ with }
  · exact h

theorem Inv.hangUp (h : s.Inv) {conn : ℕ} (hconn : conn ∈ s.clients)
    (hfunc : ∀ o ∈ s.fdTable, ∀ fe ∈ o, fe.conn = conn → fe.func.unregisters)
    (hmain : ∀ c, s.main = .creating c → c.fe.conn = conn → c.fe.func.unregisters) :
    Inv { s with gone := conn :: s.gone } :=
  { h with
    main := by
      have hready := h.main
      unfold MainReady at hready ⊢
      revert hready hmain
      cases s.main with
      | creating c =>
          rintro hmain ⟨hopen, hnone, hroom, hgone⟩
          refine ⟨hopen, hnone, hroom, fun hc => ?_⟩
          rcases List.mem_cons.mp hc with heq | hc
          · exact hmain c rfl heq
          · exact hgone hc
      | _ => exact fun _ hready => hready
    gone := by
      intro c hc
      rcases List.mem_cons.mp hc with rfl | hc
      · exact hconn
      · exact h.gone c hc
    goneFunc := by
      intro fd fe hfe hc
      rcases List.mem_cons.mp hc with heq | hc
      · exact hfunc _ (mem_of_get hfe) fe rfl heq
      · exact h.goneFunc hfe hc
    watched := by
      intro fd hfd
      refine (h.watched hfd).mono rfl id ?_
      intro rfd _ fd' _ hw
      exact hw.of_same rfl rfl (fun _ _ => id) (fun c hc => List.mem_cons_of_mem conn hc)
        fun c hc => Or.inl hc }

theorem inv_step (s : Engservice) (e : Event) (hsafe : s.Safe e) (h : s.Inv) : (s.step e).Inv := by
  unfold step
  by_cases hended : s.ended
  · rw [if_pos hended]
    exact h
  rw [if_neg hended]
  cases e with
  | main k ok => exact h.mainStep hsafe
  | svc k ok => exact h.svcStep hsafe
  | send conn data =>
      simp only
      split_ifs
      · exact h.send conn _
      · exact h
  | reply conn text =>
      simp only
      split_ifs
      · exact h.reply conn text
      · exact h
  | hangUp conn =>
      simp only
      split_ifs with hconn
      · refine h.hangUp hconn hsafe.1 ?_
        intro c hc
        have hmain := hsafe.2
        rw [hc] at hmain
        exact hmain
      · exact h

/-- In every state of a run whose steps meet `Safe`, no client has lost its descriptor to
another, and one that has disconnected has had its descriptor closed once or is going to. -/
theorem owned_of_safe (n : ℕ) {es fs : List Event} (hfs : fs <+: es)
    (hes : Run.Meets step Safe (start n) es) : (Run.run step (start n) fs).Owned :=
  Inv.owned (Run.invariant_prefix inv_step hfs hes (inv_start n))

/-- An application registers while `select` waits, disconnects and is found when the monitor has
answered. -/
theorem owned_single :
    (Run.run step (start 4) (registration 4 ENG_MONITOR ++ [.svc 0 true] ++
      registration 5 (ENG_APPCLIENT ++ [0x3A, 0x30]) ++ [.hangUp 5, .send 4 clientConnect] ++
      List.replicate 12 (.svc 100 true))).Owned :=
  owned_of_safe 4 List.prefix_rfl (by decide +kernel)

/-- A client that is accepted between the two calls of `close` loses its descriptor. -/
theorem not_owned_between_closes :
    ¬ ∀ (n : ℕ) (es : List Event), (Run.run step (start n) es).Owned := by
  intro h
  have hown := (h 4 (registration 4 ENG_MONITOR ++ [.hangUp 4] ++ List.replicate 5 (.svc 0 true) ++
    [.main 0 true] ++ List.replicate 2 (.svc 0 true))).own ⟨4, some 5⟩ (by decide +kernel) 5 rfl
  exact absurd hown (by decide)

/-- When the monitor has gone, a client that disconnects is never found. -/
example : (Run.run step (start 4) (registration 4 ENG_MONITOR ++ [.hangUp 4] ++
    List.replicate 8 (.svc 0 true) ++ registration 5 ENG_APPCLIENT ++ [.hangUp 5] ++
    List.replicate 20 (.svc 100 true))).files.closed 5 = 0 := by
  decide +kernel

end Engservice

end Engcs

end Tarako
