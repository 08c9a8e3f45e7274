import Tarako.Engcs.Ownership

/-!
# Routing of responses in `engservice`

A response finds its way back by a number: `engservice` prints the descriptor of the client into
the request, the modem client prints it before the response, and `modemclient_event_func` writes
what follows the number to the descriptor of that number. In the runs whose steps meet `Orderly` a
client is only written its own responses, and each of them once it has been read, unless the
client has disconnected (`routed_run`).
-/

namespace Tarako

namespace Engcs

open Text SlotTable

/-- The descriptor of a client that `eng_event_reg` may still refuse. -/
def MainThread.refusable : MainThread → Option ℕ
  | accepted _ fd | reading _ fd | named _ fd => some fd
  | accepting | creating _ | created _ | updated _ => none

/-- Whether `modemclient_event_func` is between its `memset` of `eng_read_buf` and the last use
of it. -/
def SvcThread.usesReadBuf : SvcThread → Bool
  | reading fe _ _ => fe.func = .modemclient
  | scanning _ _ | copying _ _ _ | cutting _ _ _ | parsing _ _ => true
  | _ => false

namespace Reply

variable (r : Reply)

/-- The number in front of a response. -/
def number : List Tagged := (decimal r.origin.fd).map fun b => (some r.origin, b)

def body : List Tagged := r.text.map fun b => (some r.origin, b)

theorem tagged_eq : r.tagged = r.number ++ (some r.origin, 0x3B) :: r.body := by
  rw [tagged, write2server, List.map_append, List.map_cons]
  rfl

theorem map_snd_number : r.number.map Prod.snd = decimal r.origin.fd := by
  rw [number, List.map_map]
  exact List.map_id _

end Reply

namespace Engservice

/-! ## The property -/

/-- A response of which bytes have not been read. -/
def Unread (s : Engservice) (r : Reply) : Prop :=
  ∃ conn ∈ s.clients, ∃ t ∈ s.inbox conn, t.1 = some r.origin

/-- A response whose text has been written to the client that it is for. -/
def Delivered (s : Engservice) (r : Reply) : Prop :=
  ∃ w ∈ s.written, w.conn = r.origin.conn ∧ r.body <:+: w.bytes

/-- A byte of a response is only written to the client whose request it answers, and every
response is still to be read, in `modemclient_event_func`, delivered, or for a client that has
disconnected. -/
structure Routed (s : Engservice) : Prop where
  only : ∀ w ∈ s.written, ∀ t ∈ w.bytes, ∀ o, t.1 = some o → w.conn = o.conn
  each : ∀ r ∈ s.sent, s.Unread r ∨ r ∈ s.handling ∨ s.Delivered r ∨ r.origin.conn ∈ s.gone

/-! ## The condition -/

/-- A request or a response under way carries the descriptor `fd`. -/
def Carried (s : Engservice) (fd : ℕ) : Prop :=
  (∃ p ∈ s.pending, p.origin.fd = fd) ∨
    ∃ r ∈ s.sent, r.origin.fd = fd ∧ (s.Unread r ∨ r ∈ s.handling)

/-- What a read takes is whole responses to one client, with room for a NUL in the buffer and
for the number in `fdstring`. -/
def Whole (s : Engservice) (bytes : List Tagged) : Prop :=
  bytes = (s.repliesIn bytes).flatMap Reply.tagged ∧ bytes.length < ENG_MAX_RW_SIZE ∧
    ∀ r ∈ s.repliesIn bytes, (decimal r.origin.fd).length < 8 ∧
      ∀ r' ∈ s.repliesIn bytes, r'.origin.conn = r.origin.conn

/-- What a read takes answers no request. -/
def NoReply (bytes : List Tagged) : Prop := ∀ t ∈ bytes, t.1 = none

instance (s : Engservice) (fd : ℕ) : Decidable (s.Carried fd) :=
  inferInstanceAs (Decidable ((∃ p ∈ s.pending, p.origin.fd = fd) ∨
    ∃ r ∈ s.sent, r.origin.fd = fd ∧
      ((∃ conn ∈ s.clients, ∃ t ∈ s.inbox conn, t.1 = some r.origin) ∨ r ∈ s.handling)))

instance (s : Engservice) (bytes : List Tagged) : Decidable (s.Whole bytes) :=
  inferInstanceAs (Decidable (bytes = (s.repliesIn bytes).flatMap Reply.tagged ∧
    bytes.length < ENG_MAX_RW_SIZE ∧ ∀ r ∈ s.repliesIn bytes,
      (decimal r.origin.fd).length < 8 ∧
        ∀ r' ∈ s.repliesIn bytes, r'.origin.conn = r.origin.conn))

instance (bytes : List Tagged) : Decidable (NoReply bytes) :=
  inferInstanceAs (Decidable (∀ t ∈ bytes, t.1 = none))

/-- The condition on a step: a descriptor is not used again while something under way carries
it, `eng_event_reg` leaves `eng_read_buf` alone while `modemclient_event_func` uses it, responses
are read whole, by `modemclient_event_func`, the socket of a client has room for its response, and
no callback reads from a client that `eng_event_reg` may still refuse. -/
def Orderly (s : Engservice) : Event → Prop
  | .main k ok =>
      match s.main with
      | .accepting => ¬ s.Carried (lowestFree s.files.slots)
      | .accepted _ _ => ¬ s.svc.usesReadBuf
      | .reading _ fd => ¬ s.svc.usesReadBuf ∧ NoReply (s.engRead fd k ok).bytes
      | .named _ _ | .creating _ | .created _ | .updated _ => True
  | .svc k ok =>
      match s.svc with
      | .reading fe _ _ =>
          (get s.files.slots fe.fd).isSome ∧ s.main.refusable ≠ some fe.fd ∧
            if fe.func = .modemclient then s.Whole (s.engRead fe.fd k ok).bytes
            else NoReply (s.engRead fe.fd k ok).bytes
      | .responding _ _ _ => (stringOf s.engWriteBuf).length ≤ k
      | _ => True
  | .send _ _ | .reply _ _ | .hangUp _ => True

instance (s : Engservice) : (e : Event) → Decidable (s.Orderly e)
  | .main _ _ => by
      unfold Orderly
      generalize s.main = m
      exact match m with
        | .accepting | .accepted _ _ | .reading _ _ | .named _ _ | .creating _ | .created _
        | .updated _ => inferInstance
  | .svc _ _ => by
      unfold Orderly
      generalize s.svc = p
      exact match p with
        | .reading _ _ _ | .responding _ _ _ | .unborn | .looping | .selecting _
        | .entered _ _ _ | .sending _ _ _ _ _ | .scanning _ _ | .copying _ _ _ | .cutting _ _ _
        | .parsing _ _ | .leaving _ | .destroyed _ _ | .cleared _ => inferInstance
  | .send _ _ | .reply _ _ | .hangUp _ => instDecidableTrue

/-! ## What holds between the steps -/

/-- The request `o` or its response is under way. -/
def Carries (s : Engservice) (o : Origin) : Prop :=
  (∃ p ∈ s.pending, p.origin = o) ∨ ∃ r ∈ s.sent, r.origin = o ∧ (s.Unread r ∨ r ∈ s.handling)

/-- `fd` is open on `conn`, and `eng_event_reg` is not going to close it. -/
def Reads (s : Engservice) (fd conn : ℕ) : Prop :=
  get s.files.slots fd = some conn ∧ s.main.refusable ≠ some fd

/-- What the callback that runs relies on behind `eng_read`. -/
def CallbackReady (s : Engservice) : Prop :=
  match s.svc with
  | .sending fe _ _ conn eof => s.Reads fe.fd conn ∧ (eof → conn ∈ s.gone)
  | .scanning fe eof | .copying fe eof _ | .cutting fe eof _ | .parsing fe eof
  | .responding fe eof _ => ∃ conn, s.Reads fe.fd conn ∧ (eof → conn ∈ s.gone)
  | .leaving fe => ∃ conn, s.Reads fe.fd conn ∧ conn ∈ s.gone
  | _ => True

/-- What is in the buffers while `modemclient_event_func` handles the responses that it has
read, the first of which is `r`. -/
def Holds (s : Engservice) : Prop :=
  match s.svc with
  | .reading fe _ _ => s.handling = [] ∧ (fe.func = .modemclient → s.engReadBuf = [])
  | .scanning _ eof =>
      s.engReadBuf = s.handling.flatMap Reply.tagged ∧ (eof → s.handling = [])
  | .copying _ eof ptr =>
      eof = false ∧ ∃ r rs, s.handling = r :: rs ∧ ptr = r.number.length ∧
        s.engReadBuf = s.handling.flatMap Reply.tagged
  | .cutting _ eof ptr =>
      eof = false ∧ ∃ r rs, s.handling = r :: rs ∧ ptr = r.number.length ∧
        s.engReadBuf = s.handling.flatMap Reply.tagged ∧
        s.engWriteBuf = r.body ++ rs.flatMap Reply.tagged
  | .parsing _ eof =>
      eof = false ∧ ∃ r rs, s.handling = r :: rs ∧
        s.engReadBuf = r.number ++ (none, 0) :: (r.body ++ rs.flatMap Reply.tagged) ∧
        s.engWriteBuf = r.body ++ rs.flatMap Reply.tagged
  | .responding _ eof destFd =>
      s.handling = [] ∧ s.engWriteBuf = [] ∨
        eof = false ∧ ∃ r rs, s.handling = r :: rs ∧ destFd = r.origin.fd ∧
          s.engWriteBuf = r.body ++ rs.flatMap Reply.tagged
  | _ => s.handling = []

/-- The responses that are handled are for one client, and they fit in the buffers. -/
def Handles (s : Engservice) : Prop :=
  (s.handling.flatMap Reply.tagged).length < ENG_MAX_RW_SIZE ∧
    ∀ r ∈ s.handling, r ∈ s.sent ∧ (decimal r.origin.fd).length < 8 ∧
      ∀ r' ∈ s.handling, r'.origin.conn = r.origin.conn

/-- Everything under way carries a descriptor of its client, or one that is closed when its
client has disconnected, and it stays so when `eng_event_reg` refuses a client or
`eng_event_unreg` closes a descriptor again. -/
structure Tracked (s : Engservice) : Prop where
  carried : ∀ o, s.Carries o → get s.files.slots o.fd = some o.conn ∨
    get s.files.slots o.fd = none ∧ o.conn ∈ s.gone
  refusable : ∀ fd, s.main.refusable = some fd → ∀ o, s.Carries o → o.fd = fd → o.conn ∈ s.gone
  closing : ∀ fd, s.svc.closing = some fd → ∀ o, s.Carries o → o.fd = fd → o.conn ∈ s.gone
  callback : s.CallbackReady
  thread : s.hasThread = false → s.svc = .unborn
  inbox : ∀ conn, conn ∉ s.clients → s.inbox conn = []
  text : ∀ r ∈ s.sent, 0 ∉ r.text
  handles : s.Handles
  holds : s.Holds
  routed : s.Routed

theorem tracked_start (n : ℕ) : (start n).Tracked where
  carried := by
    rintro o (⟨p, hp, -⟩ | ⟨r, hr, -⟩)
    · cases hp
    · cases hr
  refusable fd h := by cases h
  closing fd h := by cases h
  callback := trivial
  thread _ := rfl
  inbox _ _ := rfl
  text := by
    intro r hr
    cases hr
  handles := by
    refine ⟨by change 0 < ENG_MAX_RW_SIZE; decide, ?_⟩
    intro r hr
    cases hr
  holds := rfl
  routed :=
    { only := by
        intro w hw
        cases hw
      each := by
        intro r hr
        cases hr }

variable {s : Engservice}

/-! ## Steps beside the callbacks -/

/-- `s'` has the place of `fdevent_loop` and the responses of `s`. -/
structure SameFlow (s s' : Engservice) : Prop where
  svc : s'.svc = s.svc
  handling : s'.handling = s.handling
  sent : s'.sent = s.sent
  pending : s'.pending = s.pending
  engWriteBuf : s'.engWriteBuf = s.engWriteBuf
  written : s'.written = s.written
  gone : s'.gone = s.gone
  hasThread : s'.hasThread = s.hasThread

theorem SameFlow.refl (s : Engservice) : s.SameFlow s :=
  ⟨rfl, rfl, rfl, rfl, rfl, rfl, rfl, rfl⟩

theorem Carries.of_same {s s' : Engservice} (hf : s.SameFlow s')
    (hunread : ∀ r, s'.Unread r ↔ s.Unread r) {o : Origin} : s'.Carries o ↔ s.Carries o := by
  unfold Carries
  rw [hf.pending, hf.sent, hf.handling]
  simp only [hunread]

theorem Holds.of_same {s s' : Engservice} (h : s.Holds) (hf : s.SameFlow s')
    (hbuf : s'.engReadBuf = s.engReadBuf ∨ ¬ s.svc.usesReadBuf) : s'.Holds := by
  unfold Holds at h ⊢
  rw [hf.svc, hf.handling, hf.engWriteBuf]
  rcases hbuf with hbuf | hbuf
  · rw [hbuf]
    exact h
  · cases hsvc : s.svc with
    | reading fe type destFd =>
        rw [hsvc] at h hbuf
        refine ⟨h.1, fun hmodem => absurd ?_ hbuf⟩
        simpa [SvcThread.usesReadBuf] using hmodem
    | scanning fe eof | copying fe eof ptr | cutting fe eof ptr | parsing fe eof =>
        rw [hsvc] at hbuf
        exact absurd rfl hbuf
    | _ =>
        rw [hsvc] at h
        exact h

theorem CallbackReady.of_reads {s s' : Engservice} (h : s.CallbackReady) (hsvc : s'.svc = s.svc)
    (hreads : ∀ fd conn, s.Reads fd conn → s'.Reads fd conn)
    (hgone : ∀ conn ∈ s.gone, conn ∈ s'.gone) : s'.CallbackReady := by
  unfold CallbackReady at h ⊢
  rw [hsvc]
  cases hpos : s.svc with
  | sending fe type destFd conn eof =>
      rw [hpos] at h
      exact ⟨hreads _ _ h.1, fun heof => hgone _ (h.2 heof)⟩
  | scanning fe eof | copying fe eof ptr | cutting fe eof ptr | parsing fe eof
  | responding fe eof destFd =>
      rw [hpos] at h
      obtain ⟨conn, hconn, heof⟩ := h
      exact ⟨conn, hreads _ _ hconn, fun h' => hgone _ (heof h')⟩
  | leaving fe =>
      rw [hpos] at h
      obtain ⟨conn, hconn, hc⟩ := h
      exact ⟨conn, hreads _ _ hconn, hgone _ hc⟩
  | _ => trivial

theorem Tracked.of_main (h : s.Tracked) {s' : Engservice} (hf : s.SameFlow s')
    (hbuf : s'.engReadBuf = s.engReadBuf ∨ ¬ s.svc.usesReadBuf)
    (hunread : ∀ r, s'.Unread r ↔ s.Unread r)
    (hinbox : ∀ conn, conn ∉ s'.clients → s'.inbox conn = [])
    (hslot : ∀ o, s.Carries o → get s'.files.slots o.fd = get s.files.slots o.fd ∨
      get s'.files.slots o.fd = none ∧ o.conn ∈ s.gone)
    (hrefusable : ∀ fd, s'.main.refusable = some fd →
      s.main.refusable = some fd ∨ ¬ s.Carried fd)
    (hreads : ∀ fd conn, s.Reads fd conn → s'.Reads fd conn) : s'.Tracked where
  carried := by
    intro o ho
    rw [Carries.of_same hf hunread] at ho
    rw [hf.gone]
    rcases hslot o ho with hsame | hnone
    · rw [hsame]
      exact h.carried o ho
    · exact Or.inr hnone
  refusable := by
    intro fd hfd o ho hofd
    rw [Carries.of_same hf hunread] at ho
    rw [hf.gone]
    rcases hrefusable fd hfd with hold | hnot
    · exact h.refusable fd hold o ho hofd
    · refine absurd ?_ hnot
      rcases ho with ⟨p, hp, rfl⟩ | ⟨r, hr, rfl, hunder⟩
      · exact Or.inl ⟨p, hp, hofd⟩
      · exact Or.inr ⟨r, hr, hofd, hunder⟩
  closing := by
    intro fd hfd o ho
    rw [Carries.of_same hf hunread] at ho
    rw [hf.gone]
    rw [hf.svc] at hfd
    exact h.closing fd hfd o ho
  callback := h.callback.of_reads hf.svc hreads (by rw [hf.gone]; exact fun _ => id)
  thread := by
    rw [hf.hasThread, hf.svc]
    exact h.thread
  inbox := hinbox
  text := by
    rw [hf.sent]
    exact h.text
  handles := by
    have hhandles := h.handles
    unfold Handles at hhandles ⊢
    rw [hf.handling, hf.sent]
    exact hhandles
  holds := h.holds.of_same hf hbuf
  routed :=
    { only := by
        rw [hf.written]
        exact h.routed.only
      each := by
        intro r hr
        rw [hf.sent] at hr
        rw [hunread, hf.handling, hf.gone, Delivered, hf.written]
        exact h.routed.each r hr }

theorem Tracked.ended (h : s.Tracked) : Tracked { s with ended := true } :=
  { h with routed := { h.routed with }, handles := h.handles }

theorem Tracked.addWrite (h : s.Tracked) {w : Write}
    (hw : ∀ t ∈ w.bytes, ∀ o, t.1 = some o → w.conn = o.conn) :
    Tracked { s with written := s.written ++ [w] } :=
  { h with
    handles := h.handles
    routed :=
      { only := by
          intro w' hw'
          rcases List.mem_append.mp hw' with hw' | hw'
          · exact h.routed.only w' hw'
          · rw [List.mem_singleton.mp hw']
            exact hw
        each := by
          intro r hr
          rcases h.routed.each r hr with hun | hhand | ⟨w', hw', hdel⟩ | hgone
          · exact Or.inl hun
          · exact Or.inr (Or.inl hhand)
          · exact Or.inr (Or.inr (Or.inl ⟨w', List.mem_append_left _ hw', hdel⟩))
          · exact Or.inr (Or.inr (Or.inr hgone)) } }

theorem Tracked.engWrite (h : s.Tracked) (fd : ℕ) (text : List UInt8) :
    (s.engWrite fd (untagged text)).Tracked := by
  unfold Engservice.engWrite
  repeat' split
  · exact h
  · exact h.ended
  · refine h.addWrite ?_
    intro t ht o ho
    obtain ⟨b, -, rfl⟩ := List.mem_map.mp ht
    cases ho

/-! ## The steps of the main thread -/

/-- A step of the main thread that changes neither the descriptors nor `eng_read_buf`. -/
theorem Tracked.of_place (h : s.Tracked) {m : MainThread}
    (hm : ∀ fd, m.refusable = some fd → s.main.refusable = some fd) :
    Tracked { s with main := m } := by
  refine h.of_main ⟨rfl, rfl, rfl, rfl, rfl, rfl, rfl, rfl⟩ (Or.inl rfl) (fun r => Iff.rfl) h.inbox
    (fun o _ => Or.inl rfl) (fun fd hfd => Or.inl (hm fd hfd)) ?_
  exact fun fd conn hreads => ⟨hreads.1, fun hfd => hreads.2 (hm fd hfd)⟩

theorem Tracked.accept (h : s.Tracked)
    (hsafe : ¬ s.Carried (lowestFree s.files.slots)) : s.accept.Tracked := by
  unfold Engservice.accept
  split_ifs
  swap
  · exact h
  have hslot : ∀ fd, get s.files.openFile.slots fd =
      if fd = lowestFree s.files.slots then some s.files.next else get s.files.slots fd :=
    fun fd => get_alloc _ _ fd
  have hfree : get s.files.slots (lowestFree s.files.slots) = none := get_lowestFree _
  have hcarried : ∀ o, s.Carries o → o.fd ≠ lowestFree s.files.slots := by
    rintro o (⟨p, hp, rfl⟩ | ⟨r, hr, rfl, hunder⟩) heq
    · exact hsafe (Or.inl ⟨p, hp, heq⟩)
    · exact hsafe (Or.inr ⟨r, hr, heq, hunder⟩)
  refine h.of_main ⟨rfl, rfl, rfl, rfl, rfl, rfl, rfl, rfl⟩ (Or.inl rfl) ?_ ?_ ?_ ?_ ?_
  · intro r
    constructor
    · rintro ⟨conn, hconn, t, ht, htag⟩
      rcases List.mem_cons.mp hconn with rfl | hconn
      · by_cases hold : s.files.next ∈ s.clients
        · exact ⟨s.files.next, hold, t, ht, htag⟩
        · -- a new client has sent nothing
          rw [h.inbox _ hold] at ht
          cases ht
      · exact ⟨conn, hconn, t, ht, htag⟩
    · rintro ⟨conn, hconn, ht⟩
      exact ⟨conn, List.mem_cons_of_mem _ hconn, ht⟩
  · intro conn hconn
    exact h.inbox conn fun hold => hconn (List.mem_cons_of_mem _ hold)
  · intro o ho
    left
    rw [hslot, if_neg (hcarried o ho)]
  · rintro fd ⟨⟩
    exact Or.inr hsafe
  · rintro fd conn ⟨hget, -⟩
    refine ⟨?_, ?_⟩
    · rw [hslot, if_neg, hget]
      rintro rfl
      rw [hfree] at hget
      cases hget
    · rintro ⟨⟩
      rw [hfree] at hget
      cases hget

theorem Tracked.refuse (h : s.Tracked) {conn fd : ℕ} (hmain : s.main.refusable = some fd) :
    (s.refuse conn fd).Tracked := by
  have hslot : ∀ i, get (s.files.close conn fd).slots i =
      if i = fd then none else get s.files.slots i := fun i => get_free _ _ i
  refine h.of_main ⟨rfl, rfl, rfl, rfl, rfl, rfl, rfl, rfl⟩ (Or.inl rfl) (fun r => Iff.rfl) h.inbox
    ?_ ?_ ?_
  · intro o ho
    change get (s.files.close conn fd).slots o.fd = _ ∨ get (s.files.close conn fd).slots o.fd = _ ∧ _
    rw [hslot]
    split_ifs with hfd
    · exact Or.inr ⟨rfl, h.refusable fd hmain o ho hfd⟩
    · exact Or.inl rfl
  · intro i hi
    cases hi
  · rintro i c ⟨hget, hne⟩
    refine ⟨?_, fun heq => by cases heq⟩
    change get (s.files.close conn fd).slots i = some c
    rw [hslot, if_neg, hget]
    rintro rfl
    exact hne hmain

theorem engRead_prefix_inbox {fd conn : ℕ} (hget : get s.files.slots fd = some conn) (k : ℕ)
    (ok : Bool) : (s.engRead fd k ok).bytes <+: s.inbox conn := by
  unfold engRead
  rw [hget]
  simp only
  split_ifs
  · exact List.nil_prefix
  · exact List.nil_prefix
  · exact List.nil_prefix
  · split
    · exact List.nil_prefix
    · next heq =>
      rw [Received.bytes, ← heq]
      exact List.take_prefix _ _

/-- What a client has sent is what a read takes and what it leaves. -/
theorem append_consume {fd conn : ℕ} (hget : get s.files.slots fd = some conn) (k : ℕ)
    (ok : Bool) :
    (s.engRead fd k ok).bytes ++ s.consume fd (s.engRead fd k ok).bytes.length conn =
      s.inbox conn := by
  obtain ⟨rest, hrest⟩ := engRead_prefix_inbox hget k ok
  rw [consume, if_pos hget, ← hrest, List.drop_left]

theorem unread_of_consume {s' : Engservice} {fd k : ℕ} {ok : Bool}
    (hclients : s'.clients = s.clients)
    (hinbox : s'.inbox = s.consume fd (s.engRead fd k ok).bytes.length)
    (hnone : NoReply (s.engRead fd k ok).bytes) (r : Reply) : s'.Unread r ↔ s.Unread r := by
  unfold Unread
  rw [hclients, hinbox]
  refine exists_congr fun conn => and_congr_right fun _ => ?_
  by_cases hget : get s.files.slots fd = some conn
  · rw [← append_consume hget k ok]
    constructor
    · rintro ⟨t, ht, htag⟩
      exact ⟨t, List.mem_append_right _ ht, htag⟩
    · rintro ⟨t, ht, htag⟩
      rcases List.mem_append.mp ht with ht | ht
      · rw [hnone t ht] at htag
        cases htag
      · exact ⟨t, ht, htag⟩
  · rw [consume, if_neg hget]

theorem consume_of_inbox {fd n conn : ℕ} (h : s.inbox conn = []) : s.consume fd n conn = [] := by
  rw [consume, h, List.drop_nil, ite_self]

theorem Tracked.readName (h : s.Tracked) {conn fd k : ℕ} {ok : Bool}
    (hmain : s.main = .reading conn fd) (hfree : ¬ s.svc.usesReadBuf)
    (hnone : NoReply (s.engRead fd k ok).bytes) : (s.readName conn fd k ok).Tracked := by
  have hrefusable : s.main.refusable = some fd := by
    rw [hmain]
    rfl
  unfold Engservice.readName
  cases hread : s.engRead fd k ok with
  | nothing => exact h
  | error => exact h.refuse hrefusable
  | data bytes =>
      refine h.of_main ⟨rfl, rfl, rfl, rfl, rfl, rfl, rfl, rfl⟩ (Or.inr hfree) ?_ ?_
        (fun o _ => Or.inl rfl) ?_ ?_
      · exact unread_of_consume rfl (by rw [hread]; rfl) hnone
      · exact fun c hc => consume_of_inbox (h.inbox c hc)
      · rintro i ⟨⟩
        exact Or.inl hrefusable
      · rintro i c ⟨hget, hne⟩
        refine ⟨hget, ?_⟩
        rintro ⟨⟩
        exact hne hrefusable

theorem Tracked.refuseUnmonitored (h : s.Tracked) {conn fd : ℕ}
    (hmain : s.main = .named conn fd) : (s.refuseUnmonitored conn fd).Tracked := by
  have hwrite := h.engWrite fd ENG_DESTERROR
  have hk := s.engWrite_kept fd (untagged ENG_DESTERROR)
  unfold Engservice.refuseUnmonitored
  simp only
  split_ifs
  · exact hwrite
  · refine hwrite.refuse ?_
    rw [hk.main, hmain]
    rfl

theorem Tracked.parseName (h : s.Tracked) {conn fd : ℕ} (hmain : s.main = .named conn fd) :
    (s.parseName conn fd).Tracked := by
  have hrefusable : s.main.refusable = some fd := by
    rw [hmain]
    rfl
  unfold Engservice.parseName
  split
  · exact { h with routed := { h.routed with }, handles := h.handles }
  · split
    · split_ifs
      · exact h.refuseUnmonitored hmain
      · exact h.refuse hrefusable
    · next c _ =>
      have hplace := h.of_place (m := .creating c) fun i hi => by cases hi
      exact { hplace with routed := { hplace.routed with }, handles := hplace.handles }

theorem Tracked.holds_at (h : s.Tracked) {p : SvcThread} (hsvc : s.svc = p) :
    Holds { s with svc := p } := by
  subst hsvc
  exact h.holds

theorem Tracked.callback_at (h : s.Tracked) {p : SvcThread} (hsvc : s.svc = p) :
    CallbackReady { s with svc := p } := by
  subst hsvc
  exact h.callback

theorem Tracked.tell (h : s.Tracked) (ok : Bool) : (s.tell ok).Tracked := by
  unfold Engservice.tell
  by_cases hthread : s.hasThread
  · rw [if_pos hthread]
    split
    · exact h.of_place fun i hi => by cases hi
    · next fd _ =>
      have hwrite := h.engWrite fd clientConnect
      refine hwrite.of_main ⟨rfl, rfl, rfl, rfl, rfl, rfl, rfl, rfl⟩ (Or.inl rfl)
        (fun r => Iff.rfl) hwrite.inbox (fun o _ => Or.inl rfl) (fun i hi => by cases hi) ?_
      exact fun i c hreads => ⟨hreads.1, fun heq => by cases heq⟩
  · rw [if_neg hthread]
    have hborn : s.svc = .unborn := h.thread (by simpa using hthread)
    have hnone : s.handling = [] := h.holds_at hborn
    cases ok
    all_goals exact
      { h with
        refusable := fun i hi => by cases hi
        closing := fun i hi => by cases hi
        callback := trivial
        thread := fun heq => by cases heq
        handles := h.handles
        holds := hnone
        routed := { h.routed with } }

theorem Tracked.mainStep (h : s.Tracked) {k : ℕ} {ok : Bool} (hsafe : s.Orderly (.main k ok)) :
    (s.mainStep k ok).Tracked := by
  unfold Orderly at hsafe
  unfold Engservice.mainStep
  cases hmain : s.main with
  | accepting =>
      simp only [hmain] at hsafe
      exact h.accept hsafe
  | accepted conn fd =>
      simp only [hmain] at hsafe
      have hrefusable : s.main.refusable = some fd := by
        rw [hmain]
        rfl
      simp only
      split_ifs
      · refine h.of_main ⟨rfl, rfl, rfl, rfl, rfl, rfl, rfl, rfl⟩ (Or.inr hsafe) (fun r => Iff.rfl)
          h.inbox (fun o _ => Or.inl rfl) ?_ ?_
        · rintro i ⟨⟩
          exact Or.inl hrefusable
        · rintro i c ⟨hget, hne⟩
          refine ⟨hget, ?_⟩
          rintro ⟨⟩
          exact hne hrefusable
      · exact h.of_place fun i hi => by cases hi
  | reading conn fd =>
      simp only [hmain] at hsafe
      exact h.readName hmain hsafe.1 hsafe.2
  | named conn fd => exact h.parseName hmain
  | creating c =>
      simp only
      split_ifs
      · have hplace := h.of_place (m := .created c) fun i hi => by cases hi
        exact { hplace with routed := { hplace.routed with }, handles := hplace.handles }
      · exact (h.engWrite c.fe.fd ENG_ERROR).of_place fun i hi => by cases hi
  | created c =>
      have hplace := h.of_place (m := .updated c.fe.fd) fun i hi => by cases hi
      exact { hplace with routed := { hplace.routed with }, handles := hplace.handles }
  | updated fd =>
      have hwrite := h.engWrite fd ENG_WELCOME
      simp only
      split_ifs
      · exact hwrite
      · exact hwrite.tell ok

/-! ## The steps of `fdevent_loop` -/

/-- A step of `fdevent_loop` that neither reads, writes nor closes. -/
theorem Tracked.of_svc (h : s.Tracked) (hborn : s.svc ≠ .unborn) {p : SvcThread}
    {listPending : List Fdevent} {engReadBuf engWriteBuf : List Tagged}
    (hclosing : p.closing = none) (hcallback : CallbackReady { s with svc := p })
    (hholds : Holds { s with listPending, engReadBuf, engWriteBuf, svc := p }) :
    Tracked { s with listPending, engReadBuf, engWriteBuf, svc := p } :=
  { h with
    closing := by
      intro fd hfd
      change p.closing = some fd at hfd
      rw [hclosing] at hfd
      cases hfd
    callback := hcallback
    thread := fun hthread => absurd (h.thread hthread) hborn
    handles := h.handles
    holds := hholds
    routed := { h.routed with } }

theorem Tracked.handling_eq_nil (h : s.Tracked)
    (hsvc : s.svc = .looping ∨ (∃ rfd, s.svc = .selecting rfd) ∨
      ∃ fe type destFd, s.svc = .entered fe type destFd) : s.handling = [] := by
  rcases hsvc with hsvc | ⟨rfd, hsvc⟩ | ⟨fe, type, destFd, hsvc⟩
  all_goals exact h.holds_at hsvc

theorem call_quiet (s : Engservice) (fe : Fdevent) (hnone : s.handling = [])
    (listPending : List Fdevent) :
    (s.call fe).closing = none ∧ CallbackReady { s with svc := s.call fe } ∧
      Holds { s with listPending, svc := s.call fe } := by
  unfold call CallbackReady Holds
  cases hfunc : fe.func with
  | appclient | modemclient => exact ⟨rfl, trivial, hnone⟩
  | pcclient | adrvclient | logclient | monitorclient =>
      refine ⟨rfl, trivial, hnone, fun heq => ?_⟩
      rw [hfunc] at heq
      cases heq

theorem Tracked.loop (h : s.Tracked) (hsvc : s.svc = .looping) {k : ℕ} {ok : Bool} :
    (s.svcStep k ok).Tracked := by
  have hborn : s.svc ≠ .unborn := fun heq => by rw [hsvc] at heq; cases heq
  have hnone := h.handling_eq_nil (Or.inl hsvc)
  simp only [Engservice.svcStep, hsvc]
  split
  · split_ifs
    · exact h
    · exact h.of_svc hborn rfl trivial hnone
  · next fe rest _ =>
    obtain ⟨hclosing, hcallback, hholds⟩ := s.call_quiet fe hnone rest
    exact h.of_svc hborn hclosing hcallback hholds

theorem Tracked.select (h : s.Tracked) {rfd : List ℕ} (hsvc : s.svc = .selecting rfd) :
    (s.select rfd).Tracked := by
  have hborn : s.svc ≠ .unborn := fun heq => by rw [hsvc] at heq; cases heq
  have hnone := h.handling_eq_nil (Or.inr (Or.inl ⟨rfd, hsvc⟩))
  unfold Engservice.select
  split
  · exact h
  · split_ifs
    · exact h.ended
    · exact h.of_svc hborn rfl trivial hnone

/-! ## Reads -/

theorem mem_repliesIn {r : Reply} {bytes : List Tagged} :
    r ∈ s.repliesIn bytes ↔ r ∈ s.sent ∧ ∃ t ∈ bytes, t.1 = some r.origin := by
  simp only [repliesIn, List.mem_filter, List.any_eq_true, decide_eq_true_eq]

theorem repliesIn_nil : s.repliesIn [] = [] :=
  List.filter_eq_nil_iff.mpr fun _ _ => Bool.false_ne_true

/-- The end of a connection is read when the client has disconnected. -/
theorem mem_gone_of_eof {fd conn k : ℕ} {ok : Bool} (hget : get s.files.slots fd = some conn)
    (heof : (s.engRead fd k ok).eof) : conn ∈ s.gone := by
  unfold engRead at heof
  rw [hget] at heof
  simp only at heof
  split_ifs at heof with hok hinbox hgone
  · cases heof
  · exact hgone
  · cases heof
  · split at heof
    · cases heof
    · cases heof

theorem Tracked.unread_of_mem (h : s.Tracked) {fd k : ℕ} {ok : Bool} {t : Tagged} {r : Reply}
    (ht : t ∈ (s.engRead fd k ok).bytes) (htag : t.1 = some r.origin) : s.Unread r := by
  cases hget : get s.files.slots fd with
  | none =>
      unfold engRead at ht
      rw [hget] at ht
      cases ht
  | some conn =>
      have hmem : t ∈ s.inbox conn := (engRead_prefix_inbox hget k ok).subset ht
      refine ⟨conn, ?_, t, hmem, htag⟩
      by_contra hconn
      rw [h.inbox conn hconn] at hmem
      cases hmem

theorem unread_or_read {r : Reply} (hr : s.Unread r) (fd k : ℕ) (ok : Bool) :
    (∃ t ∈ (s.engRead fd k ok).bytes, t.1 = some r.origin) ∨
      Unread { s with inbox := s.consume fd (s.engRead fd k ok).bytes.length } r := by
  obtain ⟨conn, hconn, t, ht, htag⟩ := hr
  by_cases hget : get s.files.slots fd = some conn
  · rw [← append_consume hget k ok] at ht
    rcases List.mem_append.mp ht with ht | ht
    · exact Or.inl ⟨t, ht, htag⟩
    · exact Or.inr ⟨conn, hconn, t, ht, htag⟩
  · refine Or.inr ⟨conn, hconn, t, ?_, htag⟩
    change t ∈ s.consume fd _ conn
    rw [consume, if_neg hget]
    exact ht

theorem unread_of_consumed {fd n : ℕ} {r : Reply}
    (hr : Unread { s with inbox := s.consume fd n } r) : s.Unread r := by
  obtain ⟨conn, hconn, t, ht, htag⟩ := hr
  change t ∈ s.consume fd n conn at ht
  rw [consume] at ht
  refine ⟨conn, hconn, t, ?_, htag⟩
  split_ifs at ht
  · exact List.mem_of_mem_drop ht
  · exact ht

theorem Tracked.of_read (h : s.Tracked) (hborn : s.svc ≠ .unborn) {fd k : ℕ} {ok : Bool}
    (hnone : NoReply (s.engRead fd k ok).bytes) {p : SvcThread} {engReadBuf : List Tagged}
    (hclosing : p.closing = none) (hcallback : CallbackReady { s with svc := p })
    (hholds : Holds { s with engReadBuf, svc := p }) :
    Tracked { s with
      inbox := s.consume fd (s.engRead fd k ok).bytes.length
      engReadBuf
      svc := p } := by
  have hread : Tracked { s with inbox := s.consume fd (s.engRead fd k ok).bytes.length } := by
    refine h.of_main ⟨rfl, rfl, rfl, rfl, rfl, rfl, rfl, rfl⟩ (Or.inl rfl) ?_ ?_
      (fun o _ => Or.inl rfl) (fun i hi => Or.inl hi) fun i c hreads => hreads
    · exact unread_of_consume rfl rfl hnone
    · exact fun c hc => consume_of_inbox (h.inbox c hc)
  exact hread.of_svc hborn hclosing hcallback hholds

theorem Tracked.readModem (h : s.Tracked) {fe : Fdevent} {type : ℤ} {destFd : Option ℕ}
    (hsvc : s.svc = .reading fe type destFd) (hfunc : fe.func = .modemclient) {conn k : ℕ}
    {ok : Bool} (hreads : s.Reads fe.fd conn) (hwhole : s.Whole (s.engRead fe.fd k ok).bytes) :
    Tracked { s with
      inbox := s.consume fe.fd (s.engRead fe.fd k ok).bytes.length
      engReadBuf := store s.engReadBuf (s.engRead fe.fd k ok).bytes
      handling := s.repliesIn (s.engRead fe.fd k ok).bytes
      svc := .scanning fe (s.engRead fe.fd k ok).eof } := by
  obtain ⟨hbytes, hfits, hsame⟩ := hwhole
  obtain ⟨hnone, hbuf⟩ : s.handling = [] ∧ (fe.func = .modemclient → s.engReadBuf = []) :=
    h.holds_at hsvc
  have hcarries : ∀ o, Carries { s with
      inbox := s.consume fe.fd (s.engRead fe.fd k ok).bytes.length
      handling := s.repliesIn (s.engRead fe.fd k ok).bytes } o → s.Carries o := by
    rintro o (hpending | ⟨r, hr, hro, hunder⟩)
    · exact Or.inl hpending
    · refine Or.inr ⟨r, hr, hro, Or.inl ?_⟩
      rcases hunder with hunread | hhandling
      · exact unread_of_consumed hunread
      · obtain ⟨-, t, ht, htag⟩ := mem_repliesIn.mp hhandling
        exact h.unread_of_mem ht htag
  exact
    { h with
      carried := fun o ho => h.carried o (hcarries o ho)
      refusable := fun fd hfd o ho => h.refusable fd hfd o (hcarries o ho)
      closing := fun fd hfd => by cases hfd
      callback := ⟨conn, hreads, mem_gone_of_eof hreads.1⟩
      thread := fun hthread => by
        have hborn := h.thread hthread
        rw [hsvc] at hborn
        cases hborn
      inbox := fun c hc => consume_of_inbox (h.inbox c hc)
      handles := by
        refine ⟨?_, fun r hr => ⟨(mem_repliesIn.mp hr).1, hsame r hr⟩⟩
        change ((s.repliesIn _).flatMap Reply.tagged).length < _
        rw [← hbytes]
        exact hfits
      holds := by
        refine ⟨?_, fun heof => ?_⟩
        · change store s.engReadBuf _ = (s.repliesIn _).flatMap Reply.tagged
          rw [hbuf hfunc, store, List.drop_nil, List.append_nil, ← hbytes]
        · change s.repliesIn _ = []
          cases hread : s.engRead fe.fd k ok with
          | nothing | error =>
              rw [hread] at heof
              cases heof
          | data bytes =>
              rw [hread] at heof
              rw [Received.bytes, of_decide_eq_true heof, repliesIn_nil]
      routed :=
        { only := h.routed.only
          each := by
            intro r hr
            rcases h.routed.each r hr with hunread | hhandling | hrest
            · rcases unread_or_read hunread fe.fd k ok with hread | hunread
              · exact Or.inr (Or.inl (mem_repliesIn.mpr ⟨hr, hread⟩))
              · exact Or.inl hunread
            · rw [hnone] at hhandling
              cases hhandling
            · exact Or.inr (Or.inr hrest) } }

theorem Tracked.readClient (h : s.Tracked) {fe : Fdevent} {type : ℤ} {destFd : Option ℕ} {k : ℕ}
    {ok : Bool} (hsvc : s.svc = .reading fe type destFd) (hsafe : s.Orderly (.svc k ok)) :
    (s.readClient fe type destFd k ok).Tracked := by
  have hborn : s.svc ≠ .unborn := fun heq => by rw [hsvc] at heq; cases heq
  have hnone : s.handling = [] := (h.holds_at hsvc).1
  unfold Orderly at hsafe
  simp only [hsvc] at hsafe
  obtain ⟨hopen, hne, hbytes⟩ := hsafe
  obtain ⟨conn, hget⟩ := Option.isSome_iff_exists.mp hopen
  have hgone : (s.engRead fe.fd k ok).eof → conn ∈ s.gone := mem_gone_of_eof hget
  unfold Engservice.readClient
  cases hfunc : fe.func with
  | modemclient =>
      rw [if_pos hfunc] at hbytes
      exact h.readModem hsvc hfunc ⟨hget, hne⟩ hbytes
  | appclient =>
      rw [if_neg (by rw [hfunc]; decide)] at hbytes
      simp only [hget, Option.getD_some]
      exact h.of_read hborn hbytes rfl ⟨⟨hget, hne⟩, hgone⟩ hnone
  | monitorclient =>
      rw [if_neg (by rw [hfunc]; decide)] at hbytes
      by_cases heof : (s.engRead fe.fd k ok).eof
      · simp only [heof, if_true]
        exact h.of_read hborn hbytes rfl ⟨conn, ⟨hget, hne⟩, hgone heof⟩ hnone
      · simp only [heof]
        exact h.of_read hborn hbytes rfl trivial hnone
  | pcclient | adrvclient | logclient =>
      rw [if_neg (by rw [hfunc]; decide)] at hbytes
      exact h.of_read hborn hbytes rfl trivial hnone

/-! ## Requests -/

theorem Tracked.addPending (h : s.Tracked) {pending : List Pending} {requests : ℕ}
    (hpending : ∀ p ∈ pending, p ∈ s.pending ∨ s.Reads p.origin.fd p.origin.conn)
    (hclosing : s.svc.closing = none) : Tracked { s with pending, requests } := by
  have hcarries : ∀ o, Carries { s with pending, requests } o →
      s.Carries o ∨ s.Reads o.fd o.conn := by
    rintro o (⟨p, hp, rfl⟩ | hunder)
    · exact (hpending p hp).imp (fun hold => Or.inl ⟨p, hold, rfl⟩) id
    · exact Or.inl (Or.inr hunder)
  exact
    { h with
      carried := by
        intro o ho
        rcases hcarries o ho with hold | hnew
        · exact h.carried o hold
        · exact Or.inl hnew.1
      refusable := by
        intro fd hfd o ho hofd
        rcases hcarries o ho with hold | hnew
        · exact h.refusable fd hfd o hold hofd
        · exact absurd (hofd ▸ hfd) hnew.2
      closing := by
        intro fd hfd
        change s.svc.closing = some fd at hfd
        rw [hclosing] at hfd
        cases hfd
      handles := h.handles
      routed := { h.routed with } }

theorem Tracked.sendRequest (h : s.Tracked) (hborn : s.svc ≠ .unborn) (hnone : s.handling = [])
    {fe : Fdevent} {conn : ℕ} (hreads : s.Reads fe.fd conn) (destFd k : ℕ) (text : List UInt8) :
    (s.sendRequest fe destFd conn k text).Tracked := by
  have hquiet : Tracked { s with engWriteBuf := untagged text, svc := .looping } :=
    h.of_svc hborn rfl trivial hnone
  unfold Engservice.sendRequest
  simp only
  split_ifs
  · exact hquiet.engWrite destFd _
  · have hk := engWrite_kept { s with engWriteBuf := untagged text, svc := .looping } destFd
      (untagged text)
    refine (hquiet.engWrite destFd text).addPending ?_ ?_
    · intro p hp
      rcases List.mem_append.mp hp with hp | hp
      · left
        unfold Engservice.engWrite
        repeat' split
        all_goals exact hp
      · right
        obtain ⟨modem, -, rfl⟩ := List.mem_map.mp hp
        rw [Reads, hk.files, hk.main]
        exact hreads
    · rw [(engWrite_svc _ _ _).1]
      rfl

theorem Tracked.appclientEventFunc (h : s.Tracked) {fe : Fdevent} {type : ℤ} {destFd : Option ℕ}
    {conn : ℕ} {eof : Bool} (hsvc : s.svc = .sending fe type destFd conn eof) (k : ℕ) :
    (s.appclientEventFunc fe type destFd conn eof k).Tracked := by
  have hborn : s.svc ≠ .unborn := fun heq => by rw [hsvc] at heq; cases heq
  have hnone : s.handling = [] := h.holds_at hsvc
  obtain ⟨hreads, hgone⟩ : s.Reads fe.fd conn ∧ (eof → conn ∈ s.gone) :=
    h.callback_at hsvc
  unfold Engservice.appclientEventFunc
  split_ifs with heof
  · exact h.of_svc hborn rfl ⟨conn, hreads, hgone heof⟩ hnone
  · cases destFd with
    | none =>
        have hquiet : Tracked { s with engWriteBuf := untagged ENG_DESTERROR, svc := .looping } :=
          h.of_svc hborn rfl trivial hnone
        exact hquiet.engWrite fe.fd ENG_DESTERROR
    | some destFd =>
        simp only
        split_ifs
        · exact h.of_svc hborn rfl trivial hnone
        · exact h.sendRequest hborn hnone hreads destFd k _
        · exact h.ended

/-! ## Responses -/

theorem flatMap_tagged_cons (r : Reply) (rs : List Reply) :
    (r :: rs).flatMap Reply.tagged =
      r.number ++ (some r.origin, 0x3B) :: (r.body ++ rs.flatMap Reply.tagged) := by
  rw [List.flatMap_cons, r.tagged_eq, List.append_assoc, List.cons_append]

theorem stringOf_of_forall {l : List Tagged} (h : ∀ t ∈ l, t.2 ≠ 0) : stringOf l = l :=
  List.takeWhile_eq_self_iff.mpr fun t ht => by simpa using h t ht

theorem isDigit_of_mem_number {r : Reply} {t : Tagged} (h : t ∈ r.number) : isDigit t.2 := by
  obtain ⟨b, hb, rfl⟩ := List.mem_map.mp h
  exact isDigit_of_mem_decimal hb

theorem ne_zero_of_isDigit {b : UInt8} (h : isDigit b) : b ≠ 0 ∧ b ≠ 0x3B := by
  constructor
  · rintro rfl
    exact absurd h (by decide)
  · rintro rfl
    exact absurd h (by decide)

theorem Tracked.ne_zero (h : s.Tracked) :
    ∀ t ∈ s.handling.flatMap Reply.tagged, t.2 ≠ 0 := by
  intro t ht
  obtain ⟨r, hr, ht⟩ := List.mem_flatMap.mp ht
  rw [r.tagged_eq, List.mem_append, List.mem_cons] at ht
  rcases ht with ht | rfl | ht
  · exact (ne_zero_of_isDigit (isDigit_of_mem_number ht)).1
  · exact (by decide : (0x3B : UInt8) ≠ 0)
  · obtain ⟨b, hb, rfl⟩ := List.mem_map.mp ht
    exact ne_of_mem_of_not_mem hb (h.text r (h.handles.2 r hr).1)

theorem idxOf_separator (r : Reply) (l : List Tagged) :
    ((r.number ++ (some r.origin, 0x3B) :: l).map Prod.snd).idxOf 0x3B = r.number.length := by
  rw [List.map_append, List.map_cons, List.idxOf_append_of_notMem, List.idxOf_cons_self,
    List.length_map, Nat.add_zero]
  intro hmem
  obtain ⟨t, ht, heq⟩ := List.mem_map.mp hmem
  exact (ne_zero_of_isDigit (isDigit_of_mem_number ht)).2 heq

theorem Tracked.scan (h : s.Tracked) {fe : Fdevent} {eof : Bool} (hsvc : s.svc = .scanning fe eof) :
    (s.scan fe eof).Tracked := by
  have hborn : s.svc ≠ .unborn := fun heq => by rw [hsvc] at heq; cases heq
  obtain ⟨hbuf, heof⟩ : s.engReadBuf = s.handling.flatMap Reply.tagged ∧
      (eof → s.handling = []) :=
    h.holds_at hsvc
  have hcallback : ∃ conn, s.Reads fe.fd conn ∧ (eof → conn ∈ s.gone) :=
    h.callback_at hsvc
  have hstring : stringOf s.engReadBuf = s.handling.flatMap Reply.tagged := by
    rw [hbuf, stringOf_of_forall h.ne_zero]
  unfold Engservice.scan
  simp only [hstring]
  by_cases hnil : s.handling = []
  · rw [if_neg (by rw [hnil]; simp), if_pos (by rw [hnil]; decide)]
    refine h.of_svc hborn ?_ ?_ ?_
    · rfl
    · exact hcallback
    · exact Or.inl ⟨hnil, rfl⟩
  · obtain ⟨r, rs, hhandling⟩ := List.exists_cons_of_ne_nil hnil
    have hmem : 0x3B ∈ (s.handling.flatMap Reply.tagged).map Prod.snd := by
      rw [hhandling, flatMap_tagged_cons, List.map_append, List.map_cons]
      exact List.mem_append_right _ List.mem_cons_self
    rw [if_pos hmem]
    refine h.of_svc hborn ?_ ?_ ?_
    · rfl
    · exact hcallback
    · refine ⟨?_, r, rs, hhandling, ?_, hbuf⟩
      · cases eof with
        | false => rfl
        | true => exact absurd (heof rfl) hnil
      · rw [hhandling, flatMap_tagged_cons, idxOf_separator]

theorem Tracked.copyOut (h : s.Tracked) {fe : Fdevent} {eof : Bool} {ptr : ℕ}
    (hsvc : s.svc = .copying fe eof ptr) : (s.copyOut fe eof ptr).Tracked := by
  have hborn : s.svc ≠ .unborn := fun heq => by rw [hsvc] at heq; cases heq
  obtain ⟨heof, r, rs, hhandling, hptr, hbuf⟩ : eof = false ∧ ∃ r rs, s.handling = r :: rs ∧
      ptr = r.number.length ∧ s.engReadBuf = s.handling.flatMap Reply.tagged :=
    h.holds_at hsvc
  have hcallback : ∃ conn, s.Reads fe.fd conn ∧ (eof → conn ∈ s.gone) :=
    h.callback_at hsvc
  have hne := h.ne_zero
  have hfits := h.handles.1
  rw [hhandling, flatMap_tagged_cons] at hne hfits
  have hdrop : s.engReadBuf.drop (ptr + 1) = r.body ++ rs.flatMap Reply.tagged := by
    rw [hbuf, hhandling, flatMap_tagged_cons, hptr, ← List.drop_drop, List.drop_left,
      List.drop_one, List.tail_cons]
  have hstring : stringOf (s.engReadBuf.drop (ptr + 1)) = r.body ++ rs.flatMap Reply.tagged := by
    rw [hdrop]
    exact stringOf_of_forall fun t ht =>
      hne t (List.mem_append_right _ (List.mem_cons_of_mem _ ht))
  rw [List.length_append, List.length_cons] at hfits
  unfold Engservice.copyOut
  simp only [hstring]
  rw [if_pos (by rw [hptr]; omega)]
  refine h.of_svc hborn ?_ ?_ ?_
  · rfl
  · exact hcallback
  · exact ⟨heof, r, rs, hhandling, hptr, hbuf, rfl⟩

theorem Tracked.cut (h : s.Tracked) {fe : Fdevent} {eof : Bool} {ptr : ℕ}
    (hsvc : s.svc = .cutting fe eof ptr) :
    Tracked { s with engReadBuf := s.engReadBuf.set ptr (none, 0), svc := .parsing fe eof } := by
  have hborn : s.svc ≠ .unborn := fun heq => by rw [hsvc] at heq; cases heq
  obtain ⟨heof, r, rs, hhandling, hptr, hbuf, hwrite⟩ : eof = false ∧
      ∃ r rs, s.handling = r :: rs ∧ ptr = r.number.length ∧
        s.engReadBuf = s.handling.flatMap Reply.tagged ∧
        s.engWriteBuf = r.body ++ rs.flatMap Reply.tagged :=
    h.holds_at hsvc
  have hcallback : ∃ conn, s.Reads fe.fd conn ∧ (eof → conn ∈ s.gone) :=
    h.callback_at hsvc
  refine h.of_svc hborn ?_ ?_ ?_
  · rfl
  · exact hcallback
  · refine ⟨heof, r, rs, hhandling, ?_, hwrite⟩
    change s.engReadBuf.set ptr (none, 0) = _
    rw [hbuf, hhandling, flatMap_tagged_cons, hptr, List.set_append_right _ _ (Nat.le_refl _),
      Nat.sub_self, List.set_cons_zero]

theorem Tracked.parseFd (h : s.Tracked) {fe : Fdevent} {eof : Bool}
    (hsvc : s.svc = .parsing fe eof) : (s.parseFd fe eof).Tracked := by
  have hborn : s.svc ≠ .unborn := fun heq => by rw [hsvc] at heq; cases heq
  obtain ⟨heof, r, rs, hhandling, hbuf, hwrite⟩ : eof = false ∧ ∃ r rs, s.handling = r :: rs ∧
      s.engReadBuf = r.number ++ (none, 0) :: (r.body ++ rs.flatMap Reply.tagged) ∧
      s.engWriteBuf = r.body ++ rs.flatMap Reply.tagged :=
    h.holds_at hsvc
  have hcallback : ∃ conn, s.Reads fe.fd conn ∧ (eof → conn ∈ s.gone) :=
    h.callback_at hsvc
  have hstring : (stringOf s.engReadBuf).map Prod.snd = decimal r.origin.fd := by
    rw [hbuf, stringOf, List.takeWhile_append_of_pos, List.takeWhile_cons_of_neg (by simp),
      List.append_nil, r.map_snd_number]
    intro t ht
    simpa using (ne_zero_of_isDigit (isDigit_of_mem_number ht)).1
  have hshort := (h.handles.2 r (by rw [hhandling]; exact List.mem_cons_self)).2.1
  unfold Engservice.parseFd
  simp only [hstring]
  rw [if_pos hshort, atoi_decimal]
  refine h.of_svc hborn ?_ ?_ ?_
  · rfl
  · exact hcallback
  · exact Or.inr ⟨heof, r, rs, hhandling, rfl, hwrite⟩

/-- The responses that have been handled are delivered, or their client has disconnected. -/
theorem Tracked.handled (h : s.Tracked) (hborn : s.svc ≠ .unborn)
    (hdone : ∀ r ∈ s.handling, s.Delivered r ∨ r.origin.conn ∈ s.gone) :
    Tracked { s with handling := [], svc := .looping } := by
  have hcarries : ∀ o, Carries { s with handling := [], svc := .looping } o → s.Carries o := by
    rintro o (hpending | ⟨r, hr, hro, hunread | hhandling⟩)
    · exact Or.inl hpending
    · exact Or.inr ⟨r, hr, hro, Or.inl hunread⟩
    · cases hhandling
  exact
    { h with
      carried := fun o ho => h.carried o (hcarries o ho)
      refusable := fun fd hfd o ho => h.refusable fd hfd o (hcarries o ho)
      closing := fun fd hfd => by cases hfd
      callback := trivial
      thread := fun hthread => absurd (h.thread hthread) hborn
      handles := by
        refine ⟨by change 0 < ENG_MAX_RW_SIZE; decide, ?_⟩
        intro r hr
        cases hr
      holds := rfl
      routed :=
        { only := h.routed.only
          each := by
            intro r hr
            rcases h.routed.each r hr with hunread | hhandling | hrest
            · exact Or.inl hunread
            · exact Or.inr (Or.inr (hdone r hhandling))
            · exact Or.inr (Or.inr hrest) } }

/-- The text of every response that is handled is in what follows the first number. -/
theorem body_infix {r r' : Reply} {rs : List Reply} (h : r' ∈ r :: rs) :
    r'.body <:+: r.body ++ rs.flatMap Reply.tagged := by
  rcases List.mem_cons.mp h with rfl | h
  · exact (List.prefix_append _ _).isInfix
  · obtain ⟨pre, post, rfl⟩ := List.append_of_mem h
    refine ⟨r.body ++ pre.flatMap Reply.tagged ++ (r'.number ++ [(some r'.origin, 0x3B)]),
      post.flatMap Reply.tagged, ?_⟩
    rw [List.flatMap_append, flatMap_tagged_cons]
    simp only [List.append_assoc, List.cons_append, List.nil_append]

theorem Tracked.deliver (h : s.Tracked) (hborn : s.svc ≠ .unborn) {r : Reply} {rs : List Reply}
    (hhandling : s.handling = r :: rs) :
    (Engservice.engWrite { s with handling := [], svc := .looping } r.origin.fd
      (r.body ++ rs.flatMap Reply.tagged)).Tracked := by
  have hmem : r ∈ s.handling := by
    rw [hhandling]
    exact List.mem_cons_self
  have hconn : ∀ r' ∈ s.handling, r'.origin.conn = r.origin.conn := (h.handles.2 r hmem).2.2
  have hcarried := h.carried r.origin (Or.inr ⟨r, (h.handles.2 r hmem).1, rfl, Or.inr hmem⟩)
  unfold Engservice.engWrite
  simp only
  cases hget : get s.files.slots r.origin.fd with
  | none =>
      rw [hget] at hcarried
      have hgone := (hcarried.resolve_left fun heq => by cases heq).2
      exact h.handled hborn fun r' hr' => Or.inr (by rw [hconn r' hr']; exact hgone)
  | some conn =>
      rw [hget] at hcarried
      obtain rfl : conn = r.origin.conn := by
        rcases hcarried with heq | ⟨heq, -⟩
        · exact Option.some.inj heq
        · cases heq
      simp only
      split_ifs with hgone
      · exact (h.handled hborn fun r' hr' => Or.inr (by rw [hconn r' hr']; exact hgone)).ended
      · have hwrite : Tracked { s with written := s.written ++
            [⟨r.origin.conn, r.body ++ rs.flatMap Reply.tagged⟩] } := by
          refine h.addWrite ?_
          intro t ht o ho
          have hin : t ∈ s.handling.flatMap Reply.tagged := by
            rw [hhandling, flatMap_tagged_cons]
            exact List.mem_append_right _ (List.mem_cons_of_mem _ ht)
          obtain ⟨r', hr', ht'⟩ := List.mem_flatMap.mp hin
          obtain ⟨b, -, rfl⟩ := List.mem_map.mp ht'
          cases ho
          exact (hconn r' hr').symm
        refine hwrite.handled hborn fun r' hr' => Or.inl ?_
        refine ⟨_, List.mem_append_right _ (List.mem_singleton_self _), (hconn r' hr').symm, ?_⟩
        rw [hhandling] at hr'
        exact body_infix hr'

theorem Tracked.respond (h : s.Tracked) {fe : Fdevent} {eof : Bool} {destFd : ℤ} {k : ℕ}
    (hsvc : s.svc = .responding fe eof destFd) (hroom : (stringOf s.engWriteBuf).length ≤ k) :
    (s.respond fe eof destFd k).Tracked := by
  have hborn : s.svc ≠ .unborn := fun heq => by rw [hsvc] at heq; cases heq
  have hcallback : ∃ conn, s.Reads fe.fd conn ∧ (eof → conn ∈ s.gone) :=
    h.callback_at hsvc
  have hholds : s.handling = [] ∧ s.engWriteBuf = [] ∨
      eof = false ∧ ∃ r rs, s.handling = r :: rs ∧ destFd = r.origin.fd ∧
        s.engWriteBuf = r.body ++ rs.flatMap Reply.tagged := h.holds_at hsvc
  unfold Engservice.respond
  rcases hholds with ⟨hnil, hbuf⟩ | ⟨heof, r, rs, hhandling, hdest, hbuf⟩
  · have hquiet : Tracked { s with handling := [], svc := .looping } :=
      h.handled hborn fun r hr => by
        rw [hnil] at hr
        cases hr
    split_ifs with heof
    · have hleave : Tracked { s with svc := .leaving fe } := by
        obtain ⟨conn, hreads, hgone⟩ := hcallback
        refine h.of_svc hborn ?_ ?_ ?_
        · rfl
        · exact ⟨conn, hreads, hgone heof⟩
        · exact hnil
      rw [hnil] at hleave
      exact hleave
    · have hnothing : (stringOf s.engWriteBuf).take k = [] := by
        rw [hbuf]
        exact List.take_nil
      rw [hnothing]
      exact hquiet.engWrite destFd.toNat []
    · have hquiet' : Tracked { s with
          handling := [], engWriteBuf := untagged ENG_DESTERROR, svc := .looping } :=
        hquiet.of_svc (fun heq => by cases heq) rfl trivial rfl
      exact hquiet'.engWrite fe.fd ENG_DESTERROR
  · subst heof
    rw [if_neg Bool.false_ne_true, if_pos (by rw [hdest]; exact Int.natCast_nonneg _), hdest,
      Int.toNat_natCast]
    have hne := h.ne_zero
    rw [hhandling, flatMap_tagged_cons] at hne
    have hstring : stringOf s.engWriteBuf = r.body ++ rs.flatMap Reply.tagged := by
      rw [hbuf]
      exact stringOf_of_forall fun t ht =>
        hne t (List.mem_append_right _ (List.mem_cons_of_mem _ ht))
    rw [List.take_of_length_le hroom, hstring]
    exact h.deliver hborn hhandling

/-! ## `eng_event_unreg` -/

/-- A descriptor that `eng_event_unreg` closes: what is under way with its number is for clients
that have disconnected. -/
theorem Tracked.close (h : s.Tracked) (hborn : s.svc ≠ .unborn) {owner fd : ℕ} {p : SvcThread}
    {fdTable : List (Option Fdevent)} {listPending : List Fdevent}
    (hfd : ∀ o, s.Carries o → o.fd = fd → o.conn ∈ s.gone)
    (hclosing : ∀ i, p.closing = some i → i = fd)
    (hcallback : CallbackReady { s with files := s.files.close owner fd, svc := p })
    (hholds : Holds { s with svc := p }) :
    Tracked { s with
      files := s.files.close owner fd
      fdTable
      listPending
      svc := p } := by
  have hslot : ∀ i, get (s.files.close owner fd).slots i =
      if i = fd then none else get s.files.slots i := fun i => get_free _ _ i
  exact
    { h with
      carried := by
        intro o ho
        change get (s.files.close owner fd).slots o.fd = _ ∨
          get (s.files.close owner fd).slots o.fd = _ ∧ _
        rw [hslot]
        split_ifs with hofd
        · exact Or.inr ⟨rfl, hfd o ho hofd⟩
        · exact h.carried o ho
      closing := by
        intro i hi o ho hofd
        rw [hclosing i hi] at hofd
        exact hfd o ho hofd
      callback := hcallback
      thread := fun hthread => absurd (h.thread hthread) hborn
      handles := h.handles
      holds := hholds
      routed := { h.routed with } }

theorem Tracked.engEventUnreg (h : s.Tracked) {fe : Fdevent} (hsvc : s.svc = .leaving fe) :
    (s.engEventUnreg fe).Tracked := by
  have hborn : s.svc ≠ .unborn := fun heq => by rw [hsvc] at heq; cases heq
  have hnone : s.handling = [] := h.holds_at hsvc
  obtain ⟨conn, hreads, hgone⟩ : ∃ conn, s.Reads fe.fd conn ∧ conn ∈ s.gone :=
    h.callback_at hsvc
  have hfd : ∀ o, s.Carries o → o.fd = fe.fd → o.conn ∈ s.gone := by
    intro o ho hofd
    rcases h.carried o ho with heq | ⟨-, hconn⟩
    · rw [hofd, hreads.1] at heq
      rw [← Option.some.inj heq]
      exact hgone
    · exact hconn
  unfold Engservice.engEventUnreg
  simp only
  split
  · exact h.close hborn hfd (fun i hi => by cases hi) trivial hnone
  · next c hc =>
    split_ifs
    · have hcfd : c.fe.fd = fe.fd := by simpa using get_findIdx hc
      rw [hcfd]
      exact h.close hborn hfd (fun i hi => (Option.some.inj hi).symm) trivial hnone
    · exact h.ended

theorem Tracked.svcStep (h : s.Tracked) {k : ℕ} {ok : Bool} (hsafe : s.Orderly (.svc k ok)) :
    (s.svcStep k ok).Tracked := by
  cases hsvc : s.svc with
  | looping => exact h.loop hsvc
  | reading fe type destFd =>
      simp only [Engservice.svcStep, hsvc]
      exact h.readClient hsvc hsafe
  | unborn =>
      simp only [Engservice.svcStep, hsvc]
      exact h
  | selecting rfd =>
      simp only [Engservice.svcStep, hsvc]
      exact h.select hsvc
  | entered fe type destFd =>
      simp only [Engservice.svcStep, hsvc]
      have hnone := h.handling_eq_nil (Or.inr (Or.inr ⟨fe, type, destFd, hsvc⟩))
      refine h.of_svc (fun heq => by rw [hsvc] at heq; cases heq) ?_ ?_ ?_
      · rfl
      · trivial
      · exact ⟨hnone, fun _ => rfl⟩
  | sending fe type destFd conn eof =>
      simp only [Engservice.svcStep, hsvc]
      exact h.appclientEventFunc hsvc k
  | scanning fe eof =>
      simp only [Engservice.svcStep, hsvc]
      exact h.scan hsvc
  | copying fe eof ptr =>
      simp only [Engservice.svcStep, hsvc]
      exact h.copyOut hsvc
  | cutting fe eof ptr =>
      simp only [Engservice.svcStep, hsvc]
      exact h.cut hsvc
  | parsing fe eof =>
      simp only [Engservice.svcStep, hsvc]
      exact h.parseFd hsvc
  | responding fe eof destFd =>
      simp only [Engservice.svcStep, hsvc]
      unfold Orderly at hsafe
      simp only [hsvc] at hsafe
      exact h.respond hsvc hsafe
  | leaving fe =>
      simp only [Engservice.svcStep, hsvc]
      exact h.engEventUnreg hsvc
  | destroyed i fe =>
      simp only [Engservice.svcStep, hsvc]
      exact
        { h with
          closing := fun fd hfd => h.closing fd (by rw [hsvc]; exact hfd)
          callback := trivial
          thread := fun hthread => by
            have hborn := h.thread hthread
            rw [hsvc] at hborn
            cases hborn
          handles := h.handles
          holds := h.holds_at hsvc
          routed := { h.routed with } }
  | cleared fe =>
      simp only [Engservice.svcStep, hsvc]
      have hnone : s.handling = [] := h.holds_at hsvc
      refine h.close (fun heq => by rw [hsvc] at heq; cases heq) ?_ (fun i hi => by cases hi) trivial
        hnone
      exact h.closing fe.fd (by rw [hsvc]; rfl)

/-! ## Clients -/

theorem mem_send {conn c : ℕ} {data : List Tagged} {t : Tagged} :
    t ∈ (s.send conn data).inbox c ↔ t ∈ s.inbox c ∨ c = conn ∧ t ∈ data := by
  simp only [Engservice.send]
  split_ifs with hc
  · rw [List.mem_append, and_iff_right hc]
  · simp [hc]

theorem send_eq_nil (h : s.Tracked) {conn : ℕ} (hconn : conn ∈ s.clients) (data : List Tagged) :
    ∀ c, c ∉ s.clients → (s.send conn data).inbox c = [] := by
  intro c hc
  simp only [Engservice.send]
  rw [if_neg]
  · exact h.inbox c hc
  · rintro rfl
    exact hc hconn

theorem Tracked.send (h : s.Tracked) {conn : ℕ} (hconn : conn ∈ s.clients) (data : List UInt8) :
    (s.send conn (untagged data)).Tracked := by
  refine h.of_main ⟨rfl, rfl, rfl, rfl, rfl, rfl, rfl, rfl⟩ (Or.inl rfl) ?_
    (send_eq_nil h hconn _) (fun o _ => Or.inl rfl) (fun i hi => Or.inl hi)
    fun i c hreads => hreads
  intro r
  refine exists_congr fun c => and_congr_right fun _ => ?_
  constructor
  · rintro ⟨t, ht, htag⟩
    rcases mem_send.mp ht with ht | ⟨-, ht⟩
    · exact ⟨t, ht, htag⟩
    · obtain ⟨b, -, rfl⟩ := List.mem_map.mp ht
      cases htag
  · rintro ⟨t, ht, htag⟩
    exact ⟨t, mem_send.mpr (Or.inl ht), htag⟩

theorem Reply.tag_of_mem {r : Reply} {t : Tagged} (h : t ∈ r.tagged) : t.1 = some r.origin := by
  obtain ⟨b, -, rfl⟩ := List.mem_map.mp h
  rfl

/-- The modem client answers a request, and its response carries what the request carried. -/
theorem Tracked.reply (h : s.Tracked) {conn : ℕ} (hconn : conn ∈ s.clients) (text : List UInt8) :
    (s.reply conn text).Tracked := by
  unfold Engservice.reply
  split
  · exact h
  next p hp =>
  split_ifs
  swap
  · exact h
  have hmem : p ∈ s.pending := List.mem_of_find?_eq_some hp
  have hunread : ∀ r : Reply, (s.send conn (Reply.tagged ⟨p.origin, cstring text⟩)).Unread r →
      s.Unread r ∨ r.origin = p.origin := by
    rintro r ⟨c, hc, t, ht, htag⟩
    rcases mem_send.mp ht with ht | ⟨-, ht⟩
    · exact Or.inl ⟨c, hc, t, ht, htag⟩
    · rw [Reply.tag_of_mem ht] at htag
      exact Or.inr (Option.some.inj htag).symm
  have hcarries : ∀ o, Carries { s.send conn (Reply.tagged ⟨p.origin, cstring text⟩) with
      pending := s.pending.eraseP (·.modem = conn)
      sent := s.sent ++ [⟨p.origin, cstring text⟩] } o → s.Carries o := by
    rintro o (⟨q, hq, hqo⟩ | ⟨r, hr, rfl, hunder⟩)
    · exact Or.inl ⟨q, List.mem_of_mem_eraseP hq, hqo⟩
    · rcases List.mem_append.mp hr with hr | hr
      · rcases hunder with hun | hhandling
        · rcases hunread r hun with hun | heq
          · exact Or.inr ⟨r, hr, rfl, Or.inl hun⟩
          · exact Or.inl ⟨p, hmem, heq.symm⟩
        · exact Or.inr ⟨r, hr, rfl, Or.inr hhandling⟩
      · rw [List.mem_singleton.mp hr]
        exact Or.inl ⟨p, hmem, rfl⟩
  exact
    { h with
      carried := fun o ho => h.carried o (hcarries o ho)
      refusable := fun fd hfd o ho => h.refusable fd hfd o (hcarries o ho)
      closing := fun fd hfd o ho => h.closing fd hfd o (hcarries o ho)
      inbox := send_eq_nil h hconn _
      text := by
        intro r hr
        rcases List.mem_append.mp hr with hr | hr
        · exact h.text r hr
        · rw [List.mem_singleton.mp hr]
          exact zero_not_mem_cstring text
      handles := ⟨h.handles.1, fun r hr =>
        ⟨List.mem_append_left _ (h.handles.2 r hr).1, (h.handles.2 r hr).2⟩⟩
      routed :=
        { only := h.routed.only
          each := by
            intro r hr
            rcases List.mem_append.mp hr with hr | hr
            · rcases h.routed.each r hr with ⟨c, hc, t, ht, htag⟩ | hrest
              · exact Or.inl ⟨c, hc, t, mem_send.mpr (Or.inl ht), htag⟩
              · exact Or.inr hrest
            · rw [List.mem_singleton.mp hr]
              refine Or.inl ⟨conn, hconn, (some p.origin, 0x3B), mem_send.mpr (Or.inr ⟨rfl, ?_⟩), rfl⟩
              rw [Reply.tagged_eq]
              exact List.mem_append_right _ List.mem_cons_self } }

theorem Tracked.hangUp (h : s.Tracked) (conn : ℕ) : Tracked { s with gone := conn :: s.gone } := by
  have hgone : ∀ c ∈ s.gone, c ∈ conn :: s.gone := fun c hc => List.mem_cons_of_mem conn hc
  exact
    { h with
      carried := fun o ho => (h.carried o ho).imp id fun hnone => ⟨hnone.1, hgone _ hnone.2⟩
      refusable := fun fd hfd o ho hofd => hgone _ (h.refusable fd hfd o ho hofd)
      closing := fun fd hfd o ho hofd => hgone _ (h.closing fd hfd o ho hofd)
      callback := h.callback.of_reads rfl (fun _ _ hreads => hreads) hgone
      handles := h.handles
      routed :=
        { only := h.routed.only
          each := fun r hr => (h.routed.each r hr).imp id (Or.imp id (Or.imp id (hgone _))) } }

theorem tracked_step (s : Engservice) (e : Event) (hsafe : s.Orderly e) (h : s.Tracked) :
    (s.step e).Tracked := by
  unfold step
  by_cases hended : s.ended
  · rw [if_pos hended]
    exact h
  rw [if_neg hended]
  cases e with
  | main k ok => exact h.mainStep hsafe
  | svc k ok => exact h.svcStep hsafe
  | send conn data =>
      simp only
      split_ifs with hconn
      · exact h.send hconn.1 data
      · exact h
  | reply conn text =>
      simp only
      split_ifs with hconn
      · exact h.reply hconn.1 text
      · exact h
  | hangUp conn =>
      simp only
      split_ifs
      · exact h.hangUp conn
      · exact h

/-! ## Whole runs -/

/-- In every state of a run whose steps meet `Orderly`, responses have gone to their clients. -/
theorem routed_run (n : ℕ) {es fs : List Event} (hfs : fs <+: es)
    (hes : Run.Meets step Orderly (start n) es) : (Run.run step (start n) fs).Routed :=
  Tracked.routed (Run.invariant_prefix tracked_step hfs hes (tracked_start n))

/-- The monitor, the modem client and an application register, and `"AT"` is passed on. -/
def oneRequest : List Event :=
  registration 4 ENG_MONITOR ++ registration 5 ENG_MODEM ++ registration 6 ENG_APPCLIENT ++
    [.send 6 [65, 84]] ++ List.replicate 6 (.svc 100 true)

theorem routed_run_single :
    (Run.run step (start 4) (oneRequest ++ [.reply 5 [79, 75]] ++
      List.replicate 10 (.svc 100 true))).Routed :=
  routed_run 4 List.prefix_rfl (by decide +kernel)

/-- The client disconnects while its request is with the modem client, and the next
client gets its descriptor and its answer. -/
theorem not_routed_reuse :
    ¬ ∀ (n : ℕ) (es : List Event), (Run.run step (start n) es).Routed := by
  intro h
  have hrouted := (h 4 (oneRequest ++ [.hangUp 6] ++ List.replicate 9 (.svc 100 true) ++
    registration 7 ENG_APPCLIENT ++ [.reply 5 [79, 75]] ++
    List.replicate 10 (.svc 100 true))).only
  have hconn := hrouted ⟨7, [(some ⟨6, 6, 0⟩, 79), (some ⟨6, 6, 0⟩, 75)]⟩ (by decide +kernel)
    (some ⟨6, 6, 0⟩, 79) List.mem_cons_self ⟨6, 6, 0⟩ rfl
  exact absurd hconn (by decide)

/-- A registration that clears `eng_read_buf` before the number is read sends the answer to
descriptor 0. -/
example : (Run.run step (start 4) (oneRequest ++ [.main 0 true, .reply 5 [79, 75]] ++
    List.replicate 7 (.svc 100 true) ++ [.main 0 true] ++
    List.replicate 3 (.svc 100 true))).written.getLast? =
      some ⟨0, [(some ⟨6, 6, 0⟩, 79), (some ⟨6, 6, 0⟩, 75)]⟩ := by
  decide +kernel

end Engservice

end Engcs

end Tarako
