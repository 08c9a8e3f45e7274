import Tarako.Lib.Ring
import Tarako.Lib.Run
import Tarako.Lib.Tokens

/-!
# The message queue of the camera library

The ring of `cmr_msg.c` under any number of threads. What a thread does under the mutex
is one step; a post reads `msg_write` in a step of its own, before it takes the mutex,
and `sem_wait` and `sem_post` are steps of their own. Full and empty are told apart by
`msg_number`: a post that fills the ring puts `msg_write` back, and the message it has
just stored is lost. `fifo_of_roomy` says that the queue is a FIFO in every run in which
no post fills the ring.
-/

namespace Tarako

namespace CmrMsg

open Ring

variable {α : Type*} {count : ℕ}

/-- `cmr_msg_cxt`: the ring of `count` messages, the semaphore, and whether a thread
holds the mutex. -/
structure CmrMsgCxt (α : Type*) (count : ℕ) where
  msgSem : ℕ
  msgNumber : ℕ
  msgHead : Fin count → α
  msgWrite : Fin count
  msgRead : Fin count
  locked : Bool

/-- Where a thread stands: outside, in a post that has read `msg_write`, in one that has
released the mutex, or in a get or a peak that has passed the semaphore. -/
inductive Thread (α : Type*) (count : ℕ)
  | idle
  | posting (message : α) (oriNode : Fin count)
  | posted
  | getting
  | peaking

/-- What a call returns; `undelivered` is the number of undelivered messages at a refusal. -/
inductive Return (α : Type*)
  | posted
  | overflow (undelivered : ℕ)
  | got (message : Option α)
  | underflow
  | peaked (message : α)
  | noOtherMsg
  deriving DecidableEq

def next (i : Fin count) : Fin count :=
  if h : i + 1 > count - 1 then ⟨0, i.pos⟩ else ⟨i + 1, by omega⟩

namespace CmrMsgCxt

/-- `cmr_msg_post` under the mutex; no result when it returns `CMR_MSG_OVERFLOW`. -/
def post (c : CmrMsgCxt α count) (message : α) (oriNode : Fin count) :
    Option (CmrMsgCxt α count) :=
  if c.msgNumber ≥ count then none
  else
    let msgWrite := next c.msgWrite
    some
      { c with
        msgHead := Function.update c.msgHead c.msgWrite message
        msgWrite := if msgWrite = c.msgRead then oriNode else msgWrite
        msgNumber := c.msgNumber + 1 }

def get (c : CmrMsgCxt α count) : CmrMsgCxt α count × Return α :=
  if c.msgNumber = 0 then (c, .underflow)
  else if c.msgRead ≠ c.msgWrite then
    ({ c with msgRead := next c.msgRead, msgNumber := c.msgNumber - 1 },
      .got (some (c.msgHead c.msgRead)))
  else ({ c with msgNumber := c.msgNumber - 1 }, .got none)

/-- `cmr_msg_peak` under the mutex; the return without a message keeps the mutex. -/
def peak (c : CmrMsgCxt α count) : CmrMsgCxt α count × Return α :=
  if c.msgRead ≠ c.msgWrite then
    ({ c with msgRead := next c.msgRead, msgNumber := c.msgNumber - 1 },
      .peaked (c.msgHead c.msgRead))
  else ({ c with locked := true }, .noOtherMsg)

end CmrMsgCxt

def Return.message : Return α → Option α
  | got message => message
  | peaked message => some message
  | _ => none

inductive Event (α : Type*)
  | postBegin (t : ℕ) (message : α)
  | postLock (t : ℕ)
  | postSem (t : ℕ)
  | getWait (t : ℕ)
  | getLock (t : ℕ)
  | peakTry (t : ℕ)
  | peakLock (t : ℕ)

/-- The queue and its threads, the messages that posts have put in, those that gets and
peaks have handed out, each in order, and what the calls have returned. -/
structure System (α : Type*) (count : ℕ) where
  cxt : CmrMsgCxt α count
  threads : List (Thread α count)
  accepted : List α
  delivered : List α
  returns : List (Return α)

namespace System

/-- `cmr_msg_queue_create`, over memory as `malloc` returned it, and `n` threads. -/
def start (hcount : 0 < count) (memory : Fin count → α) (n : ℕ) : System α count :=
  { cxt := ⟨0, 0, memory, ⟨0, hcount⟩, ⟨0, hcount⟩, false⟩
    threads := List.replicate n .idle
    accepted := []
    delivered := []
    returns := [] }

def undelivered (s : System α count) : ℕ := s.accepted.length - s.delivered.length

def finish (s : System α count) (t : ℕ) (c : CmrMsgCxt α count) (r : Return α) :
    System α count :=
  { s with
    cxt := c
    threads := s.threads.set t .idle
    delivered := s.delivered ++ r.message.toList
    returns := s.returns ++ [r] }

/-- A step that its thread cannot take leaves the system as it is. -/
def step (s : System α count) : Event α → System α count
  | .postBegin t message =>
      match s.threads[t]? with
      | some .idle => { s with threads := s.threads.set t (.posting message s.cxt.msgWrite) }
      | _ => s
  | .postLock t =>
      match s.threads[t]? with
      | some (.posting message oriNode) =>
          if s.cxt.locked then s
          else
            match s.cxt.post message oriNode with
            | none => s.finish t s.cxt (.overflow s.undelivered)
            | some c =>
                { s with
                  cxt := c
                  threads := s.threads.set t .posted
                  accepted := s.accepted ++ [message] }
      | _ => s
  | .postSem t =>
      match s.threads[t]? with
      | some .posted => s.finish t { s.cxt with msgSem := s.cxt.msgSem + 1 } .posted
      | _ => s
  | .getWait t =>
      match s.threads[t]? with
      | some .idle =>
          if s.cxt.msgSem = 0 then s
          else
            { s with
              cxt := { s.cxt with msgSem := s.cxt.msgSem - 1 }
              threads := s.threads.set t .getting }
      | _ => s
  | .getLock t =>
      match s.threads[t]? with
      | some .getting =>
          if s.cxt.locked then s else s.finish t s.cxt.get.1 s.cxt.get.2
      | _ => s
  | .peakTry t =>
      match s.threads[t]? with
      | some .idle =>
          if s.cxt.msgSem = 0 then s.finish t s.cxt .noOtherMsg
          else
            { s with
              cxt := { s.cxt with msgSem := s.cxt.msgSem - 1 }
              threads := s.threads.set t .peaking }
      | _ => s
  | .peakLock t =>
      match s.threads[t]? with
      | some .peaking =>
          if s.cxt.locked then s else s.finish t s.cxt.peak.1 s.cxt.peak.2
      | _ => s

def run (s : System α count) (es : List (Event α)) : System α count := Run.run step s es

/-- What a step can do to `s`: nothing, or what the state of its thread allows. -/
inductive Moves (s : System α count) : Event α → System α count → Prop
  | stay (e : Event α) : Moves s e s
  | begin {t : ℕ} (message : α) (hx : s.threads[t]? = some .idle) :
      Moves s (.postBegin t message)
        { s with threads := s.threads.set t (.posting message s.cxt.msgWrite) }
  | refuse {t : ℕ} {message : α} {oriNode : Fin count}
      (hx : s.threads[t]? = some (.posting message oriNode))
      (hpost : s.cxt.post message oriNode = none) :
      Moves s (.postLock t) (s.finish t s.cxt (.overflow s.undelivered))
  | accept {t : ℕ} {message : α} {oriNode : Fin count} {c : CmrMsgCxt α count}
      (hx : s.threads[t]? = some (.posting message oriNode))
      (hpost : s.cxt.post message oriNode = some c) :
      Moves s (.postLock t)
        { s with
          cxt := c
          threads := s.threads.set t .posted
          accepted := s.accepted ++ [message] }
  | post {t : ℕ} (hx : s.threads[t]? = some .posted) :
      Moves s (.postSem t) (s.finish t { s.cxt with msgSem := s.cxt.msgSem + 1 } .posted)
  | wait {t : ℕ} (hx : s.threads[t]? = some .idle) (hsem : s.cxt.msgSem ≠ 0) :
      Moves s (.getWait t)
        { s with
          cxt := { s.cxt with msgSem := s.cxt.msgSem - 1 }
          threads := s.threads.set t .getting }
  | get {t : ℕ} (hx : s.threads[t]? = some .getting) :
      Moves s (.getLock t) (s.finish t s.cxt.get.1 s.cxt.get.2)
  | empty {t : ℕ} (hx : s.threads[t]? = some .idle) :
      Moves s (.peakTry t) (s.finish t s.cxt .noOtherMsg)
  | acquire {t : ℕ} (hx : s.threads[t]? = some .idle) (hsem : s.cxt.msgSem ≠ 0) :
      Moves s (.peakTry t)
        { s with
          cxt := { s.cxt with msgSem := s.cxt.msgSem - 1 }
          threads := s.threads.set t .peaking }
  | peak {t : ℕ} (hx : s.threads[t]? = some .peaking) :
      Moves s (.peakLock t) (s.finish t s.cxt.peak.1 s.cxt.peak.2)

theorem moves_step (s : System α count) (e : Event α) : Moves s e (s.step e) := by
  cases e with
  | postBegin t message =>
      rw [step]
      split
      case h_1 hx => exact .begin message hx
      case h_2 => exact .stay _
  | postLock t =>
      rw [step]
      split
      case h_1 message oriNode hx =>
        by_cases hlocked : s.cxt.locked = true
        · rw [if_pos hlocked]
          exact .stay _
        · rw [if_neg hlocked]
          split
          case h_1 hpost => exact .refuse hx hpost
          case h_2 c hpost => exact .accept hx hpost
      case h_2 => exact .stay _
  | postSem t =>
      rw [step]
      split
      case h_1 hx => exact .post hx
      case h_2 => exact .stay _
  | getWait t =>
      rw [step]
      split
      case h_1 hx =>
        by_cases hsem : s.cxt.msgSem = 0
        · rw [if_pos hsem]
          exact .stay _
        · rw [if_neg hsem]
          exact .wait hx hsem
      case h_2 => exact .stay _
  | getLock t =>
      rw [step]
      split
      case h_1 hx =>
        by_cases hlocked : s.cxt.locked = true
        · rw [if_pos hlocked]
          exact .stay _
        · rw [if_neg hlocked]
          exact .get hx
      case h_2 => exact .stay _
  | peakTry t =>
      rw [step]
      split
      case h_1 hx =>
        by_cases hsem : s.cxt.msgSem = 0
        · rw [if_pos hsem]
          exact .empty hx
        · rw [if_neg hsem]
          exact .acquire hx hsem
      case h_2 => exact .stay _
  | peakLock t =>
      rw [step]
      split
      case h_1 hx =>
        by_cases hlocked : s.cxt.locked = true
        · rw [if_pos hlocked]
          exact .stay _
        · rw [if_neg hlocked]
          exact .peak hx
      case h_2 => exact .stay _

/-- What the calls have handed out is what went in, in order, as far as it goes, and the
rest is counted; a get that succeeds fills its message, and a post is refused only when
`count` messages are undelivered. -/
structure Fifo (s : System α count) : Prop where
  delivered_prefix : s.delivered <+: s.accepted
  number_eq : s.accepted.length = s.delivered.length + s.cxt.msgNumber
  get_fills : .got none ∉ s.returns
  refused : ∀ n, .overflow n ∈ s.returns → n = count

def Roomy (s : System α count) : Event α → Prop
  | .postLock _ => s.cxt.msgNumber < count → s.undelivered + 1 < count
  | _ => True

end System

/-! ## The ring -/

theorem val_next (i : Fin count) : (next i : ℕ) = (i + 1) % count := by
  have hi := i.isLt
  by_cases h : (i : ℕ) + 1 > count - 1
  · have hlast : (i : ℕ) + 1 = count := by omega
    rw [next, dif_pos h, hlast, Nat.mod_self]
  · rw [next, dif_neg h, Nat.mod_eq_of_lt (by omega)]

namespace CmrMsgCxt

def slot (c : CmrMsgCxt α count) (i : ℕ) : Option α :=
  if h : i < count then some (c.msgHead ⟨i, h⟩) else none

/-- The ring holds the messages `l`, from `msg_read` up to `msg_write`, and has a free slot. -/
structure Queued (c : CmrMsgCxt α count) (l : List α) : Prop where
  number : c.msgNumber = l.length
  room : l.length < count
  write : (c.msgWrite : ℕ) = (c.msgRead + l.length) % count
  holds : Holds c.slot count c.msgRead l

theorem slot_val (c : CmrMsgCxt α count) (i : Fin count) : c.slot i = some (c.msgHead i) := by
  rw [slot, dif_pos i.isLt]

theorem Queued.sem {c : CmrMsgCxt α count} {l : List α} (h : c.Queued l) (n : ℕ) :
    CmrMsgCxt.Queued { c with msgSem := n } l := ⟨h.number, h.room, h.write, h.holds⟩

theorem Queued.read_ne_write {c : CmrMsgCxt α count} {l : List α} (h : c.Queued l)
    (hl : l ≠ []) : c.msgRead ≠ c.msgWrite := by
  intro heq
  have hpos := List.length_pos_iff.mpr hl
  have hslot : ((c.msgRead : ℕ) + 0) % count ≠ (c.msgRead + l.length) % count :=
    slot_ne hpos h.room
  rw [Nat.add_zero, Nat.mod_eq_of_lt c.msgRead.isLt, ← h.write, heq] at hslot
  exact hslot rfl

/-- A post that leaves a slot free puts its message behind the others; what it read of
`msg_write` before plays no part. -/
theorem Queued.post {c : CmrMsgCxt α count} {l : List α} (h : c.Queued l)
    (hroom : l.length + 1 < count) (message : α) (oriNode : Fin count) :
    ∃ d, c.post message oriNode = some d ∧ d.Queued (l ++ [message]) ∧
      d.locked = c.locked ∧ d.msgSem = c.msgSem := by
  have hsum : ((next c.msgWrite : Fin count) : ℕ) = (c.msgRead + (l.length + 1)) % count := by
    rw [val_next, h.write, Nat.mod_add_mod, Nat.add_assoc]
  have hne : next c.msgWrite ≠ c.msgRead := by
    intro heq
    have hslot : ((c.msgRead : ℕ) + 0) % count ≠ (c.msgRead + (l.length + 1)) % count :=
      slot_ne (Nat.succ_pos _) hroom
    rw [Nat.add_zero, Nat.mod_eq_of_lt c.msgRead.isLt, ← hsum, heq] at hslot
    exact hslot rfl
  have hpost : c.post message oriNode = some
      { c with
        msgHead := Function.update c.msgHead c.msgWrite message
        msgWrite := next c.msgWrite
        msgNumber := c.msgNumber + 1 } := by
    rw [CmrMsgCxt.post, if_neg (by rw [h.number]; omega)]
    simp only [hne, if_false]
  refine ⟨_, hpost, ⟨?_, ?_, ?_, ?_⟩, rfl, rfl⟩
  · rw [List.length_append, List.length_singleton]
    exact congrArg (· + 1) h.number
  · rw [List.length_append, List.length_singleton]
    exact hroom
  · rw [List.length_append, List.length_singleton]
    exact hsum
  · refine h.holds.push h.room ?_ fun i hi => ?_
    · rw [← h.write, slot_val]
      simp
    · rw [← h.write] at hi
      by_cases hlt : i < count
      · have hfin : (⟨i, hlt⟩ : Fin count) ≠ c.msgWrite := fun heq => hi (by rw [← heq])
        simp [slot, hlt, Function.update_of_ne hfin]
      · simp [slot, hlt]

theorem Queued.tail {c : CmrMsgCxt α count} {a : α} {l : List α} (h : c.Queued (a :: l)) :
    c.msgHead c.msgRead = a ∧
      CmrMsgCxt.Queued { c with msgRead := next c.msgRead, msgNumber := c.msgNumber - 1 } l := by
  have hlen := h.room
  rw [List.length_cons] at hlen
  constructor
  · have hslot := h.holds 0 (Nat.zero_lt_succ _)
    rw [Nat.add_zero, Nat.mod_eq_of_lt c.msgRead.isLt, slot_val] at hslot
    exact Option.some.inj hslot
  · refine ⟨?_, by omega, ?_, ?_⟩
    · have hnumber := h.number
      rw [List.length_cons] at hnumber
      change c.msgNumber - 1 = l.length
      omega
    · change (c.msgWrite : ℕ) = ((next c.msgRead : Fin count) + l.length) % count
      rw [h.write, val_next, Nat.mod_add_mod, List.length_cons]
      congr 1
      omega
    · have htail := h.holds.tail
      rw [← val_next] at htail
      exact htail

theorem Queued.get {c : CmrMsgCxt α count} {a : α} {l : List α} (h : c.Queued (a :: l)) :
    c.get = ({ c with msgRead := next c.msgRead, msgNumber := c.msgNumber - 1 },
      .got (some a)) := by
  have hzero : c.msgNumber ≠ 0 := by
    rw [h.number]
    exact Nat.succ_ne_zero _
  rw [CmrMsgCxt.get, if_neg hzero, if_pos (h.read_ne_write (List.cons_ne_nil a l)), h.tail.1]

theorem Queued.peak {c : CmrMsgCxt α count} {a : α} {l : List α} (h : c.Queued (a :: l)) :
    c.peak = ({ c with msgRead := next c.msgRead, msgNumber := c.msgNumber - 1 }, .peaked a) := by
  rw [CmrMsgCxt.peak, if_pos (h.read_ne_write (List.cons_ne_nil a l)), h.tail.1]

end CmrMsgCxt

/-! ## The threads -/

/-- The thread has stored a message whose `sem_post` is to come. -/
def Thread.posts : Thread α count → Bool
  | posted => true
  | _ => false

/-- The thread has taken the semaphore for a message that it has not taken yet. -/
def Thread.takes : Thread α count → Bool
  | getting | peaking => true
  | _ => false

namespace System

/-- The mutex is free, the ring holds what was accepted and not delivered, and each of
these messages has one token: in the semaphore, with the thread that is going to post
it, or with one that has come to take a message. -/
structure Inv (s : System α count) : Prop where
  unlocked : s.cxt.locked = false
  queued : ∃ l, s.accepted = s.delivered ++ l ∧ s.cxt.Queued l
  tokens : s.cxt.msgSem + s.threads.countP Thread.posts + s.threads.countP Thread.takes =
    s.cxt.msgNumber
  get_fills : .got none ∉ s.returns
  no_overflow : ∀ n, .overflow n ∉ s.returns

theorem inv_start (hcount : 0 < count) (memory : Fin count → α) (n : ℕ) :
    (start hcount memory n).Inv where
  unlocked := rfl
  queued := ⟨[], rfl, rfl, hcount, (Nat.mod_eq_of_lt hcount).symm, holds_nil _ _ _⟩
  tokens := by simp [start, List.countP_replicate, Thread.posts, Thread.takes]
  get_fills := List.not_mem_nil
  no_overflow := fun _ => List.not_mem_nil

theorem Inv.fifo {s : System α count} (h : s.Inv) : s.Fifo := by
  obtain ⟨l, haccepted, hqueued⟩ := h.queued
  refine ⟨⟨l, haccepted.symm⟩, ?_, h.get_fills, fun n hn => absurd hn (h.no_overflow n)⟩
  rw [haccepted, List.length_append, hqueued.number]

theorem undelivered_eq {s : System α count} {l : List α}
    (hl : s.accepted = s.delivered ++ l) : s.undelivered = l.length := by
  rw [System.undelivered, hl, List.length_append, Nat.add_sub_cancel_left]

theorem Inv.finish {s : System α count} (h : s.Inv) {t : ℕ} {x : Thread α count}
    (hx : s.threads[t]? = some x) {c : CmrMsgCxt α count} {r : Return α}
    (hunlocked : c.locked = false)
    (hqueued : ∃ l, s.accepted = s.delivered ++ r.message.toList ++ l ∧ c.Queued l)
    (htokens : c.msgSem + s.threads.countP Thread.posts + s.threads.countP Thread.takes =
      c.msgNumber + x.posts.toNat + x.takes.toNat)
    (hgot : r ≠ .got none) (hoverflow : ∀ n, r ≠ .overflow n) : (s.finish t c r).Inv where
  unlocked := hunlocked
  queued := hqueued
  tokens := by
    have hposts := Tokens.countP_set_add Thread.posts hx .idle
    have htakes := Tokens.countP_set_add Thread.takes hx .idle
    simp only [Thread.posts, Thread.takes, Bool.toNat_false, Nat.add_zero] at hposts htakes
    change c.msgSem + (s.threads.set t .idle).countP Thread.posts +
      (s.threads.set t .idle).countP Thread.takes = c.msgNumber
    simp only [Thread.posts, Thread.takes] at htokens
    omega
  get_fills := by
    intro hmem
    obtain hmem | hmem := List.mem_append.mp hmem
    · exact h.get_fills hmem
    · exact hgot (List.mem_singleton.mp hmem).symm
  no_overflow := by
    intro n hmem
    obtain hmem | hmem := List.mem_append.mp hmem
    · exact h.no_overflow n hmem
    · exact hoverflow n (List.mem_singleton.mp hmem).symm

theorem Inv.move {s : System α count} (h : s.Inv) {t : ℕ} {x : Thread α count}
    (hx : s.threads[t]? = some x) (y : Thread α count) {c : CmrMsgCxt α count}
    {accepted : List α} (hunlocked : c.locked = false)
    (hqueued : ∃ l, accepted = s.delivered ++ l ∧ c.Queued l)
    (htokens : c.msgSem + s.threads.countP Thread.posts + s.threads.countP Thread.takes +
      y.posts.toNat + y.takes.toNat = c.msgNumber + x.posts.toNat + x.takes.toNat) :
    Inv { s with cxt := c, threads := s.threads.set t y, accepted := accepted } where
  unlocked := hunlocked
  queued := hqueued
  tokens := by
    have hposts := Tokens.countP_set_add Thread.posts hx y
    have htakes := Tokens.countP_set_add Thread.takes hx y
    change c.msgSem + (s.threads.set t y).countP Thread.posts +
      (s.threads.set t y).countP Thread.takes = c.msgNumber
    omega
  get_fills := h.get_fills
  no_overflow := h.no_overflow

theorem Inv.acquire {s : System α count} (h : s.Inv) {t : ℕ} (hx : s.threads[t]? = some .idle)
    (hsem : s.cxt.msgSem ≠ 0) (y : Thread α count) (htakes : y.takes = true)
    (hposts : y.posts = false) :
    Inv { s with
      cxt := { s.cxt with msgSem := s.cxt.msgSem - 1 }
      threads := s.threads.set t y } := by
  obtain ⟨l, haccepted, hqueued⟩ := h.queued
  refine h.move hx y h.unlocked ⟨l, haccepted, hqueued.sem _⟩ ?_
  have htokens := h.tokens
  rw [htakes, hposts]
  simp only [Thread.posts, Thread.takes, Bool.toNat_true, Bool.toNat_false]
  omega

theorem Inv.exists_message {s : System α count} (h : s.Inv) {t : ℕ} {x : Thread α count}
    (hx : s.threads[t]? = some x) (htakes : x.takes = true) :
    ∃ a l, s.accepted = s.delivered ++ (a :: l) ∧ s.cxt.Queued (a :: l) := by
  obtain ⟨l, haccepted, hqueued⟩ := h.queued
  have hpos := Tokens.countP_pos Thread.takes hx htakes
  have htokens := h.tokens
  rw [hqueued.number] at htokens
  cases l with
  | nil =>
      rw [List.length_nil] at htokens
      omega
  | cons a l => exact ⟨a, l, haccepted, hqueued⟩

theorem Inv.take {s : System α count} (h : s.Inv) {t : ℕ} {x : Thread α count}
    (hx : s.threads[t]? = some x) (htakes : x.takes = true) (hposts : x.posts = false)
    {a : α} {l : List α} (haccepted : s.accepted = s.delivered ++ (a :: l))
    (hqueued : s.cxt.Queued (a :: l)) {r : Return α} (hr : r.message = some a) :
    (s.finish t { s.cxt with msgRead := next s.cxt.msgRead, msgNumber := s.cxt.msgNumber - 1 }
      r).Inv := by
  have hnumber := hqueued.number
  rw [List.length_cons] at hnumber
  refine h.finish hx h.unlocked ⟨l, ?_, hqueued.tail.2⟩ ?_ ?_ ?_
  · rw [hr, haccepted, List.append_assoc]
    rfl
  · have htokens := h.tokens
    simp only [htakes, hposts, Bool.toNat_true, Bool.toNat_false]
    omega
  · rintro rfl
    cases hr
  · rintro n rfl
    cases hr

theorem Inv.accept {s : System α count} (h : s.Inv) {t : ℕ} {message : α} {oriNode : Fin count}
    (hx : s.threads[t]? = some (.posting message oriNode)) (hroomy : s.Roomy (.postLock t)) :
    ∃ d, s.cxt.post message oriNode = some d ∧
      Inv { s with
        cxt := d
        threads := s.threads.set t .posted
        accepted := s.accepted ++ [message] } := by
  obtain ⟨l, haccepted, hqueued⟩ := h.queued
  have hroom : l.length + 1 < count := by
    have hlt := hroomy (by rw [hqueued.number]; exact hqueued.room)
    rwa [undelivered_eq haccepted] at hlt
  obtain ⟨d, hpost, hd, hlocked, hsem⟩ := hqueued.post hroom message oriNode
  refine ⟨d, hpost, h.move hx .posted (by rw [hlocked, h.unlocked]) ⟨l ++ [message], ?_, hd⟩ ?_⟩
  · rw [haccepted, List.append_assoc]
  · have htokens := h.tokens
    have hnumber := hd.number
    rw [hqueued.number] at htokens
    rw [List.length_append, List.length_singleton] at hnumber
    simp only [Thread.posts, Thread.takes, Bool.toNat_true, Bool.toNat_false]
    rw [hsem, hnumber]
    omega

theorem Inv.step {s : System α count} (h : s.Inv) (e : Event α) (hroomy : s.Roomy e) :
    (s.step e).Inv := by
  have htokens := h.tokens
  have hmoves := moves_step s e
  generalize s.step e = d at hmoves ⊢
  cases hmoves with
  | stay => exact h
  | begin message hx =>
      exact h.move hx _ h.unlocked h.queued (by simpa [Thread.posts, Thread.takes])
  | refuse hx hpost =>
      obtain ⟨d, hd, -⟩ := h.accept hx hroomy
      rw [hpost] at hd
      cases hd
  | accept hx hpost =>
      obtain ⟨d, hd, hinv⟩ := h.accept hx hroomy
      rw [hpost] at hd
      obtain rfl := Option.some.inj hd
      exact hinv
  | post hx =>
      obtain ⟨l, haccepted, hqueued⟩ := h.queued
      refine h.finish hx h.unlocked ⟨l, ?_, hqueued.sem _⟩ ?_ nofun nofun
      · simpa [Return.message] using haccepted
      · simp only [Thread.posts, Thread.takes, Bool.toNat_true, Bool.toNat_false]
        omega
  | wait hx hsem => exact h.acquire hx hsem .getting rfl rfl
  | get hx =>
      obtain ⟨a, l, haccepted, hqueued⟩ := h.exists_message hx rfl
      rw [hqueued.get]
      exact h.take hx rfl rfl haccepted hqueued rfl
  | empty hx =>
      refine h.finish hx h.unlocked ?_ ?_ nofun nofun
      · simpa [Return.message] using h.queued
      · simpa [Thread.posts, Thread.takes] using htokens
  | acquire hx hsem => exact h.acquire hx hsem .peaking rfl rfl
  | peak hx =>
      obtain ⟨a, l, haccepted, hqueued⟩ := h.exists_message hx rfl
      rw [hqueued.peak]
      exact h.take hx rfl rfl haccepted hqueued rfl

/-- The queue is a FIFO in every state of a run in which no post fills the ring. -/
theorem fifo_of_roomy (hcount : 0 < count) (memory : Fin count → α) (n : ℕ)
    {es fs : List (Event α)} (hfs : fs <+: es)
    (hes : Run.Meets step Roomy (start hcount memory n) es) :
    ((start hcount memory n).run fs).Fifo :=
  (Run.invariant_prefix (fun _ e he hs => hs.step e he) hfs hes (inv_start hcount memory n)).fifo

/-- In such a run the mutex is free between the steps, and a thread that has passed the
semaphore finds a message. -/
theorem unlocked_of_roomy (hcount : 0 < count) (memory : Fin count → α) (n : ℕ)
    {es fs : List (Event α)} (hfs : fs <+: es)
    (hes : Run.Meets step Roomy (start hcount memory n) es) :
    ((start hcount memory n).run fs).cxt.locked = false ∧
      ∀ (t : ℕ) (x : Thread α count), ((start hcount memory n).run fs).threads[t]? = some x →
        x.takes = true → 0 < ((start hcount memory n).run fs).cxt.msgNumber := by
  have h := Run.invariant_prefix (fun _ e he hs => Inv.step hs e he) hfs hes
    (inv_start hcount memory n)
  refine ⟨h.unlocked, fun t x hx htakes => ?_⟩
  obtain ⟨a, l, -, hqueued⟩ := h.exists_message hx htakes
  change 0 < (Run.run step (start hcount memory n) fs).cxt.msgNumber
  rw [hqueued.number]
  exact Nat.zero_lt_succ _

theorem fifo_one_message :
    ((start (show 0 < 2 by omega) (fun _ => 0) 1).run
      [.postBegin 0 7, .postLock 0, .postSem 0, .getWait 0, .getLock 0]).Fifo :=
  fifo_of_roomy (show 0 < 2 by omega) (fun _ => 0) 1 (List.prefix_refl _)
    (by simp [Run.Meets, Roomy, step, start, undelivered])

/-- Two posts fill a queue of two; the second get succeeds without a message. -/
theorem full_queue_loses_message :
    ¬ ((start (show 0 < 2 by omega) (fun _ => 0) 1).run
      [.postBegin 0 7, .postLock 0, .postSem 0, .postBegin 0 8, .postLock 0, .postSem 0,
        .getWait 0, .getLock 0, .getWait 0, .getLock 0]).Fifo := by
  intro h
  refine h.get_fills ?_
  decide

end System

end CmrMsg

end Tarako
