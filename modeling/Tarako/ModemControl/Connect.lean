import Mathlib.Data.Nat.Count

/-!
# Connecting to the modem

`try_to_connect_modem` reads the UART byte by byte: it waits for `0x55` while the modem starts,
shakes hands, and takes what stands between two bytes `0x7E` for the version of the modem, which
it puts into a buffer of `VERSION_SIZE` bytes. Every call of `read` is a step here; it delivers a
byte or nothing. The loop over the version counts the empty reads only, so that nothing but the
modem bounds its length.
-/

namespace Tarako

namespace ModemControl

def UART_TIMEOUT : ℕ := 200

def VERSION_SIZE : ℕ := 64

/-- The calls of `read` that a hunt for `0x55` makes at most. -/
def HUNT_READS : ℕ := 2000000

/-- The call of `read` that is next. -/
inductive Reading
  /-- The loop that waits for `0x55`, with `i`. -/
  | hunt (i : ℕ)
  /-- The call behind the hand shake. -/
  | answer
  /-- The loop over the version, with the position of `data`. -/
  | version (position : ℕ)
  /-- The function has returned. -/
  | connected
  deriving DecidableEq

/-- Where `data` points to in `buffer`. -/
def Reading.position : Reading → ℕ
  | version position => position
  | _ => 0

/-- `modem_connect`, the bytes of the hand shake that have been written, and how often the modem
has been reset. -/
structure Connect where
  reading : Reading
  modemConnect : ℕ
  handShake : ℕ
  resets : ℕ
  deriving DecidableEq

namespace Connect

variable (bootStatus : Bool)

def shake (s : Connect) : Connect :=
  { s with reading := .answer, handShake := s.handShake + 1 }

/-- A turn of the loop begins; `bootStatus` says that `boot_status` is not zero. -/
def turn (s : Connect) : Connect :=
  if UART_TIMEOUT ≤ s.modemConnect ∧ bootStatus = false then
    { s with reading := .hunt 0, resets := s.resets + 1 }
  else s.shake

def endTurn (s : Connect) : Connect :=
  if s.modemConnect = 1 then { s with reading := .connected }
  else turn bootStatus { s with modemConnect := s.modemConnect + 2 }

/-- The hunt ends after `i` reads. -/
def endHunt (s : Connect) (i : ℕ) : Connect :=
  if HUNT_READS ≤ i then turn bootStatus s else { s with modemConnect := 0 }.shake

def readHunt (s : Connect) (i : ℕ) (event : Option UInt8) : Connect :=
  if event = some 0x55 then s.endHunt bootStatus (i + 1)
  else
    let s := if (i + 1) % 1000 = 0 then { s with handShake := s.handShake + 3 } else s
    if i + 1 < HUNT_READS then { s with reading := .hunt (i + 1) }
    else s.endHunt bootStatus (i + 1)

def readAnswer (s : Connect) : Option UInt8 → Connect
  | none => s.endTurn bootStatus
  | some b =>
      if b = 0x7E then { s with modemConnect := 0, reading := .version 1 }
      else if b = 0x55 then
        endTurn bootStatus
          { s with modemConnect := s.modemConnect + 40 + 2, handShake := s.handShake + 3 }
      else endTurn bootStatus { s with modemConnect := s.modemConnect + 2 }

def readVersion (s : Connect) (position : ℕ) : Option UInt8 → Connect
  | none =>
      if s.modemConnect + 2 < UART_TIMEOUT then { s with modemConnect := s.modemConnect + 2 }
      else endTurn bootStatus { s with modemConnect := s.modemConnect + 2 }
  | some b =>
      if b = 0x7E then endTurn bootStatus { s with modemConnect := 1 }
      else if s.modemConnect < UART_TIMEOUT then { s with reading := .version (position + 1) }
      else s.endTurn bootStatus

def step (s : Connect) (event : Option UInt8) : Connect :=
  match s.reading with
  | .hunt i => s.readHunt bootStatus i event
  | .answer => s.readAnswer bootStatus event
  | .version position => s.readVersion bootStatus position event
  | .connected => s

def run (stream : ℕ → Option UInt8) : ℕ → Connect
  | 0 => turn bootStatus ⟨.answer, UART_TIMEOUT, 0, 0⟩
  | n + 1 => (run stream n).step bootStatus (stream n)

end Connect

/-! ## The sessions -/

section Version

variable {bootStatus : Bool} {stream : ℕ → Option UInt8} {k m n position : ℕ}

def bytesIn (stream : ℕ → Option UInt8) (k m : ℕ) : ℕ :=
  Nat.count (fun i => (stream (k + i)).isSome) m

def emptyIn (stream : ℕ → Option UInt8) (k m : ℕ) : ℕ :=
  Nat.count (fun i => (stream (k + i)).isNone) m

/-- From read `k` on, 63 bytes come before the next `0x7E` and before the hundredth empty
read. -/
def LongVersion (stream : ℕ → Option UInt8) (k : ℕ) : Prop :=
  ∃ m, (∀ i < m, stream (k + i) ≠ some 0x7E) ∧ VERSION_SIZE - 1 ≤ bytesIn stream k m ∧
    emptyIn stream k m < 100

theorem count_of_some {b : UInt8} (h : stream (k + m) = some b) :
    bytesIn stream k (m + 1) = bytesIn stream k m + 1 ∧
      emptyIn stream k (m + 1) = emptyIn stream k m := by
  rw [bytesIn, emptyIn, Nat.count_succ, Nat.count_succ, h]
  exact ⟨rfl, rfl⟩

theorem count_of_none (h : stream (k + m) = none) :
    bytesIn stream k (m + 1) = bytesIn stream k m ∧
      emptyIn stream k (m + 1) = emptyIn stream k m + 1 := by
  rw [bytesIn, emptyIn, Nat.count_succ, Nat.count_succ, h]
  exact ⟨rfl, rfl⟩

namespace Connect

theorem turn_ne_version (s : Connect) : (s.turn bootStatus).reading ≠ .version position := by
  unfold turn shake
  split_ifs
  · exact fun h => by cases h
  · exact fun h => by cases h

theorem endTurn_ne_version (s : Connect) :
    (s.endTurn bootStatus).reading ≠ .version position := by
  rw [endTurn]
  split_ifs
  · exact fun h => by cases h
  · exact turn_ne_version _

theorem endHunt_ne_version (s : Connect) (i : ℕ) :
    (s.endHunt bootStatus i).reading ≠ .version position := by
  rw [endHunt]
  split_ifs
  · exact turn_ne_version _
  · exact fun h => by cases h

structure InSession (bootStatus : Bool) (stream : ℕ → Option UInt8) (k m : ℕ) (s : Connect) :
    Prop where
  answer : (run bootStatus stream k).reading = .answer
  flag : stream k = some 0x7E
  quiet : ∀ i < m, stream (k + 1 + i) ≠ some 0x7E
  reading : s.reading = .version (1 + bytesIn stream (k + 1) m)
  modemConnect : s.modemConnect = 2 * emptyIn stream (k + 1) m
  left : emptyIn stream (k + 1) m < 100

theorem inSession_zero (hanswer : (run bootStatus stream k).reading = .answer)
    (hflag : stream k = some 0x7E) :
    InSession bootStatus stream k 0 (run bootStatus stream (k + 1)) := by
  have hstep : run bootStatus stream (k + 1) =
      { run bootStatus stream k with modemConnect := 0, reading := .version 1 } := by
    rw [run, step, hanswer, hflag]
    rfl
  rw [hstep]
  exact ⟨hanswer, hflag, fun i hi => absurd hi (Nat.not_lt_zero i), rfl, rfl, Nat.succ_pos 99⟩

theorem InSession.step {s : Connect} (h : InSession bootStatus stream k m s) :
    InSession bootStatus stream k (m + 1) (s.step bootStatus (stream (k + 1 + m))) ∨
      (stream (k + 1 + m) = some 0x7E ∨ 100 ≤ emptyIn stream (k + 1) (m + 1)) ∧
        ∃ t : Connect, s.step bootStatus (stream (k + 1 + m)) = t.endTurn bootStatus := by
  have htimeout : UART_TIMEOUT = 200 := rfl
  have hleft := h.left
  have hconnect := h.modemConnect
  have hread : s.step bootStatus (stream (k + 1 + m)) =
      s.readVersion bootStatus (1 + bytesIn stream (k + 1) m) (stream (k + 1 + m)) := by
    rw [Connect.step, h.reading]
  rw [hread]
  cases hevent : stream (k + 1 + m) with
  | none =>
      obtain ⟨hbytes, hempty⟩ := count_of_none hevent
      rw [readVersion]
      split_ifs with hmore
      · left
        refine ⟨h.answer, h.flag, ?_, by rw [hbytes]; exact h.reading, ?_, by omega⟩
        · intro i hi
          rcases Nat.lt_succ_iff_lt_or_eq.mp hi with hi | rfl
          · exact h.quiet i hi
          · rw [hevent]
            exact (Option.some_ne_none _).symm
        · change s.modemConnect + 2 = _
          omega
      · exact .inr ⟨.inr (by omega), _, rfl⟩
  | some b =>
      obtain ⟨hbytes, hempty⟩ := count_of_some hevent
      rw [readVersion]
      split_ifs with hflag hmore
      · exact .inr ⟨.inl (by rw [hflag]), _, rfl⟩
      · left
        refine ⟨h.answer, h.flag, ?_, ?_, by rw [hempty]; exact h.modemConnect,
          by rw [hempty]; exact h.left⟩
        · intro i hi
          rcases Nat.lt_succ_iff_lt_or_eq.mp hi with hi | rfl
          · exact h.quiet i hi
          · rw [hevent]
            exact fun heq => hflag (Option.some.inj heq)
        · rw [hbytes]
          rfl
      · exact absurd (show s.modemConnect < UART_TIMEOUT by omega) hmore

/-- The reads of a session while no `0x7E` comes and the modem is not silent for too long. -/
theorem inSession_of_quiet (hanswer : (run bootStatus stream k).reading = .answer)
    (hflag : stream k = some 0x7E) (m : ℕ) (hquiet : ∀ i < m, stream (k + 1 + i) ≠ some 0x7E)
    (hleft : emptyIn stream (k + 1) m < 100) :
    InSession bootStatus stream k m (run bootStatus stream (k + 1 + m)) := by
  induction m with
  | zero => exact inSession_zero hanswer hflag
  | succ m ih =>
      have hmono : emptyIn stream (k + 1) m ≤ emptyIn stream (k + 1) (m + 1) :=
        Nat.count_monotone _ (Nat.le_succ m)
      have hsession := ih (fun i hi => hquiet i (Nat.lt_succ_of_lt hi)) (by omega)
      obtain hnext | ⟨hend | hend, -⟩ := hsession.step
      · exact hnext
      · exact absurd hend (hquiet m (Nat.lt_succ_self m))
      · omega

theorem readHunt_ne_version (s : Connect) (i : ℕ) (event : Option UInt8) :
    (s.readHunt bootStatus i event).reading ≠ .version position := by
  unfold readHunt
  simp only
  split_ifs
  · exact endHunt_ne_version s _
  · exact fun h => by cases h
  · exact fun h => by cases h
  · exact endHunt_ne_version _ _
  · exact endHunt_ne_version _ _

theorem readAnswer_ne_version (s : Connect) {event : Option UInt8} (h : event ≠ some 0x7E) :
    (s.readAnswer bootStatus event).reading ≠ .version position := by
  cases event with
  | none => exact endTurn_ne_version s
  | some b =>
      have hb : b ≠ 0x7E := fun heq => h (congrArg some heq)
      rw [readAnswer, if_neg hb]
      split_ifs
      · exact endTurn_ne_version _
      · exact endTurn_ne_version _

theorem exists_inSession (n : ℕ) (h : (run bootStatus stream n).reading = .version position) :
    ∃ k m, n = k + 1 + m ∧ InSession bootStatus stream k m (run bootStatus stream n) := by
  induction n generalizing position with
  | zero => exact absurd h (turn_ne_version _)
  | succ n ih =>
      rw [run, step] at h
      cases hreading : (run bootStatus stream n).reading with
      | hunt i =>
          rw [hreading] at h
          exact absurd h (readHunt_ne_version _ i _)
      | answer =>
          rw [hreading] at h
          by_cases hflag : stream n = some 0x7E
          · exact ⟨n, 0, rfl, inSession_zero hreading hflag⟩
          · exact absurd h (readAnswer_ne_version _ hflag)
      | version q =>
          obtain ⟨k, m, rfl, hsession⟩ := ih hreading
          obtain hnext | ⟨-, t, ht⟩ := hsession.step
          · exact ⟨k, m + 1, rfl, hnext⟩
          · rw [step] at ht
            rw [ht] at h
            exact absurd h (endTurn_ne_version t)
      | connected =>
          rw [hreading] at h
          exact absurd (hreading.symm.trans h) (fun heq => by cases heq)

end Connect

/-- The position of a version never reaches the end of the buffer just when no session is with a
modem that sends a long version. -/
theorem position_lt_iff (bootStatus : Bool) (stream : ℕ → Option UInt8) :
    (∀ n, (Connect.run bootStatus stream n).reading.position < VERSION_SIZE) ↔
      ∀ k, (Connect.run bootStatus stream k).reading = .answer → stream k = some 0x7E →
        ¬ LongVersion stream (k + 1) := by
  have hsize : VERSION_SIZE = 64 := rfl
  constructor
  · rintro h k hanswer hflag ⟨m, hquiet, hbytes, hleft⟩
    have hsession := Connect.inSession_of_quiet hanswer hflag m hquiet hleft
    have hlt := h (k + 1 + m)
    rw [hsession.reading, Reading.position] at hlt
    omega
  · intro h n
    cases hreading : (Connect.run bootStatus stream n).reading with
    | hunt i => exact Nat.succ_pos 63
    | answer => exact Nat.succ_pos 63
    | version position =>
        obtain ⟨k, m, -, hsession⟩ := Connect.exists_inSession n hreading
        have hlong := h k hsession.answer hsession.flag
        have hposition := hreading.symm.trans hsession.reading
        rw [Reading.version.injEq] at hposition
        rw [Reading.position, hposition]
        by_contra hge
        exact hlong ⟨m, hsession.quiet, by omega, hsession.left⟩
    | connected => exact Nat.succ_pos 63

def chatter (n : ℕ) : Option UInt8 := if n = 0 then some 0x7E else some 0x31

theorem not_position_lt_chatter :
    ¬ ∀ n, (Connect.run true chatter n).reading.position < VERSION_SIZE := by
  intro h
  exact absurd (h 64) (by decide +kernel)

end Version

end ModemControl

end Tarako
