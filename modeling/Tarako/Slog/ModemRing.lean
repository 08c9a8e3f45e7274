import Tarako.Lib.Ring
import Tarako.Lib.Run
import Tarako.Lib.Splice
import Tarako.Lib.Text

/-!
# The modem log ring

`modem_log_handler` keeps what it reads from the modem log device in a ring of
buffers. When another thread has set `hook_modem_flag`, the buffers in use are
written to a file under a name that holds the time of the dump, and the ring is
empty again. The file is opened without truncation, so what is written replaces the
start of a file that the same second already has.
-/

namespace Tarako

namespace Slog

open Text

def SINGLE_BUFFER_SIZE : ℕ := 16 * 1024

def MODEM_CIRCULAR_SIZE : ℕ := 2 * 1024 * 1024

def RING_BUFFER_NUM : ℕ := MODEM_CIRCULAR_SIZE / SINGLE_BUFFER_SIZE

/-- The broken-down time of a dump, as `localtime_r` leaves it. -/
structure Tm where
  tmYear : ℕ
  tmMon : ℕ
  tmMday : ℕ
  tmHour : ℕ
  tmMin : ℕ
  tmSec : ℕ

def modemLogPath (tm : Tm) : List UInt8 :=
  "/data/log/modem_".toUTF8.toList ++ decimal (tm.tmYear + 1900) ++
    [tm.tmMon + 1, tm.tmMday, tm.tmHour, tm.tmMin, tm.tmSec].flatMap
      (fun n => (decimal n).leftpad 2 48) ++
    ".log".toUTF8.toList

/-- Where the thread is: in its loop, behind it, or in a dump loop that does not end
or takes a buffer whose length was never set. -/
inductive ThreadState where
  | running
  | ended
  | stuck
  deriving DecidableEq

structure ModemLog where
  bufferStart : ℕ
  bufferEnd : ℕ
  bufferLen : Buffer (Option ℕ) RING_BUFFER_NUM
  ringBufferTable : Buffer (Buffer UInt8 SINGLE_BUFFER_SIZE) RING_BUFFER_NUM
  hookModemFlag : Bool
  /-- What is written to `info->fd_out`; `none` when it is -1. -/
  fdOut : Option (List UInt8)
  files : List UInt8 → Option (List UInt8)
  thread : ThreadState

namespace ModemLog

/-- The state before the first turn. No `buffer_len` is set. -/
def start (fdOut : Option (List UInt8)) (files : List UInt8 → Option (List UInt8)) :
    ModemLog where
  bufferStart := 0
  bufferEnd := 0
  bufferLen := Buffer.fill RING_BUFFER_NUM none
  ringBufferTable := Buffer.fill RING_BUFFER_NUM (Buffer.fill SINGLE_BUFFER_SIZE 0)
  hookModemFlag := false
  fdOut := fdOut
  files := files
  thread := .running

/-- The first `buffer_len[i]` bytes of buffer `i`. -/
def chunk (s : ModemLog) (i : ℕ) : Option (List UInt8) := do
  let len ← s.bufferLen.bytes[i]?.join
  let buf ← s.ringBufferTable.bytes[i]?
  return buf.bytes.take len

def readBuffer (s : ModemLog) (data : List UInt8) : ModemLog :=
  { s with
    ringBufferTable := s.ringBufferTable.set s.bufferEnd
      ((Buffer.fill SINGLE_BUFFER_SIZE 0).load data) }

/-- The length stored, the bytes logged and the ring pointers moved. -/
def receive (s : ModemLog) (data : List UInt8) : ModemLog :=
  let bufferEnd := (s.bufferEnd + 1) % RING_BUFFER_NUM
  { s.readBuffer data with
    bufferLen := s.bufferLen.set s.bufferEnd (some data.length)
    fdOut := s.fdOut.map (· ++ data)
    bufferEnd := bufferEnd
    bufferStart :=
      if bufferEnd = s.bufferStart then (s.bufferStart + 1) % RING_BUFFER_NUM
      else s.bufferStart }

/-- The hook of the modem log. The file is opened with `O_WRONLY | O_CREAT` only. -/
def hookModemLog (s : ModemLog) (tm : Tm) (opens : Bool) : ModemLog :=
  if opens then
    match Ring.walk s.chunk RING_BUFFER_NUM s.bufferEnd RING_BUFFER_NUM s.bufferStart with
    | some (chunks, bufferStart) =>
        let path := modemLogPath tm
        { s with
          files := Function.update s.files path
            (some (Splice.writeAt 0 ((s.files path).getD []) 0 chunks.flatten))
          bufferStart := bufferStart
          hookModemFlag := false }
    | none => { s with thread := .stuck }
  else { s with thread := .ended }

end ModemLog

/-- A request of the command thread, or a turn of the loop: what `read` delivers
(nothing when it fails), the time, and whether the file of a dump can be opened. -/
inductive ModemEvent where
  | hookModem
  | read (data : List UInt8) (tm : Tm) (opens : Bool)

def ModemLog.step (s : ModemLog) : ModemEvent → ModemLog
  | .hookModem => { s with hookModemFlag := true }
  | .read data tm opens =>
      let data := data.take SINGLE_BUFFER_SIZE
      if s.thread ≠ .running then s
      else if data = [] then s.readBuffer []
      else
        let s := s.receive data
        if s.hookModemFlag then s.hookModemLog tm opens else s

/-! ## What a dump is for -/

/-- The chunks read since the last dump, without a bound. -/
structure Recent where
  chunks : List (List UInt8)
  hooked : Bool
  ended : Bool

def Recent.start : Recent := ⟨[], false, false⟩

def Recent.step (r : Recent) : ModemEvent → Recent
  | .hookModem => { r with hooked := true }
  | .read data _ opens =>
      let data := data.take SINGLE_BUFFER_SIZE
      if r.ended ∨ data = [] then r
      else if !r.hooked then { r with chunks := r.chunks ++ [data] }
      else if opens then { r with chunks := [], hooked := false }
      else { r with chunks := r.chunks ++ [data], ended := true }

def chunksSinceDump (es : List ModemEvent) : List (List UInt8) :=
  (Run.run Recent.step Recent.start es).chunks

/-- What the file of a dump has to hold when `chunks` were read since the last one. -/
def recentBytes (chunks : List (List UInt8)) : List UInt8 :=
  (Ring.lastN (RING_BUFFER_NUM - 1) chunks).flatten

/-! ## The ring holds the recent chunks -/

theorem ring_buffer_num_eq : RING_BUFFER_NUM = 128 := rfl

structure ModemLog.Refines (s : ModemLog) (r : Recent) : Prop where
  hooked : s.hookModemFlag = r.hooked
  thread : s.thread = if r.ended then .ended else .running
  start_lt : s.bufferStart < RING_BUFFER_NUM
  end_eq : s.bufferEnd =
    (s.bufferStart + (Ring.lastN (RING_BUFFER_NUM - 1) r.chunks).length) % RING_BUFFER_NUM
  holds : Ring.Holds s.chunk RING_BUFFER_NUM s.bufferStart
    (Ring.lastN (RING_BUFFER_NUM - 1) r.chunks)

namespace ModemLog

variable {s : ModemLog} {r : Recent}

theorem chunk_set_ne (s : ModemLog) (data : List UInt8) {i : ℕ} (h : i ≠ s.bufferEnd) :
    (s.readBuffer data).chunk i = s.chunk i ∧ (s.receive data).chunk i = s.chunk i := by
  simp [chunk, receive, readBuffer, Buffer.set, List.getElem?_set_ne (Ne.symm h)]

theorem chunk_receive_end (s : ModemLog) {data : List UInt8}
    (hend : s.bufferEnd < RING_BUFFER_NUM) (hdata : data.length ≤ SINGLE_BUFFER_SIZE) :
    (s.receive data).chunk s.bufferEnd = some data := by
  have hlen : s.bufferEnd < s.bufferLen.bytes.length := by rwa [s.bufferLen.size_eq]
  have htable : s.bufferEnd < s.ringBufferTable.bytes.length := by
    rwa [s.ringBufferTable.size_eq]
  have hload : (((Buffer.fill SINGLE_BUFFER_SIZE 0).load data).bytes).take data.length =
      data := by
    simp [Buffer.load, Splice.splice, List.take_of_length_le hdata]
  simp [chunk, receive, readBuffer, Buffer.set, hlen, htable, hload]

theorem Refines.window_lt (_ : s.Refines r) :
    (Ring.lastN (RING_BUFFER_NUM - 1) r.chunks).length < RING_BUFFER_NUM := by
  rw [Ring.length_lastN, ring_buffer_num_eq]
  omega

theorem Refines.end_lt (h : s.Refines r) : s.bufferEnd < RING_BUFFER_NUM := by
  rw [h.end_eq]
  exact Nat.mod_lt _ (by decide)

theorem Refines.readBuffer (h : s.Refines r) (data : List UInt8) :
    (s.readBuffer data).Refines r := by
  refine ⟨h.hooked, h.thread, h.start_lt, h.end_eq, ?_⟩
  intro j hj
  have hne := @Ring.slot_ne _ s.bufferStart _ _ hj h.window_lt
  rw [← h.end_eq] at hne
  have hchunk := (s.chunk_set_ne data hne).1
  exact hchunk.trans (h.holds j hj)

/-- Storing a chunk: the window grows by it, and loses its oldest chunk when the
pointers meet. -/
theorem Refines.receive (h : s.Refines r) {data : List UInt8}
    (hdata : data.length ≤ SINGLE_BUFFER_SIZE) :
    (s.receive data).Refines { r with chunks := r.chunks ++ [data] } := by
  have hpush : Ring.Holds (s.receive data).chunk RING_BUFFER_NUM s.bufferStart
      (Ring.lastN (RING_BUFFER_NUM - 1) r.chunks ++ [data]) := by
    apply h.holds.push h.window_lt
    · rw [← h.end_eq]
      exact s.chunk_receive_end h.end_lt hdata
    · intro i hi
      rw [← h.end_eq] at hi
      exact (s.chunk_set_ne data hi).2
  have hend : (s.receive data).bufferEnd = (s.bufferStart +
      (Ring.lastN (RING_BUFFER_NUM - 1) r.chunks ++ [data]).length) % RING_BUFFER_NUM := by
    change (s.bufferEnd + 1) % RING_BUFFER_NUM = _
    rw [h.end_eq, Nat.mod_add_mod, List.length_append, List.length_singleton, Nat.add_assoc]
  have hlt := h.start_lt
  have hlen := Ring.length_lastN (RING_BUFFER_NUM - 1) r.chunks
  rw [List.length_append, List.length_singleton] at hend
  rcases Nat.lt_or_ge r.chunks.length (RING_BUFFER_NUM - 1) with hroom | hfull
  · -- there is still a free buffer, so the window keeps its start
    have hlast : Ring.lastN (RING_BUFFER_NUM - 1) (r.chunks ++ [data]) =
        Ring.lastN (RING_BUFFER_NUM - 1) r.chunks ++ [data] := by
      rw [Ring.lastN_of_length_le, Ring.lastN_of_length_le hroom.le]
      rw [List.length_append, List.length_singleton]
      exact hroom
    have hne : (s.receive data).bufferEnd ≠ s.bufferStart := by
      rw [hend]
      intro heq
      rw [← Nat.mod_eq_of_lt hlt] at heq
      rw [hlen, ring_buffer_num_eq] at heq
      rw [ring_buffer_num_eq] at hroom
      omega
    have hstart : (s.receive data).bufferStart = s.bufferStart := if_neg hne
    refine ⟨h.hooked, h.thread, hstart ▸ hlt, ?_, ?_⟩
    · rw [hlast, hstart, hend, List.length_append, List.length_singleton]
    · rw [hlast, hstart]
      exact hpush
  · -- the end has reached the start
    have hlast := Ring.lastN_append_of_le (by decide) hfull data
    have hwin : (Ring.lastN (RING_BUFFER_NUM - 1) r.chunks).length = RING_BUFFER_NUM - 1 := by
      rw [hlen]
      exact Nat.min_eq_right hfull
    have heq : (s.receive data).bufferEnd = s.bufferStart := by
      rw [hend, hwin, Nat.sub_add_cancel (by decide), Nat.add_mod_right,
        Nat.mod_eq_of_lt hlt]
    have hstart : (s.receive data).bufferStart = (s.bufferStart + 1) % RING_BUFFER_NUM :=
      if_pos heq
    have htail : (Ring.lastN (RING_BUFFER_NUM - 1) r.chunks ++ [data]).tail =
        (Ring.lastN (RING_BUFFER_NUM - 1) r.chunks).tail ++ [data] := by
      apply List.tail_append_of_ne_nil
      apply List.ne_nil_of_length_pos
      rw [hwin]
      decide
    refine ⟨h.hooked, h.thread, hstart ▸ Nat.mod_lt _ (by decide), ?_, ?_⟩
    · rw [hlast, hstart, heq, List.length_append, List.length_tail, hwin, Nat.mod_add_mod,
        List.length_singleton]
      rw [ring_buffer_num_eq] at hlt ⊢
      omega
    · rw [hlast, hstart, ← htail]
      exact hpush.tail

/-- A dump writes the chunks of the window, oldest first, and leaves nothing in use. -/
theorem Refines.hookModemLog (h : s.Refines r) (hne : r.chunks ≠ []) (tm : Tm) :
    s.hookModemLog tm true =
      { s with
        files := Function.update s.files (modemLogPath tm)
          (some (Splice.writeAt 0 ((s.files (modemLogPath tm)).getD []) 0
            (recentBytes r.chunks)))
        bufferStart := s.bufferEnd
        hookModemFlag := false } := by
  have hwin : Ring.lastN (RING_BUFFER_NUM - 1) r.chunks ≠ [] := by
    apply List.ne_nil_of_length_pos
    have hpos := List.length_pos_iff.mpr hne
    rw [Ring.length_lastN, ring_buffer_num_eq]
    omega
  have hwalk := Ring.walk_eq_some h.window_lt h.window_lt.le hwin h.start_lt h.holds
  rw [← h.end_eq] at hwalk
  rw [ModemLog.hookModemLog, if_pos rfl, hwalk]
  rfl

theorem refines_start (fdOut : Option (List UInt8))
    (files : List UInt8 → Option (List UInt8)) :
    (start fdOut files).Refines Recent.start :=
  ⟨rfl, rfl, Nat.lt_of_sub_eq_succ ring_buffer_num_eq, (Nat.zero_mod _).symm,
    @Ring.lastN_nil (List UInt8) _ ▸ Ring.holds_nil _ _ _⟩

theorem length_take_buffer_le (data : List UInt8) :
    (data.take SINGLE_BUFFER_SIZE).length ≤ SINGLE_BUFFER_SIZE := by
  rw [List.length_take]
  exact Nat.min_le_left _ _

/-- One event keeps the ring in step with the chunks since the last dump. -/
theorem Refines.step (h : s.Refines r) (e : ModemEvent) : (s.step e).Refines (r.step e) := by
  cases e with
  | hookModem => exact ⟨rfl, h.thread, h.start_lt, h.end_eq, h.holds⟩
  | read data tm opens =>
      cases hended : r.ended with
      | true =>
          have hthread : s.thread = .ended := by rw [h.thread, hended, if_pos rfl]
          simpa [ModemLog.step, Recent.step, hended, hthread] using h
      | false =>
          have hthread : s.thread = .running := by simp [h.thread, hended]
          by_cases hnil : data.take SINGLE_BUFFER_SIZE = []
          · have hread := h.readBuffer []
            simpa [ModemLog.step, Recent.step, hended, hthread, hnil] using hread
          · have hrec := h.receive (length_take_buffer_le data)
            have hstep : s.step (.read data tm opens) =
                if r.hooked then
                  (s.receive (data.take SINGLE_BUFFER_SIZE)).hookModemLog tm opens
                else s.receive (data.take SINGLE_BUFFER_SIZE) := by
              have hflag : (s.receive (data.take SINGLE_BUFFER_SIZE)).hookModemFlag =
                  r.hooked := h.hooked
              simp [ModemLog.step, hthread, hnil, hflag]
            rw [hstep]
            cases hhook : r.hooked with
            | false => simpa [Recent.step, hended, hnil, hhook] using hrec
            | true =>
                have hne := List.concat_ne_nil (data.take SINGLE_BUFFER_SIZE) r.chunks
                cases opens with
                | false =>
                    have hr : r.step (.read data tm false) = { r with
                        chunks := r.chunks ++ [data.take SINGLE_BUFFER_SIZE]
                        ended := true } := by
                      simp [Recent.step, hended, hnil, hhook]
                    rw [if_pos rfl, hr]
                    exact ⟨hrec.hooked, rfl, hrec.start_lt, hrec.end_eq, hrec.holds⟩
                | true =>
                    have hr : r.step (.read data tm true) =
                        { r with chunks := [], hooked := false } := by
                      simp [Recent.step, hended, hnil, hhook]
                    rw [if_pos rfl, hr, hrec.hookModemLog hne]
                    refine ⟨rfl, hrec.thread, hrec.end_lt, ?_, ?_⟩
                    · rw [Ring.lastN_nil]
                      exact (Nat.mod_eq_of_lt hrec.end_lt).symm
                    · rw [Ring.lastN_nil]
                      exact Ring.holds_nil _ _ _

theorem refines_run (fdOut : Option (List UInt8))
    (files : List UInt8 → Option (List UInt8)) (es : List ModemEvent) :
    (Run.run ModemLog.step (start fdOut files) es).Refines
      (Run.run Recent.step Recent.start es) := by
  have hrun : ∀ (es : List ModemEvent) (s : ModemLog) (r : Recent), s.Refines r →
      (Run.run ModemLog.step s es).Refines (Run.run Recent.step r es) := by
    intro es
    induction es with
    | nil => exact fun s r h => h
    | cons e es ih => exact fun s r h => ih _ _ (h.step e)
  exact hrun es _ _ (refines_start fdOut files)

end ModemLog

/-! ## The file of a dump -/

/-- A write from the start of a file leaves exactly what it wrote when the file was
not longer. -/
theorem writeAt_zero_eq_self_iff {old bytes : List UInt8} :
    Splice.writeAt 0 old 0 bytes = bytes ↔ old.length ≤ bytes.length := by
  by_cases hnil : bytes = []
  · simp [hnil]
  · simp [Splice.writeAt, Splice.splice, hnil, List.drop_eq_nil_iff]

/-- The turn that serves a hook ends its dump loop, which takes set buffers only, and
puts the recent chunks over the start of the file. -/
theorem step_read_of_hooked (fdOut : Option (List UInt8))
    (files : List UInt8 → Option (List UInt8)) (es : List ModemEvent) {data : List UInt8}
    (tm : Tm) (hdata : data ≠ [])
    (hthread : (Run.run ModemLog.step (ModemLog.start fdOut files) es).thread = .running)
    (hhook : (Run.run ModemLog.step (ModemLog.start fdOut files) es).hookModemFlag = true) :
    let s := Run.run ModemLog.step (ModemLog.start fdOut files) es
    let bytes := recentBytes (chunksSinceDump es ++ [data.take SINGLE_BUFFER_SIZE])
    (s.step (.read data tm true)).thread = .running ∧
      (s.step (.read data tm true)).hookModemFlag = false ∧
      (s.step (.read data tm true)).files (modemLogPath tm) =
        some (Splice.writeAt 0 ((s.files (modemLogPath tm)).getD []) 0 bytes) := by
  intro s bytes
  have hrec := (ModemLog.refines_run fdOut files es).receive
    (ModemLog.length_take_buffer_le data)
  have hnil : data.take SINGLE_BUFFER_SIZE ≠ [] := by
    rw [ne_eq, List.take_eq_nil_iff, not_or]
    exact ⟨by decide, hdata⟩
  have hstep : s.step (.read data tm true) =
      (s.receive (data.take SINGLE_BUFFER_SIZE)).hookModemLog tm true := by
    have hflag : (s.receive (data.take SINGLE_BUFFER_SIZE)).hookModemFlag = true := hhook
    have hrun : s.thread = .running := hthread
    simp [ModemLog.step, hrun, hnil, hflag]
  rw [hstep, hrec.hookModemLog (List.concat_ne_nil _ _)]
  exact ⟨hthread, rfl, Function.update_self _ _ _⟩

/-- The file of a dump holds the recent chunks exactly when no longer file had its
name. -/
theorem hook_file_eq_iff (fdOut : Option (List UInt8))
    (files : List UInt8 → Option (List UInt8)) (es : List ModemEvent) (data : List UInt8)
    (tm : Tm) (hdata : data ≠ [])
    (hthread : (Run.run ModemLog.step (ModemLog.start fdOut files) es).thread = .running)
    (hhook : (Run.run ModemLog.step (ModemLog.start fdOut files) es).hookModemFlag = true) :
    let s := Run.run ModemLog.step (ModemLog.start fdOut files) es
    let bytes := recentBytes (chunksSinceDump es ++ [data.take SINGLE_BUFFER_SIZE])
    (s.step (.read data tm true)).thread = .running ∧
      (s.step (.read data tm true)).hookModemFlag = false ∧
      ((s.step (.read data tm true)).files (modemLogPath tm) = some bytes ↔
        ∀ old, s.files (modemLogPath tm) = some old → old.length ≤ bytes.length) := by
  intro s bytes
  obtain ⟨hrun, hflag, hfile⟩ := step_read_of_hooked fdOut files es tm hdata hthread hhook
  refine ⟨hrun, hflag, ?_⟩
  rw [hfile, Option.some.injEq]
  refine writeAt_zero_eq_self_iff.trans ?_
  cases s.files (modemLogPath tm) with
  | none => simp
  | some old => simp [bytes]

/-- The first chunk of a run, dumped under a name that is not taken. -/
theorem hook_file_first :
    let tm : Tm := ⟨126, 0, 1, 0, 0, 0⟩
    let s := ModemLog.step (ModemLog.start none fun _ => none) .hookModem
    (s.step (.read [1] tm true)).files (modemLogPath tm) =
      some (recentBytes (chunksSinceDump [.hookModem] ++ [[1]])) :=
  (hook_file_eq_iff none (fun _ => none) [.hookModem] [1] _ (by decide) rfl rfl).2.2.mpr
    (fun _ h => nomatch h)

/-- Two dumps in one second: the second file ends with a byte of the first dump. -/
theorem hook_file_same_second :
    let tm : Tm := ⟨126, 0, 1, 0, 0, 0⟩
    let es := [.hookModem, .read [1, 2] tm true, .hookModem]
    let s := Run.run ModemLog.step (ModemLog.start none fun _ => none) es
    s.thread = .running ∧ s.hookModemFlag = true ∧
      recentBytes (chunksSinceDump es ++ [[3]]) = [3] ∧
      (s.step (.read [3] tm true)).files (modemLogPath tm) = some [3, 2] := by
  intro tm es s
  obtain ⟨-, -, hfirst⟩ := @step_read_of_hooked none (fun _ => none) [.hookModem] [1, 2] tm
    (by decide) rfl rfl
  obtain ⟨-, -, hsecond⟩ := @step_read_of_hooked none (fun _ => none) es [3] tm
    (by decide) rfl rfl
  have hone : recentBytes (chunksSinceDump [.hookModem] ++ [[1, 2]]) = [1, 2] := rfl
  have hold : s.files (modemLogPath tm) = some [1, 2] := by
    have htake : ([1, 2] : List UInt8).take SINGLE_BUFFER_SIZE = [1, 2] := rfl
    rw [htake, hone] at hfirst
    exact hfirst
  have hlast : recentBytes (chunksSinceDump es ++ [[3]]) = [3] := by decide
  have htake : ([3] : List UInt8).take SINGLE_BUFFER_SIZE = [3] := rfl
  rw [htake, hlast, hold] at hsecond
  exact ⟨rfl, rfl, hlast, hsecond⟩

end Slog

end Tarako
