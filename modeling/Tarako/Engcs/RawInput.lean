import Tarako.Lib.Segments
import Tarako.Lib.Splice
import Mathlib.Data.List.Basic

/-!
# Commands from the PC

`eng_handle_raw_input` reads a command byte by byte. Behind a carriage return it looks one byte
ahead when `select` reports data: a line feed belongs to the command, and any other byte is kept
in `is_lf`, a local that the next call does not have.
-/

namespace Tarako

namespace Engcs

open Splice

def ENG_BUFFER_SIZE : ℕ := 2048

/-- What `select` returns within 10 ms. -/
inductive Select
  | timeout
  | ready
  | error
  deriving DecidableEq

/-- A byte of the port, and what `select` returns when it is called behind this byte. -/
structure Arrival where
  byte : UInt8
  select : Select
  deriving DecidableEq

/-- What a call leaves: the length it returns, `buf`, and the bytes that are still to be read. -/
structure RawInput where
  length : ℕ
  buf : Buffer UInt8 ENG_BUFFER_SIZE
  stream : List Arrival

/-- The command in `buf`. -/
def RawInput.command (r : RawInput) : List UInt8 := r.buf.bytes.take r.length

def readIsLf : List Arrival → Buffer UInt8 ENG_BUFFER_SIZE → ℕ → Option (Option RawInput)
  | [], _, _ => some none
  | isLf :: stream, buf, j =>
      if isLf.byte = 0x0a then
        (buf.write? j [isLf.byte]).map fun buf => some ⟨j + 1, buf, stream⟩
      else some (some ⟨j, buf, stream⟩)

/-- The loop with `j` bytes in `buf`. No result stands for a byte at or beyond the end of `buf`,
and `some none` for -1. `lf_indi` is 1 only between the look ahead and the `return` behind it, so
no turn of the loop finds a byte in `is_lf`. -/
def rawInputLoop : List Arrival → Buffer UInt8 ENG_BUFFER_SIZE → ℕ → Option (Option RawInput)
  | [], _, _ => some none
  | a :: stream, buf, j =>
      (buf.write? j [a.byte]).bind fun buf =>
        if a.byte = 0x0a ∨ a.byte = 0x1a then some (some ⟨j + 1, buf, stream⟩)
        else if a.byte = 0x0d then
          if a.select = .ready then readIsLf stream buf (j + 1)
          else some (some ⟨j + 1, buf, stream⟩)
        else rawInputLoop stream buf (j + 1)

def engHandleRawInput (stream : List Arrival) (buf : Buffer UInt8 ENG_BUFFER_SIZE) :
    Option (Option RawInput) :=
  rawInputLoop stream buf 0

/-- The commands of at most `n` turns of `eng_pcclient_hdlr`, which closes the port at -1. -/
def pcCommands : ℕ → List Arrival → Option (List (List UInt8))
  | 0, _ => some []
  | n + 1, stream =>
      match engHandleRawInput stream (Buffer.fill ENG_BUFFER_SIZE 0) with
      | none => none
      | some none => some []
      | some (some r) => (pcCommands n r.stream).map (r.command :: ·)

/-! ## Commands of a stream -/

namespace Arrival

def ends (a : Arrival) : Bool := a.byte = 0x0a ∨ a.byte = 0x1a ∨ a.byte = 0x0d

def looksAhead (a : Arrival) : Bool := a.byte = 0x0d ∧ a.select = .ready

end Arrival

def completeCommands (stream : List Arrival) : List UInt8 :=
  (Segments.closed Arrival.ends stream).map Arrival.byte

/-- `n` turns write no byte beyond a buffer and lose none of a complete command. -/
def LosesNothing (n : ℕ) (stream : List Arrival) : Prop :=
  (pcCommands n stream).map List.flatten = some (completeCommands stream)

instance (n : ℕ) (stream : List Arrival) : Decidable (LosesNothing n stream) :=
  inferInstanceAs (Decidable (_ = _))

def Unended (stream : List Arrival) : Prop := ∀ a ∈ stream, a.ends = false

/-- Commands that fit the buffer, with a line feed wherever one is read ahead. A byte that is
read ahead in vain belongs to no complete command. -/
inductive Keeps : List Arrival → Prop
  | unended {t : List Arrival} (ht : Unended t) (hlen : t.length ≤ ENG_BUFFER_SIZE) : Keeps t
  | command {t stream : List Arrival} {a : Arrival} (ht : Unended t) (ha : a.ends = true)
      (hahead : a.looksAhead = false) (hlen : t.length + 1 ≤ ENG_BUFFER_SIZE)
      (hrest : Keeps stream) : Keeps (t ++ a :: stream)
  | lineFeed {t stream : List Arrival} {a b : Arrival} (ht : Unended t)
      (ha : a.looksAhead = true) (hb : b.byte = 0x0a) (hlen : t.length + 2 ≤ ENG_BUFFER_SIZE)
      (hrest : Keeps stream) : Keeps (t ++ a :: b :: stream)
  | lookedAhead {t stream : List Arrival} {a b : Arrival} (ht : Unended t)
      (ha : a.looksAhead = true) (hlen : t.length + 1 ≤ ENG_BUFFER_SIZE)
      (hb : Unended (b :: stream)) (hrest : stream.length ≤ ENG_BUFFER_SIZE) :
      Keeps (t ++ a :: b :: stream)

namespace Arrival

variable {a : Arrival}

theorem looksAhead_iff : a.looksAhead = true ↔ a.byte = 0x0d ∧ a.select = .ready :=
  decide_eq_true_iff

theorem ends_of_looksAhead (h : a.looksAhead = true) : a.ends = true :=
  decide_eq_true (.inr (.inr (looksAhead_iff.mp h).1))

theorem ends_of_lineFeed (h : a.byte = 0x0a) : a.ends = true := decide_eq_true (.inl h)

end Arrival

theorem completeCommands_of_unended {t : List Arrival} (ht : Unended t) :
    completeCommands t = [] := by
  rw [completeCommands, Segments.closed_of_forall ht]
  rfl

theorem completeCommands_append_cons (t : List Arrival) {a : Arrival} (ha : a.ends = true)
    (stream : List Arrival) :
    completeCommands (t ++ a :: stream) =
      t.map Arrival.byte ++ a.byte :: completeCommands stream := by
  rw [completeCommands, Segments.closed_append_cons t ha, List.map_append, List.map_cons]
  rfl

theorem completeCommands_command {t : List Arrival} {a : Arrival} {r : RawInput}
    (ha : a.ends = true) (hcommand : r.command = t.map Arrival.byte ++ [a.byte]) :
    completeCommands (t ++ a :: r.stream) = r.command ++ completeCommands r.stream := by
  rw [completeCommands_append_cons t ha, hcommand, List.append_assoc, List.singleton_append]

theorem completeCommands_lineFeed {t : List Arrival} {a b : Arrival} {r : RawInput}
    (ha : a.looksAhead = true) (hb : b.byte = 0x0a)
    (hcommand : r.command = t.map Arrival.byte ++ [a.byte, b.byte]) :
    completeCommands (t ++ a :: b :: r.stream) = r.command ++ completeCommands r.stream := by
  have hfeed : completeCommands (b :: r.stream) = b.byte :: completeCommands r.stream :=
    completeCommands_append_cons [] (Arrival.ends_of_lineFeed hb) r.stream
  rw [completeCommands_append_cons t (Arrival.ends_of_looksAhead ha), hfeed, hcommand,
    List.append_assoc]
  rfl

theorem completeCommands_cons {stream : List Arrival} {a : Arrival}
    (h : ¬Unended (a :: stream)) :
    completeCommands (a :: stream) = a.byte :: completeCommands stream := by
  rw [Unended, not_forall] at h
  obtain ⟨b, hb⟩ := h
  obtain ⟨hmem, hends⟩ := Classical.not_imp.mp hb
  rw [completeCommands, Segments.closed_cons_of_mem hmem (Bool.not_eq_false _ ▸ hends),
    List.map_cons]
  rfl

theorem completeCommands_sublist_cons (a : Arrival) (stream : List Arrival) :
    (completeCommands stream).Sublist (completeCommands (a :: stream)) := by
  by_cases h : Unended (a :: stream)
  · rw [completeCommands_of_unended fun b hb => h b (List.mem_cons_of_mem a hb)]
    exact List.nil_sublist _
  · rw [completeCommands_cons h]
    exact List.sublist_cons_self _ _

/-! ## A call -/

theorem write?_byte (buf : Buffer UInt8 ENG_BUFFER_SIZE) {j : ℕ} (hj : j < ENG_BUFFER_SIZE)
    (b : UInt8) :
    ∃ buf', buf.write? j [b] = some buf' ∧ buf'.bytes.take (j + 1) = buf.bytes.take j ++ [b] := by
  refine ⟨buf.write j [b] hj, dif_pos hj, ?_⟩
  exact take_splice (d := [b]) (by rw [buf.size_eq]; omega)

theorem write?_byte_eq_none {buf : Buffer UInt8 ENG_BUFFER_SIZE} {j : ℕ}
    (hj : ENG_BUFFER_SIZE ≤ j) (b : UInt8) : buf.write? j [b] = none :=
  dif_neg (Nat.not_le.mpr (Nat.lt_succ_of_le hj))

theorem rawInputLoop_append {t : List Arrival} (ht : Unended t) (stream : List Arrival) :
    ∀ (buf : Buffer UInt8 ENG_BUFFER_SIZE) {j : ℕ}, j + t.length ≤ ENG_BUFFER_SIZE →
      ∃ buf' : Buffer UInt8 ENG_BUFFER_SIZE,
        buf'.bytes.take (j + t.length) = buf.bytes.take j ++ t.map Arrival.byte ∧
          rawInputLoop (t ++ stream) buf j = rawInputLoop stream buf' (j + t.length) := by
  induction t with
  | nil => exact fun buf {_} _ => ⟨buf, (List.append_nil _).symm, rfl⟩
  | cons a t ih =>
      intro buf j hlen
      rw [List.length_cons] at hlen
      obtain ⟨buf₁, hwrite, htake⟩ := write?_byte buf (j := j) (by omega) a.byte
      obtain ⟨buf₂, htake₂, hloop⟩ := ih (fun b hb => ht b (List.mem_cons_of_mem a hb))
        buf₁ (j := j + 1) (by omega)
      have ha : ¬(a.byte = 0x0a ∨ a.byte = 0x1a ∨ a.byte = 0x0d) :=
        of_decide_eq_false (ht a List.mem_cons_self)
      have hindex : j + (a :: t).length = j + 1 + t.length := by
        rw [List.length_cons]
        omega
      refine ⟨buf₂, ?_, ?_⟩
      · rw [hindex, htake₂, htake, List.append_assoc, List.map_cons, List.singleton_append]
      · rw [List.cons_append, rawInputLoop, hwrite, Option.bind_some,
          if_neg (fun h => ha (h.elim .inl fun h => .inr (.inl h))),
          if_neg (fun h => ha (.inr (.inr h))), hloop, hindex]

variable {t stream : List Arrival} {a b : Arrival} (buf : Buffer UInt8 ENG_BUFFER_SIZE)

theorem engHandleRawInput_of_unended (ht : Unended t) (hlen : t.length ≤ ENG_BUFFER_SIZE) :
    engHandleRawInput t buf = some none := by
  obtain ⟨buf', -, hloop⟩ := rawInputLoop_append ht [] buf (j := 0) (by omega)
  rw [List.append_nil] at hloop
  exact hloop

theorem engHandleRawInput_eq_none (ht : Unended t) (hfull : ENG_BUFFER_SIZE ≤ t.length)
    (stream : List Arrival) (hlen : ENG_BUFFER_SIZE < t.length + stream.length) :
    engHandleRawInput (t ++ stream) buf = none := by
  have htake : (t.take ENG_BUFFER_SIZE).length = ENG_BUFFER_SIZE := List.length_take_of_le hfull
  obtain ⟨buf', -, hloop⟩ := rawInputLoop_append
    (fun b hb => ht b (List.mem_of_mem_take hb)) (t.drop ENG_BUFFER_SIZE ++ stream)
    buf (t := t.take ENG_BUFFER_SIZE) (j := 0) (by omega)
  rw [← List.append_assoc, List.take_append_drop, htake] at hloop
  cases hrest : t.drop ENG_BUFFER_SIZE ++ stream with
  | nil =>
      have hzero := congrArg List.length hrest
      rw [List.length_append, List.length_drop, List.length_nil] at hzero
      omega
  | cons c rest =>
      rw [engHandleRawInput, hloop, hrest, rawInputLoop, write?_byte_eq_none (by omega)]
      rfl

theorem engHandleRawInput_unended_eq_none (ht : Unended t) (hlen : ENG_BUFFER_SIZE < t.length) :
    engHandleRawInput t buf = none := by
  have hnone := engHandleRawInput_eq_none buf ht (Nat.le_of_lt hlen) [] hlen
  rwa [List.append_nil] at hnone

theorem engHandleRawInput_append (ht : Unended t) (hlen : t.length + 1 ≤ ENG_BUFFER_SIZE)
    (ha : a.ends = true) (stream : List Arrival) :
    ∃ buf' : Buffer UInt8 ENG_BUFFER_SIZE,
      buf'.bytes.take (t.length + 1) = t.map Arrival.byte ++ [a.byte] ∧
        engHandleRawInput (t ++ a :: stream) buf =
          if a.looksAhead then readIsLf stream buf' (t.length + 1)
          else some (some ⟨t.length + 1, buf', stream⟩) := by
  obtain ⟨buf₁, htake₁, hloop⟩ := rawInputLoop_append ht (a :: stream) buf (j := 0)
    (by omega)
  rw [Nat.zero_add, List.take_zero, List.nil_append] at htake₁
  obtain ⟨buf₂, hwrite, htake₂⟩ := write?_byte buf₁ (j := t.length) (by omega) a.byte
  refine ⟨buf₂, by rw [htake₂, htake₁], ?_⟩
  rw [engHandleRawInput, hloop, Nat.zero_add, rawInputLoop, hwrite, Option.bind_some]
  by_cases hcr : a.byte = 0x0d
  · have hlf : ¬(a.byte = 0x0a ∨ a.byte = 0x1a) := by
      rw [hcr]
      decide
    rw [if_neg hlf, if_pos hcr]
    by_cases hready : a.select = .ready
    · rw [if_pos hready, if_pos (Arrival.looksAhead_iff.mpr ⟨hcr, hready⟩)]
    · rw [if_neg hready, if_neg (fun h => hready (Arrival.looksAhead_iff.mp h).2)]
  · have hlf : a.byte = 0x0a ∨ a.byte = 0x1a := by
      rcases of_decide_eq_true ha with h | h | h
      · exact .inl h
      · exact .inr h
      · exact absurd h hcr
    rw [if_pos hlf, if_neg (fun h => hcr (Arrival.looksAhead_iff.mp h).1)]

theorem engHandleRawInput_command (ht : Unended t) (hlen : t.length + 1 ≤ ENG_BUFFER_SIZE)
    (ha : a.ends = true) (hahead : a.looksAhead = false) (stream : List Arrival) :
    ∃ r, engHandleRawInput (t ++ a :: stream) buf = some (some r) ∧
      r.command = t.map Arrival.byte ++ [a.byte] ∧ r.stream = stream := by
  obtain ⟨buf', htake, hcall⟩ := engHandleRawInput_append buf ht hlen ha stream
  rw [if_neg (Bool.eq_false_iff.mp hahead)] at hcall
  exact ⟨_, hcall, htake, rfl⟩

theorem engHandleRawInput_lineFeed (ht : Unended t) (hlen : t.length + 2 ≤ ENG_BUFFER_SIZE)
    (ha : a.looksAhead = true) (hb : b.byte = 0x0a) (stream : List Arrival) :
    ∃ r, engHandleRawInput (t ++ a :: b :: stream) buf = some (some r) ∧
      r.command = t.map Arrival.byte ++ [a.byte, b.byte] ∧ r.stream = stream := by
  obtain ⟨buf', htake, hcall⟩ := engHandleRawInput_append buf ht (Nat.le_of_succ_le hlen)
    (Arrival.ends_of_looksAhead ha) (b :: stream)
  obtain ⟨buf'', hwrite, htake'⟩ := write?_byte buf' (j := t.length + 1) hlen b.byte
  rw [if_pos ha, readIsLf, if_pos hb, hwrite] at hcall
  refine ⟨_, hcall, ?_, rfl⟩
  rw [RawInput.command, htake', htake, List.append_assoc, List.singleton_append]

/-- A byte that is no line feed is not among those that are still to be read. -/
theorem engHandleRawInput_lookedAhead (ht : Unended t) (hlen : t.length + 1 ≤ ENG_BUFFER_SIZE)
    (ha : a.looksAhead = true) (hb : b.byte ≠ 0x0a) (stream : List Arrival) :
    ∃ r, engHandleRawInput (t ++ a :: b :: stream) buf = some (some r) ∧
      r.command = t.map Arrival.byte ++ [a.byte] ∧ r.stream = stream := by
  obtain ⟨buf', htake, hcall⟩ := engHandleRawInput_append buf ht hlen
    (Arrival.ends_of_looksAhead ha) (b :: stream)
  rw [if_pos ha, readIsLf, if_neg hb] at hcall
  exact ⟨_, hcall, htake, rfl⟩

theorem engHandleRawInput_end (ht : Unended t) (hlen : t.length + 1 ≤ ENG_BUFFER_SIZE)
    (ha : a.looksAhead = true) : engHandleRawInput (t ++ [a]) buf = some none := by
  obtain ⟨buf', -, hcall⟩ := engHandleRawInput_append buf ht hlen
    (Arrival.ends_of_looksAhead ha) []
  rw [if_pos ha] at hcall
  exact hcall

theorem engHandleRawInput_lineFeed_eq_none (ht : Unended t)
    (hlen : t.length + 1 = ENG_BUFFER_SIZE) (ha : a.looksAhead = true) (hb : b.byte = 0x0a)
    (stream : List Arrival) : engHandleRawInput (t ++ a :: b :: stream) buf = none := by
  obtain ⟨buf', -, hcall⟩ := engHandleRawInput_append buf ht (Nat.le_of_eq hlen)
    (Arrival.ends_of_looksAhead ha) (b :: stream)
  rw [if_pos ha, readIsLf, if_pos hb, write?_byte_eq_none (Nat.le_of_eq hlen.symm)] at hcall
  exact hcall

/-- What a call can do that writes no byte beyond `buf`. -/
inductive Call : List Arrival → Option RawInput → Prop
  | unended {t : List Arrival} (ht : Unended t) (hlen : t.length ≤ ENG_BUFFER_SIZE) : Call t none
  | readsAtEnd {t : List Arrival} {a : Arrival} (ht : Unended t) (ha : a.looksAhead = true) :
      Call (t ++ [a]) none
  | command {t : List Arrival} {a : Arrival} {r : RawInput} (ht : Unended t)
      (ha : a.ends = true) (hahead : a.looksAhead = false)
      (hlen : t.length + 1 ≤ ENG_BUFFER_SIZE)
      (hcommand : r.command = t.map Arrival.byte ++ [a.byte]) : Call (t ++ a :: r.stream) (some r)
  | lineFeed {t : List Arrival} {a b : Arrival} {r : RawInput} (ht : Unended t)
      (ha : a.looksAhead = true) (hb : b.byte = 0x0a) (hlen : t.length + 2 ≤ ENG_BUFFER_SIZE)
      (hcommand : r.command = t.map Arrival.byte ++ [a.byte, b.byte]) :
      Call (t ++ a :: b :: r.stream) (some r)
  | lookedAhead {t : List Arrival} {a b : Arrival} {r : RawInput} (ht : Unended t)
      (ha : a.looksAhead = true) (hlen : t.length + 1 ≤ ENG_BUFFER_SIZE)
      (hcommand : r.command = t.map Arrival.byte ++ [a.byte]) :
      Call (t ++ a :: b :: r.stream) (some r)

theorem call_of_eq_some {buf : Buffer UInt8 ENG_BUFFER_SIZE} {res : Option RawInput}
    (h : engHandleRawInput stream buf = some res) : Call stream res := by
  rcases Segments.exists_first (p := Arrival.ends) stream with ht | ⟨t, a, rest, rfl, ht, ha⟩
  · by_cases hlen : stream.length ≤ ENG_BUFFER_SIZE
    · rw [engHandleRawInput_of_unended _ ht hlen] at h
      cases h
      exact .unended ht hlen
    · rw [engHandleRawInput_unended_eq_none buf ht (Nat.not_le.mp hlen)] at h
      exact absurd h.symm (Option.some_ne_none _)
  · by_cases hlen : t.length + 1 ≤ ENG_BUFFER_SIZE
    · by_cases hahead : a.looksAhead = true
      · cases rest with
        | nil =>
            rw [engHandleRawInput_end _ ht hlen hahead] at h
            cases h
            exact .readsAtEnd ht hahead
        | cons b rest =>
            by_cases hb : b.byte = 0x0a
            · by_cases hroom : t.length + 2 ≤ ENG_BUFFER_SIZE
              · obtain ⟨r, hcall, hcommand, rfl⟩ :=
                  engHandleRawInput_lineFeed buf ht hroom hahead hb rest
                rw [hcall] at h
                cases h
                exact .lineFeed ht hahead hb hroom hcommand
              · rw [engHandleRawInput_lineFeed_eq_none _ ht (by omega) hahead hb] at h
                exact absurd h.symm (Option.some_ne_none _)
            · obtain ⟨r, hcall, hcommand, rfl⟩ :=
                engHandleRawInput_lookedAhead buf ht hlen hahead hb rest
              rw [hcall] at h
              cases h
              exact .lookedAhead ht hahead hlen hcommand
      · have hahead' := Bool.eq_false_iff.mpr hahead
        obtain ⟨r, hcall, hcommand, rfl⟩ :=
          engHandleRawInput_command buf ht hlen ha hahead' rest
        rw [hcall] at h
        cases h
        exact .command ht ha hahead' hlen hcommand
    · rw [engHandleRawInput_eq_none buf ht (by omega) _ (by rw [List.length_cons]; omega)] at h
      exact absurd h.symm (Option.some_ne_none _)

/-! ## A run of calls -/

theorem pcCommands_of_eq_some_none (n : ℕ)
    (h : engHandleRawInput stream (Buffer.fill ENG_BUFFER_SIZE 0) = some none) :
    pcCommands (n + 1) stream = some [] := by
  rw [pcCommands, h]

theorem pcCommands_of_eq_some_some (n : ℕ) {r : RawInput}
    (h : engHandleRawInput stream (Buffer.fill ENG_BUFFER_SIZE 0) = some (some r)) :
    pcCommands (n + 1) stream = (pcCommands n r.stream).map (r.command :: ·) := by
  rw [pcCommands, h]

theorem exists_call_of_pcCommands {n : ℕ} {commands : List (List UInt8)}
    (h : pcCommands (n + 1) stream = some commands) :
    Call stream none ∧ commands = [] ∨
      ∃ r later, Call stream (some r) ∧ pcCommands n r.stream = some later ∧
        commands = r.command :: later := by
  cases hcall : engHandleRawInput stream (Buffer.fill ENG_BUFFER_SIZE 0) with
  | none =>
      rw [pcCommands, hcall] at h
      exact absurd h.symm (Option.some_ne_none _)
  | some res =>
      cases res with
      | none =>
          rw [pcCommands_of_eq_some_none n hcall] at h
          cases h
          exact .inl ⟨call_of_eq_some hcall, rfl⟩
      | some r =>
          rw [pcCommands_of_eq_some_some n hcall, Option.map_eq_some_iff] at h
          obtain ⟨later, hlater, rfl⟩ := h
          exact .inr ⟨r, later, call_of_eq_some hcall, hlater, rfl⟩

theorem flatten_sublist_of_pcCommands {n : ℕ} :
    ∀ {stream : List Arrival} {commands : List (List UInt8)}, pcCommands n stream = some commands →
      commands.flatten.Sublist (completeCommands stream) := by
  induction n with
  | zero =>
      intro stream commands h
      cases h
      exact List.nil_sublist _
  | succ n ih =>
      intro stream commands h
      obtain ⟨-, rfl⟩ | ⟨r, later, hcall, hlater, rfl⟩ := exists_call_of_pcCommands h
      · exact List.nil_sublist _
      · have hrest := ih hlater
        rw [List.flatten_cons]
        cases hcall with
        | command ht ha _ _ hcommand =>
            rw [completeCommands_command ha hcommand]
            exact hrest.append_left _
        | lineFeed ht ha hb _ hcommand =>
            rw [completeCommands_lineFeed ha hb hcommand]
            exact hrest.append_left _
        | @lookedAhead t a b _ ht ha _ hcommand =>
            rw [hcommand, completeCommands_append_cons _ (Arrival.ends_of_looksAhead ha),
              List.append_assoc]
            have hskip := hrest.trans (completeCommands_sublist_cons b r.stream)
            exact (hskip.cons_cons _).append_left _

theorem losesNothing_of_call {n : ℕ} {r : RawInput}
    (hcall : engHandleRawInput stream (Buffer.fill ENG_BUFFER_SIZE 0) = some (some r))
    (hcommands : completeCommands stream = r.command ++ completeCommands r.stream)
    (h : LosesNothing n r.stream) : LosesNothing (n + 1) stream := by
  obtain ⟨later, hlater, hflatten⟩ := Option.map_eq_some_iff.mp h
  rw [LosesNothing, pcCommands_of_eq_some_some n hcall, hlater, hcommands, ← hflatten]
  rfl

theorem losesNothing_of_unended {n : ℕ} (ht : Unended t) (hlen : t.length ≤ ENG_BUFFER_SIZE)
    (hn : 0 < n) : LosesNothing n t := by
  obtain ⟨m, rfl⟩ := Nat.exists_eq_add_one.mpr hn
  rw [LosesNothing, pcCommands_of_eq_some_none m (engHandleRawInput_of_unended _ ht hlen),
    completeCommands_of_unended ht]
  rfl

theorem losesNothing_of_keeps (h : Keeps stream) :
    ∀ {n : ℕ}, stream.length < n → LosesNothing n stream := by
  induction h with
  | unended ht hlen => exact fun hn => losesNothing_of_unended ht hlen (Nat.zero_lt_of_lt hn)
  | @command t rest a ht ha hahead hlen _ ih =>
      intro n hn
      obtain ⟨m, rfl⟩ := Nat.exists_eq_add_one.mpr (Nat.zero_lt_of_lt hn)
      obtain ⟨r, hcall, hcommand, rfl⟩ := engHandleRawInput_command _ ht hlen ha hahead rest
      rw [List.length_append, List.length_cons] at hn
      exact losesNothing_of_call hcall (completeCommands_command ha hcommand) (ih (by omega))
  | @lineFeed t rest a b ht ha hb hlen _ ih =>
      intro n hn
      obtain ⟨m, rfl⟩ := Nat.exists_eq_add_one.mpr (Nat.zero_lt_of_lt hn)
      obtain ⟨r, hcall, hcommand, rfl⟩ := engHandleRawInput_lineFeed _ ht hlen ha hb rest
      rw [List.length_append, List.length_cons, List.length_cons] at hn
      exact losesNothing_of_call hcall (completeCommands_lineFeed ha hb hcommand) (ih (by omega))
  | @lookedAhead t rest a b ht ha hlen hb hrest =>
      intro n hn
      obtain ⟨m, rfl⟩ := Nat.exists_eq_add_one.mpr (Nat.zero_lt_of_lt hn)
      have hne : b.byte ≠ 0x0a := by
        intro h
        have hends := hb b List.mem_cons_self
        rw [Arrival.ends_of_lineFeed h] at hends
        exact Bool.false_ne_true hends.symm
      have hunended : Unended rest := fun c hc => hb c (List.mem_cons_of_mem b hc)
      obtain ⟨r, hcall, hcommand, rfl⟩ := engHandleRawInput_lookedAhead _ ht hlen ha hne rest
      rw [List.length_append, List.length_cons, List.length_cons] at hn
      refine losesNothing_of_call hcall ?_ (losesNothing_of_unended hunended hrest (by omega))
      rw [completeCommands_append_cons _ (Arrival.ends_of_looksAhead ha), hcommand,
        completeCommands_of_unended hb, completeCommands_of_unended hunended, List.append_nil]

theorem length_le_of_pcCommands {n : ℕ} {commands : List (List UInt8)} (ht : Unended stream)
    (hn : stream.length < n) (h : pcCommands n stream = some commands) :
    stream.length ≤ ENG_BUFFER_SIZE := by
  obtain ⟨m, rfl⟩ := Nat.exists_eq_succ_of_ne_zero (Nat.ne_of_gt (Nat.zero_lt_of_lt hn))
  by_contra hlen
  rw [pcCommands, engHandleRawInput_unended_eq_none _ ht (Nat.not_le.mp hlen)] at h
  exact Option.some_ne_none _ h.symm

theorem keeps_of_losesNothing {n : ℕ} :
    ∀ {stream : List Arrival}, stream.length < n → LosesNothing n stream → Keeps stream := by
  induction n with
  | zero => exact fun hn => absurd hn (Nat.not_lt_zero _)
  | succ n ih =>
      intro stream hn h
      obtain ⟨commands, hrun, hflatten⟩ := Option.map_eq_some_iff.mp h
      obtain ⟨hcall, rfl⟩ | ⟨r, later, hcall, hlater, rfl⟩ := exists_call_of_pcCommands hrun
      · cases hcall with
        | unended ht hlen => exact .unended ht hlen
        | readsAtEnd ht ha =>
            rw [completeCommands_append_cons _ (Arrival.ends_of_looksAhead ha)] at hflatten
            exact absurd hflatten.symm (List.append_ne_nil_of_right_ne_nil _ (List.cons_ne_nil _ _))
      · have hkeep : completeCommands stream = r.command ++ completeCommands r.stream →
            r.stream.length < n → Keeps r.stream := by
          intro hcommands hlen
          rw [hcommands, List.flatten_cons] at hflatten
          refine ih hlen ?_
          rw [LosesNothing, hlater, Option.map_some, List.append_cancel_left hflatten]
        cases hcall with
        | command ht ha hahead hlen hcommand =>
            rw [List.length_append, List.length_cons] at hn
            exact .command ht ha hahead hlen
              (hkeep (completeCommands_command ha hcommand) (by omega))
        | lineFeed ht ha hb hlen hcommand =>
            rw [List.length_append, List.length_cons, List.length_cons] at hn
            exact .lineFeed ht ha hb hlen
              (hkeep (completeCommands_lineFeed ha hb hcommand) (by omega))
        | @lookedAhead t a b _ ht ha hlen hcommand =>
            rw [List.length_append, List.length_cons, List.length_cons] at hn
            have hb : Unended (b :: r.stream) := by
              by_contra hends
              rw [completeCommands_append_cons _ (Arrival.ends_of_looksAhead ha),
                completeCommands_cons hends, List.flatten_cons, hcommand, List.append_assoc,
                List.singleton_append] at hflatten
              have hlost := List.tail_eq_of_cons_eq (List.append_cancel_left hflatten)
              have hle := (flatten_sublist_of_pcCommands hlater).length_le
              rw [hlost, List.length_cons] at hle
              omega
            have hunended : Unended r.stream := fun c hc => hb c (List.mem_cons_of_mem b hc)
            exact .lookedAhead ht ha hlen hb
              (length_le_of_pcCommands hunended (by omega) hlater)

/-- With at least as many calls as the stream can need, they write no byte beyond the buffer and
lose none of a complete command if and only if the commands fit the buffer and every byte that is
read ahead is a line feed or belongs to no complete command. -/
theorem losesNothing_iff {n : ℕ} (hn : stream.length < n) :
    LosesNothing n stream ↔ Keeps stream :=
  ⟨keeps_of_losesNothing hn, fun h => losesNothing_of_keeps h hn⟩

/-- `A`, carriage return, `B`, line feed, with data behind the carriage return in time. -/
def earlyB : List Arrival :=
  [⟨65, .timeout⟩, ⟨0x0d, .ready⟩, ⟨66, .timeout⟩, ⟨0x0a, .timeout⟩]

theorem losesNothing_iff_earlyB : LosesNothing 5 earlyB ↔ Keeps earlyB :=
  losesNothing_iff (by decide)

theorem not_losesNothing_earlyB : ¬LosesNothing 5 earlyB := by
  decide +kernel

end Engcs

end Tarako
