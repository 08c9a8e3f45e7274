import Tarako.Slog.ModemRing
import Tarako.Slog.Rotate

/-!
# The size of a log file

`outbytecount` counts what has been written to a log file, and `log_size_handler` rewinds or
rotates the file by it. It is counted from what the writes return, and the limit is computed
in `int`. `limited_run` says in which runs the count is the position in the file and the file
stays below its limit but for one write.
-/

namespace Tarako

namespace Slog

open Run Text Renames

/-- What a call of `write` does; it takes no more than it is given. -/
inductive WriteResult
  | eintr
  | error
  | wrote (n : ℕ)
deriving DecidableEq

/-- The loop of `write_from_buffer` with `result` bytes written: what is returned, and what has
been written in the end. There is no result when the calls do not bring the loop to its end. -/
def writeLoop (len : ℕ) : ℕ → List WriteResult → Option (Int32 × ℕ)
  | result, [] => if len ≤ result then some (Int32.ofNat result, result) else none
  | result, w :: ws =>
      if len ≤ result then some (Int32.ofNat result, result)
      else
        match w with
        | .eintr => writeLoop len result ws
        | .error => some (-1, result)
        | .wrote n => writeLoop len (result + min n (len - result)) ws

def writeFromBuffer (len : ℕ) (ws : List WriteResult) : Option (Int32 × ℕ) := writeLoop len 0 ws

/-- `write`, again after `EINTR`: a failure, or how many bytes have been written. -/
def writeAgain (len : ℕ) : List WriteResult → Option (Option ℕ)
  | [] => none
  | .eintr :: ws => writeAgain len ws
  | .error :: _ => some none
  | .wrote n :: _ => some (some (min n len))

def DEFAULT_MAX_LOG_SIZE : Int32 := 256

/-- `"/data/slog"`. -/
def INTERNAL_LOG_PATH : List UInt8 := ofAscii ['/', 'd', 'a', 't', 'a', '/', 's', 'l', 'o', 'g']

structure LogConfig where
  currentLogPath : List UInt8
  internalLogSize : Int32
  maxSize : Int32

/-- The log files by their sizes, and what `info` and its `fd_out` hold. The last three fields
are no part of the program: the bytes written since the last rewind or rotation, the same at
each rewind and rotation, and the longest write. -/
structure LogFile where
  files : Files ℕ
  pos : ℕ
  outbytecount : Int32
  written : ℕ
  turns : List ℕ
  longest : ℕ

namespace LogFile

variable (base : List UInt8) (s : LogFile)

def size : ℕ := (s.files base).getD 0

/-- `n` bytes at the position of `fd_out`. -/
def write (n : ℕ) : LogFile :=
  { s with
    files := Function.update s.files base (some (max (s.size base) (s.pos + n)))
    pos := s.pos + n
    written := s.written + n
    longest := max s.longest n }

/-- `gen_outfd`: the end of the file, which is made when it is not there. -/
def genOutfd : LogFile :=
  { s with
    files := Function.update s.files base (some (s.size base))
    pos := s.size base
    outbytecount := Int32.ofNat (s.size base) }

def turned : LogFile :=
  { s with outbytecount := 0, written := 0, turns := s.turns ++ [s.written] }

/-- `lseek(info->fd_out, 0, SEEK_SET)` and the new count. -/
def rewind : LogFile := { s.turned with pos := 0 }

def rotatelogs : LogFile :=
  (genOutfd base { s with files := fileNameRotate s.files base }).turned

def logSizeHandler (c : LogConfig) : LogFile :=
  if INTERNAL_LOG_PATH <+: c.currentLogPath then
    if c.internalLogSize * 1024 * 1024 ≤ s.outbytecount then s.rewind else s
  else if c.maxSize = 0 then
    if DEFAULT_MAX_LOG_SIZE * 1024 * 1024 ≤ s.outbytecount then s.rotatelogs base else s
  else
    if c.maxSize * 1024 * 1024 ≤ s.outbytecount then s.rewind else s

/-- `n` bytes are written, `info->outbytecount += ret` and `log_size_handler`. -/
def count (c : LogConfig) (n : ℕ) (ret : Int32) : LogFile :=
  logSizeHandler base { s.write base n with outbytecount := s.outbytecount + ret } c

/-- The length of the line that `add_timestamp` writes. -/
def STAMP_LEN : ℕ := 49

def addTimestamp (ws : List WriteResult) : LogFile :=
  match writeAgain STAMP_LEN ws with
  | some (some n) => s.write base n
  | _ => s

/-- What `info` is when a handler has opened its file. Everything in the file has been written
since the last rotation. -/
def start (files : Files ℕ) : LogFile :=
  genOutfd base ⟨files, 0, 0, (files base).getD 0, [], 0⟩

end LogFile

/-- A turn of a handler: `modem_log_handler` has read `len` bytes, or `stream_log_handler` has
made a text of `len` bytes of the kernel log, or has called `android_log_printLogLine`, which
has written `n` bytes and returned `ret`. A file that is opened again gets a `stamp`. -/
inductive LogEvent
  | modem (len : ℕ) (ws : List WriteResult)
  | kernel (len : ℕ) (ws stamp : List WriteResult)
  | line (n : ℕ) (ret : Int32) (stamp : List WriteResult)
  | addTimestamp (ws : List WriteResult)

def logStep (c : LogConfig) (base : List UInt8) (s : LogFile) : LogEvent → LogFile
  | .modem len ws =>
      match writeFromBuffer len ws with
      | some (ret, n) => s.count base c n ret
      | none => s
  | .kernel len ws stamp =>
      match writeAgain len ws with
      | some (some n) =>
          if n < len then ((s.write base n).genOutfd base).addTimestamp base stamp
          else s.count base c n (Int32.ofNat n)
      -- `(size_t)ret` is not less than the length when `ret` is -1
      | some none => s.count base c 0 (-1)
      | none => s
  | .line n ret stamp =>
      if ret = 0 then ((s.write base n).genOutfd base).addTimestamp base stamp
      else s.count base c n ret
  | .addTimestamp ws => s.addTimestamp base ws

def LogConfig.limitMB (c : LogConfig) : ℕ :=
  if INTERNAL_LOG_PATH <+: c.currentLogPath then c.internalLogSize.toNatClampNeg
  else if c.maxSize = 0 then DEFAULT_MAX_LOG_SIZE.toNatClampNeg
  else c.maxSize.toNatClampNeg

def LogConfig.limit (c : LogConfig) : ℕ := c.limitMB * 1024 * 1024

/-- The count is the position, the file is no longer than its limit and one write, and every
rewind or rotation has come after at least as many bytes. -/
structure Limited (c : LogConfig) (base : List UInt8) (s : LogFile) : Prop where
  count_eq : s.outbytecount.toInt = s.pos
  size_le : s.size base ≤ c.limit + s.longest
  turns_ge : ∀ n ∈ s.turns, c.limit ≤ n

/-- Everything is written, and everything written is counted. -/
def LogEvent.Whole : LogEvent → Prop
  | .modem len ws => len ≤ SINGLE_BUFFER_SIZE ∧ .error ∉ ws
  | .kernel len ws _ => len ≤ 1024 * 1024 ∧ .error ∉ ws ∧ ∀ n, .wrote n ∈ ws → len ≤ n
  | .line n ret _ => 0 < n ∧ n ≤ 1024 * 1024 ∧ ret.toInt = n
  | .addTimestamp ws => ∀ n, .wrote n ∈ ws → n = 0

/-! ## The writes -/

theorem writeLoop_of_no_error {len result n : ℕ} {ws : List WriteResult} {ret : Int32}
    (hle : result ≤ len) (hws : .error ∉ ws) (h : writeLoop len result ws = some (ret, n)) :
    ret = Int32.ofNat len ∧ n = len := by
  induction ws generalizing result with
  | nil =>
      rw [writeLoop] at h
      split_ifs at h with hend
      obtain rfl : result = len := Nat.le_antisymm hle hend
      cases h
      exact ⟨rfl, rfl⟩
  | cons w ws ih =>
      rw [List.mem_cons, not_or] at hws
      unfold writeLoop at h
      split_ifs at h with hend
      · obtain rfl : result = len := Nat.le_antisymm hle hend
        cases h
        exact ⟨rfl, rfl⟩
      · cases w with
        | eintr => exact ih hle hws.2 h
        | error => exact absurd rfl hws.1
        | wrote n => exact ih (by omega) hws.2 h

theorem mem_of_writeAgain {len : ℕ} {ws : List WriteResult} {r : Option ℕ}
    (h : writeAgain len ws = some r) :
    .error ∈ ws ∧ r = none ∨ ∃ n, .wrote n ∈ ws ∧ r = some (min n len) := by
  induction ws with
  | nil => cases h
  | cons w ws ih =>
      cases w with
      | eintr =>
          rcases ih h with ⟨hmem, hr⟩ | ⟨n, hmem, hr⟩
          · exact Or.inl ⟨List.mem_cons_of_mem _ hmem, hr⟩
          · exact Or.inr ⟨n, List.mem_cons_of_mem _ hmem, hr⟩
      | error =>
          cases h
          exact Or.inl ⟨List.mem_cons_self, rfl⟩
      | wrote n =>
          cases h
          exact Or.inr ⟨n, List.mem_cons_self, rfl⟩

/-! ## The limit -/

def LogConfig.intLimit (c : LogConfig) : Int32 :=
  if INTERNAL_LOG_PATH <+: c.currentLogPath then c.internalLogSize * 1024 * 1024
  else if c.maxSize = 0 then DEFAULT_MAX_LOG_SIZE * 1024 * 1024
  else c.maxSize * 1024 * 1024

theorem toInt_mul_of_lt {size : Int32} (hpos : 0 < size.toNatClampNeg)
    (hlt : size.toNatClampNeg < 2048) :
    (size * 1024 * 1024).toInt = (size.toNatClampNeg * 1024 * 1024 : ℕ) := by
  have hkilo : (1024 : Int32).toInt = 1024 := rfl
  have hsize : size.toInt = size.toNatClampNeg := by
    rw [Int32.toNatClampNeg] at hpos ⊢
    omega
  rw [Int32.toInt_mul, Int32.toInt_mul, hkilo, hsize]
  generalize size.toNatClampNeg = n at hlt
  have hfirst : ((n : ℤ) * 1024).bmod (2 ^ 32) = n * 1024 :=
    Int.bmod_eq_of_le (by omega) (by omega)
  rw [hfirst, Int.bmod_eq_of_le (by omega) (by omega)]
  omega

theorem toInt_intLimit {c : LogConfig} (hpos : 0 < c.limitMB) (hlt : c.limitMB < 2048) :
    c.intLimit.toInt = c.limit := by
  rw [LogConfig.limitMB] at hpos hlt
  rw [LogConfig.intLimit, LogConfig.limit, LogConfig.limitMB]
  split_ifs at hpos hlt ⊢
  · exact toInt_mul_of_lt hpos hlt
  · rfl
  · exact toInt_mul_of_lt hpos hlt

namespace LogFile

variable {base : List UInt8} {s : LogFile} {c : LogConfig}

theorem logSizeHandler_eq : logSizeHandler base s c =
    if c.intLimit ≤ s.outbytecount then
      if INTERNAL_LOG_PATH <+: c.currentLogPath ∨ c.maxSize ≠ 0 then s.rewind
      else s.rotatelogs base
    else s := by
  rw [logSizeHandler, LogConfig.intLimit]
  by_cases hinternal : INTERNAL_LOG_PATH <+: c.currentLogPath
  · simp only [hinternal, if_true, true_or]
  · by_cases hsize : c.maxSize = 0
    · simp only [hinternal, hsize, if_true, if_false, ne_eq, not_true, or_false]
    · simp only [hinternal, hsize, if_true, if_false, ne_eq, not_false_iff, or_true]

theorem size_of_files {k : ℕ} (h : s.files base = some k) : s.size base = k := by
  rw [size, h, Option.getD_some]

theorem size_write (n : ℕ) : (s.write base n).size base = max (s.size base) (s.pos + n) :=
  size_of_files (Function.update_self base _ s.files)

theorem size_genOutfd : (s.genOutfd base).size base = s.size base :=
  size_of_files (Function.update_self base _ s.files)

theorem size_fileNameRotate :
    size base { s with files := fileNameRotate s.files base } = 0 := by
  change (fileNameRotate s.files base base).getD 0 = 0
  rw [fileNameRotate_base, Option.getD_none]

theorem size_rotatelogs : (s.rotatelogs base).size base = 0 :=
  size_genOutfd.trans size_fileNameRotate

theorem pos_rotatelogs : (s.rotatelogs base).pos = 0 := size_fileNameRotate

end LogFile

/-! ## Runs -/

/-- What every turn keeps: the file is below its limit, and what is in front of the position
has been written since the last rewind or rotation. -/
structure Inv (c : LogConfig) (base : List UInt8) (s : LogFile) : Prop
    extends Limited c base s where
  pos_lt : s.pos < c.limit
  pos_le_written : s.pos ≤ s.written

section Runs

variable {c : LogConfig} {base : List UInt8} {s : LogFile} (hpos : 0 < c.limitMB)
  (hlt : c.limitMB < 2048)

include hpos

theorem inv_of_turned (hsize : s.size base ≤ c.limit + s.longest)
    (hturns : ∀ n ∈ s.turns, c.limit ≤ n) (hwritten : c.limit ≤ s.written) {s' : LogFile}
    (hs' : s' = s.rewind ∨ s' = s.rotatelogs base) : Inv c base s' := by
  have hlimit : 0 < c.limit := by
    rw [LogConfig.limit]
    omega
  have hturns' : ∀ n ∈ s.turns ++ [s.written], c.limit ≤ n := by
    intro n hn
    rcases List.mem_append.mp hn with hn | hn
    · exact hturns n hn
    · rw [List.mem_singleton.mp hn]
      exact hwritten
  rcases hs' with rfl | rfl
  · exact ⟨⟨rfl, hsize, hturns'⟩, hlimit, Nat.le_refl 0⟩
  · have hcount : (s.rotatelogs base).outbytecount.toInt = (s.rotatelogs base).pos := by
      rw [LogFile.pos_rotatelogs]
      rfl
    refine ⟨⟨hcount, ?_, hturns'⟩, ?_, ?_⟩
    · rw [LogFile.size_rotatelogs]
      exact Nat.zero_le _
    · rw [LogFile.pos_rotatelogs]
      exact hlimit
    · rw [LogFile.pos_rotatelogs]
      exact Nat.zero_le _

include hlt

theorem Inv.count (h : Inv c base s) {n : ℕ} {ret : Int32} (hn : n ≤ 1024 * 1024)
    (hret : ret.toInt = n) : Inv c base (s.count base c n ret) := by
  obtain ⟨s', hs'⟩ : ∃ s', s' = { s.write base n with outbytecount := s.outbytecount + ret } :=
    ⟨_, rfl⟩
  have hlimit : c.limit ≤ 2047 * 1024 * 1024 := by
    rw [LogConfig.limit]
    omega
  have hposlt := h.pos_lt
  have hcount : s'.outbytecount.toInt = (s.pos + n : ℕ) := by
    rw [hs']
    change (s.outbytecount + ret).toInt = _
    rw [Int32.toInt_add, h.count_eq, hret, ← Int.natCast_add]
    exact Int.bmod_eq_of_le (by omega) (by omega)
  have hsize : s'.size base ≤ c.limit + s'.longest := by
    have hold := h.size_le
    have hnew : s'.size base = max (s.size base) (s.pos + n) := by
      rw [hs']
      exact LogFile.size_write n
    have hlongest : s'.longest = max s.longest n := by
      rw [hs']
      rfl
    omega
  have hturns : ∀ k ∈ s'.turns, c.limit ≤ k := by
    rw [hs']
    exact h.turns_ge
  have hwritten : s'.written = s.written + n := by
    rw [hs']
    rfl
  have hposeq : s'.pos = s.pos + n := by
    rw [hs']
    rfl
  have hle := h.pos_le_written
  rw [LogFile.count, ← hs', LogFile.logSizeHandler_eq]
  have hfull : c.intLimit ≤ s'.outbytecount ↔ c.limit ≤ s.pos + n := by
    rw [Int32.le_iff_toInt_le, toInt_intLimit hpos hlt, hcount]
    omega
  split_ifs with hturn hmode
  · exact inv_of_turned hpos hsize hturns (by rw [hfull] at hturn; omega) (Or.inl rfl)
  · exact inv_of_turned hpos hsize hturns (by rw [hfull] at hturn; omega) (Or.inr rfl)
  · rw [hfull] at hturn
    refine ⟨⟨?_, hsize, hturns⟩, ?_, ?_⟩
    · rw [hcount, hposeq]
    · omega
    · omega

theorem inv_logStep (h : Inv c base s) {e : LogEvent} (he : e.Whole) :
    Inv c base (logStep c base s e) := by
  cases e with
  | modem len ws =>
      obtain ⟨hlen, hws⟩ := he
      rw [logStep]
      cases hwrite : writeFromBuffer len ws with
      | none => exact h
      | some r =>
          obtain ⟨ret, n⟩ := r
          obtain ⟨rfl, rfl⟩ := writeLoop_of_no_error (Nat.zero_le _) hws hwrite
          have hsmall : n ≤ 16 * 1024 := hlen
          refine h.count hpos hlt (by omega) ?_
          exact Int32.toInt_ofNat_of_lt (by omega)
  | kernel len ws stamp =>
      obtain ⟨hlen, hws, hwhole⟩ := he
      rw [logStep]
      cases hwrite : writeAgain len ws with
      | none => exact h
      | some r =>
          rcases mem_of_writeAgain hwrite with ⟨hmem, -⟩ | ⟨n, hmem, rfl⟩
          · exact absurd hmem hws
          · rw [Nat.min_eq_right (hwhole n hmem)]
            change Inv c base (if len < len then _ else _)
            rw [if_neg (Nat.lt_irrefl len)]
            exact h.count hpos hlt hlen (Int32.toInt_ofNat_of_lt (by omega))
  | line n ret stamp =>
      obtain ⟨hn, hsmall, hret⟩ := he
      rw [logStep, if_neg]
      · exact h.count hpos hlt hsmall hret
      · rintro rfl
        have hzero : (0 : Int32).toInt = 0 := rfl
        omega
  | addTimestamp ws =>
      rw [logStep, LogFile.addTimestamp]
      cases hwrite : writeAgain LogFile.STAMP_LEN ws with
      | none => exact h
      | some r =>
          rcases mem_of_writeAgain hwrite with ⟨-, rfl⟩ | ⟨n, hmem, rfl⟩
          · exact h
          · have hnone : min n LogFile.STAMP_LEN = 0 := by
              rw [he n hmem, Nat.zero_min]
            change Inv c base (s.write base (min n LogFile.STAMP_LEN))
            rw [hnone]
            refine ⟨⟨h.count_eq, ?_, h.turns_ge⟩, h.pos_lt, h.pos_le_written⟩
            have hsize := h.size_le
            have hposlt := h.pos_lt
            rw [LogFile.size_write]
            change max (s.size base) (s.pos + 0) ≤ c.limit + max s.longest 0
            omega

theorem inv_start {files : Files ℕ} (h : (files base).getD 0 < c.limit) :
    Inv c base (LogFile.start base files) := by
  have hlimit : c.limit ≤ 2047 * 1024 * 1024 := by
    rw [LogConfig.limit]
    omega
  have hcount : (Int32.ofNat ((files base).getD 0)).toInt = ((files base).getD 0 : ℕ) :=
    Int32.toInt_ofNat_of_lt (by omega)
  refine ⟨⟨hcount, ?_, ?_⟩, h, Nat.le_refl _⟩
  · rw [LogFile.start, LogFile.size_genOutfd]
    exact Nat.le_of_lt (Nat.lt_of_lt_of_le h (Nat.le_add_right _ _))
  · intro n hn
    exact absurd hn List.not_mem_nil

end Runs

/-- With a limit of at most 2047 megabytes and a file that is shorter when it is opened, the file
is limited in every state of a run in which everything is written and counted. -/
theorem limited_run {c : LogConfig} {base : List UInt8} {files : Files ℕ} (hpos : 0 < c.limitMB)
    (hlt : c.limitMB < 2048) (hstart : (files base).getD 0 < c.limit) {es : List LogEvent}
    (hes : ∀ e ∈ es, e.Whole) :
    ∀ fs, fs <+: es → Limited c base (run (logStep c base) (LogFile.start base files) fs) := by
  intro fs hfs
  have hmeets : Meets (logStep c base) (fun _ e => e.Whole) (LogFile.start base files) es :=
    meets_of_forall_mem hes _
  have hstep : ∀ s e, LogEvent.Whole e → Inv c base s → Inv c base (logStep c base s e) := by
    intro s e he h
    exact inv_logStep hpos hlt h he
  exact (Run.invariant_prefix hstep hfs hmeets (inv_start hpos hlt hstart)).toLimited

theorem limited_run_modem :
    (∀ fs, fs <+: List.replicate 65 (.modem 16384 [.eintr, .wrote 384, .wrote 16000]) →
      Limited ⟨[], 5, 1⟩ [97] (run (logStep ⟨[], 5, 1⟩ [97]) (.start [97] fun _ => none) fs)) ∧
    ∀ fs, fs <+: List.replicate 65 (.modem 16384 [.wrote 16384]) →
      Limited ⟨[], 5, 0⟩ [97] (run (logStep ⟨[], 5, 0⟩ [97]) (.start [97] fun _ => none) fs) := by
  refine ⟨limited_run (by decide) (by decide) (by decide) ?_,
    limited_run (by decide) (by decide) (by decide) ?_⟩
  · intro e he
    rw [List.eq_of_mem_replicate he]
    exact ⟨by decide, by decide⟩
  · intro e he
    rw [List.eq_of_mem_replicate he]
    exact ⟨by decide, by decide⟩

/-- A write that fails is counted as -1, and 2048 megabytes are a negative number: the file is
rewound after every byte. -/
theorem not_limited :
    ¬ Limited ⟨[], 5, 1⟩ [97]
      (run (logStep ⟨[], 5, 1⟩ [97]) (.start [97] fun _ => none) [.modem 1 [.error]]) ∧
    ¬ Limited ⟨[], 5, 2048⟩ [97]
      (run (logStep ⟨[], 5, 2048⟩ [97]) (.start [97] fun _ => none) [.modem 1 [.wrote 1]]) := by
  constructor
  · intro h
    exact absurd h.count_eq (by decide)
  · intro h
    exact absurd (h.turns_ge 1 (by decide)) (by decide)

end Slog

end Tarako
