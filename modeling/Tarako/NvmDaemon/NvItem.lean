import Mathlib.Data.List.Infix
import Tarako.Lib.Run
import Tarako.Lib.Splice
import Tarako.NvmDaemon.Checksum

/-!
# The main loop of nvitemd

The daemon of `nvitem.c` reads requests of the modem from a pipe, a header of
twelve bytes and the payload of a data request after it, and keeps three NV
images: the fixed NV and the product information are changed in a buffer and
written back as a whole, the runtime NV is written to two files as the payload
comes in. The build is the one without `CONFIG_EMMC`, on a machine with 32-bit
little-endian words.

`State.step` is one turn around a `read` of the pipe, with the results of the
system calls of that turn in an `Env`. The trace of a state lists what the daemon
has done, newest first. A `memcpy` that leaves its array ends in `Control.fault`.
-/

namespace Tarako

namespace NvmDaemon

open Words Splice

def DATA_BUF_LEN : ℕ := 2048 * 10

def FIXNV_SIZE : ℕ := 64 * 1024

def RUNTIMENV_SIZE : ℕ := 256 * 1024

def PRODUCTINFO_SIZE : ℕ := 3 * 1024

/-! ## Requests -/

structure RequestHeader where
  type : UInt16
  reqType : UInt16
  offset : UInt32
  size : UInt32
  deriving DecidableEq, Repr

/-- `sizeof(request_header_t)`. -/
def headerSize : ℕ := 12

namespace RequestHeader

def encode (h : RequestHeader) : List UInt8 :=
  bytes16 h.type ++ bytes16 h.reqType ++ bytes32 h.offset ++ bytes32 h.size

def decode (m : Buffer UInt8 headerSize) : RequestHeader :=
  let b := fun i => m.bytes.getD i 0
  { type := word16 (b 0) (b 1)
    reqType := word16 (b 2) (b 3)
    offset := word32 (b 4) (b 5) (b 6) (b 7)
    size := word32 (b 8) (b 9) (b 10) (b 11) }

theorem length_encode (h : RequestHeader) : h.encode.length = headerSize := rfl

theorem decode_load_encode (m : Buffer UInt8 headerSize) (h : RequestHeader) :
    decode (m.load h.encode) = h := by
  have hbytes : (m.load h.encode).bytes = h.encode := by
    rw [Buffer.load_bytes_of_length (Nat.le_of_eq h.length_encode.symm), ← h.length_encode,
      List.take_length]
  simp only [decode, hbytes]
  simp only [encode, bytes16, bytes32, List.cons_append, List.nil_append,
    List.getD_cons_zero, List.getD_cons_succ, word16_bytes16, word32_bytes32]

/-- `total = req_header.size`: the `int` of an unsigned size. -/
def total (h : RequestHeader) : Int :=
  if h.size.toNat < 2147483648 then h.size.toNat else h.size.toNat - 4294967296

theorem total_eq_size {h : RequestHeader} (hpos : 0 < h.total) : h.total = h.size.toNat := by
  have hlt := h.size.toNat_lt
  rw [total] at hpos ⊢
  split_ifs at hpos ⊢
  · rfl
  · omega

end RequestHeader

/-! ## The state of the daemon -/

/-- Where the loop waits for its next `read`, or how it has ended. -/
inductive Control
  | header
  | payload
  | exited
  | fault
  deriving DecidableEq, Repr

/-- The image that `length` stands for while a payload is read. -/
inductive NvImage
  | fixnv
  | runtime
  | productinfo
  deriving DecidableEq, Repr

/-- What the daemon does to its buffers and files. -/
inductive Action
  | readHeader (bytes : List UInt8)
  | interpret (h : RequestHeader)
  | reply (bytes : List UInt8)
  | readPayload (bytes : List UInt8)
  | loadFixnv (count : ℕ)
  | loadPhasecheck (count : ℕ)
  | memcpyFixnv (offset : UInt32) (count : ℕ)
  | memcpyPhasecheck (offset : UInt32) (count : ℕ)
  | seekRuntime (target : UInt32)
  | writeRuntime (pos count : ℕ)
  | updateFixnv (written : List UInt8)
  | updateBackup (written : List UInt8)
  | runtimeDone
  deriving DecidableEq

/-- The variables of `main` and the statics, the files, and the trace. The two
positions are those of the descriptors `fd` and `runtime_nvitem_bkfd`. -/
structure State where
  control : Control
  reqHeader : Buffer UInt8 headerSize
  total : Int
  length : NvImage
  indexvalue : UInt16
  fixnvBuffer : Buffer UInt8 (FIXNV_SIZE + 4)
  fixnvBufferOffset : UInt32
  phasecheckBuffer : Buffer UInt8 (PRODUCTINFO_SIZE + 8)
  phasecheckBufferOffset : UInt32
  updateFinxnFlag : Bool
  fixnv : List UInt8
  backupfixnv : List UInt8
  runtimenv : List UInt8
  runtimenvbkup : List UInt8
  productinfo : List UInt8
  productinfobkup : List UInt8
  runtimePos : ℕ
  runtimeBackupPos : ℕ
  trace : List Action

/-- The results of the system calls of one turn. `read` gives the bytes of the pipe,
none of them after a reset and `none` for an error; the `read` of the image that a
request starts from ends after `readBase` bytes, if not with the file; an `Option Int`
is the result of `write` after an `open` that may fail. -/
structure Env where
  read : Option (List UInt8)
  reopen : Bool
  openFile : Bool
  readBase : Int
  openBackup : Bool
  writeRuntime : Int
  writeRuntimeBackup : Int
  fixnv : Option Int
  backupfixnv : Option Int
  productinfo : Option Int
  productinfobkup : Option Int

namespace State

def log (s : State) (a : Action) : State := { s with trace := a :: s.trace }

def header (s : State) : RequestHeader := RequestHeader.decode s.reqHeader

/-! ## Writing images -/

/-- What a `write` of an image with this result puts into its file. -/
def writtenBy (image : List UInt8) : Option Int → List UInt8
  | none => []
  | some ret => image.take ret.toNat

/-- What a `read` of `n` bytes of a file with this result delivers. -/
def readBy (n : ℕ) (file : List UInt8) (ret : Int) : List UInt8 := (file.take n).take ret.toNat

/-- The index after `indexvalue`: 0 to 99. -/
def nextIndex (indexvalue : UInt16) : UInt16 := UInt16.ofNat ((indexvalue.toNat + 1) % 100)

/-- The part of `update_fixnvfile(src, FIXNV_SIZE)` that changes `fixnv_buffer`. -/
def stampFixnv (buffer : Buffer UInt8 (FIXNV_SIZE + 4)) (indexvalue : UInt16) :
    Buffer UInt8 (FIXNV_SIZE + 4) :=
  let sum := calcChecksum (buffer.bytes.take (FIXNV_SIZE - 4))
  let buffer := buffer.write (FIXNV_SIZE - 4) (bytes16 sum) (by simp [FIXNV_SIZE])
  let buffer := buffer.write (FIXNV_SIZE - 2) (bytes16 (nextIndex indexvalue))
    (by simp [FIXNV_SIZE])
  buffer.write FIXNV_SIZE [0x5A, 0x5A, 0x5A, 0x5A] (by simp)

def updateFixnvfile (s : State) (ret : Option Int) : State :=
  let buffer := stampFixnv s.fixnvBuffer s.indexvalue
  let written := writtenBy buffer.bytes ret
  { s with
    fixnvBuffer := buffer
    fixnv := writeAt 0 s.fixnv 0 written
    trace := .updateFixnv written :: s.trace }

def updateBackupfile (s : State) (ret : Option Int) : State :=
  let written := writtenBy s.fixnvBuffer.bytes ret
  { s with
    backupfixnv := writeAt 0 s.backupfixnv 0 written
    trace := .updateBackup written :: s.trace }

/-- The part of `update_productinfofile(src, dst, PRODUCTINFO_SIZE)` that changes
`phasecheck_buffer`. -/
def stampPhasecheck (buffer : Buffer UInt8 (PRODUCTINFO_SIZE + 8)) (indexvalue : UInt16) :
    Buffer UInt8 (PRODUCTINFO_SIZE + 8) :=
  let sum := calcChecksum (buffer.bytes.take PRODUCTINFO_SIZE)
  let buffer := buffer.write PRODUCTINFO_SIZE (bytes16 sum) (by simp)
  buffer.write (PRODUCTINFO_SIZE + 2) (bytes16 (nextIndex indexvalue)) (by simp)

/-- The second file is written only when the first one can be opened. -/
def updateProductinfofile (s : State) (ret retBackup : Option Int) : State :=
  let buffer := stampPhasecheck s.phasecheckBuffer s.indexvalue
  let image := buffer.bytes.take (PRODUCTINFO_SIZE + 4)
  { s with
    phasecheckBuffer := buffer
    productinfo := writeAt 0 s.productinfo 0 (writtenBy image ret)
    productinfobkup :=
      if ret.isSome then writeAt 0 s.productinfobkup 0 (writtenBy image retBackup)
      else s.productinfobkup }

/-! ## One turn of the loop -/

def reopenVbpipe (s : State) (e : Env) : State :=
  { s with control := if e.reopen then .header else .exited }

def exit (s : State) : State := { s with control := .exited }

def complete (s : State) (e : Env) : State :=
  match s.length with
  | .runtime => { s with control := .header }.log .runtimeDone
  | .productinfo =>
      { s with control := .header }.updateProductinfofile e.productinfo e.productinfobkup
  | .fixnv => { s with control := .header, updateFinxnFlag := true }.updateFixnvfile e.fixnv

/-- The test of the loop `while (total > 0)`. -/
def loopTest (s : State) (e : Env) : State :=
  if 0 < s.total then { s with control := .payload } else s.complete e

/-- The sync command. The header is sent back with its `type` cleared. -/
def sync (s : State) (e : Env) : State :=
  let s := if s.updateFinxnFlag then s.updateBackupfile e.backupfixnv else s
  let reqHeader := s.reqHeader.write 0 [0, 0] (by simp [headerSize])
  { s with updateFinxnFlag := false, reqHeader }.log (.reply reqHeader.bytes)

/-- `memset` and `read` of the base image, of which the result is not looked at. The
check of the range only logs. -/
def openFixnv (s : State) (e : Env) : State :=
  let buffer := Buffer.fill (FIXNV_SIZE + 4) 0xFF
  if !e.openFile then { s with fixnvBuffer := buffer }.exit
  else
    let base := readBy (FIXNV_SIZE + 4) s.fixnv e.readBase
    let buffer := buffer.load base
    { s with
      fixnvBuffer := buffer
      length := .fixnv
      indexvalue := word16 (buffer.bytes.getD (FIXNV_SIZE - 2) 0)
        (buffer.bytes.getD (FIXNV_SIZE - 1) 0)
      fixnvBufferOffset := s.header.offset
      total := s.header.total
      trace := .loadFixnv base.length :: s.trace }.loopTest e

/-- The position after `lseek(fd, offset, SEEK_SET)` on a file just opened: `off_t`
has 32 bits and a negative offset is refused. -/
def lseek (offset : UInt32) : ℕ := if offset.toNat < 2147483648 then offset.toNat else 0

def openRuntime (s : State) (e : Env) : State :=
  if !e.openFile then s.exit
  else
    let s := { s with
      length := .runtime
      runtimePos := lseek s.header.offset
      trace := .seekRuntime s.header.offset :: s.trace }
    if !e.openBackup then s.exit
    else
      { s with
        runtimeBackupPos := lseek s.header.offset
        total := s.header.total
        trace := .seekRuntime s.header.offset :: s.trace }.loopTest e

/-- As `openFixnv`; the index stands two bytes after the image. -/
def openProductinfo (s : State) (e : Env) : State :=
  let buffer := Buffer.fill (PRODUCTINFO_SIZE + 8) 0xFF
  if !e.openFile then { s with phasecheckBuffer := buffer }.exit
  else
    let base := readBy (PRODUCTINFO_SIZE + 4) s.productinfo e.readBase
    let buffer := buffer.load base
    { s with
      phasecheckBuffer := buffer
      length := .productinfo
      indexvalue := word16 (buffer.bytes.getD (PRODUCTINFO_SIZE + 2) 0)
        (buffer.bytes.getD (PRODUCTINFO_SIZE + 3) 0)
      phasecheckBufferOffset := s.header.offset
      total := s.header.total
      trace := .loadPhasecheck base.length :: s.trace }.loopTest e

def interpret (s : State) (e : Env) : State :=
  let h := s.header
  let s := s.log (.interpret h)
  if h.reqType = 1 then s.sync e
  else if h.type = 0 then s.openFixnv e
  else if h.type = 1 then s.openRuntime e
  else if h.type = 2 then s.openProductinfo e
  else s

/-- The header variable after a `read` that has delivered `bytes`. -/
def receive (s : State) (bytes : List UInt8) : State :=
  { s with
    reqHeader := s.reqHeader.load bytes
    trace := .readHeader (bytes.take headerSize) :: s.trace }

/-- The `read` of a header. A short one leaves the rest of the old header behind it,
and the whole is interpreted. -/
def readHeader (s : State) (e : Env) : State :=
  match e.read with
  | none => s
  | some [] => s.reopenVbpipe e
  | some (b :: bytes) => (s.receive (b :: bytes)).interpret e

/-- `total -= r_cnt`, at the end of the loop's body. -/
def advance (s : State) (count : ℕ) (e : Env) : State :=
  { s with total := s.total - count }.loopTest e

def storeFixnv (s : State) (bytes : List UInt8) (e : Env) : State :=
  let s := s.log (.memcpyFixnv s.fixnvBufferOffset bytes.length)
  match s.fixnvBuffer.write? s.fixnvBufferOffset.toNat bytes with
  | none => { s with control := .fault }
  | some buffer =>
      { s with
        fixnvBuffer := buffer
        fixnvBufferOffset := s.fixnvBufferOffset + UInt32.ofNat bytes.length
          }.advance bytes.length e

def storePhasecheck (s : State) (bytes : List UInt8) (e : Env) : State :=
  let s := s.log (.memcpyPhasecheck s.phasecheckBufferOffset bytes.length)
  match s.phasecheckBuffer.write? s.phasecheckBufferOffset.toNat bytes with
  | none => { s with control := .fault }
  | some buffer =>
      { s with
        phasecheckBuffer := buffer
        phasecheckBufferOffset := s.phasecheckBufferOffset + UInt32.ofNat bytes.length
          }.advance bytes.length e

/-- A `write` of `bytes` to the runtime NV file with result `ret`. -/
def writeRuntime (s : State) (bytes : List UInt8) (ret : Int) : State :=
  let accepted := bytes.take ret.toNat
  { s with
    runtimenv := writeAt 0 s.runtimenv s.runtimePos accepted
    runtimePos := s.runtimePos + accepted.length
    trace := .writeRuntime s.runtimePos accepted.length :: s.trace }

def writeRuntimeBackup (s : State) (bytes : List UInt8) (ret : Int) : State :=
  let accepted := bytes.take ret.toNat
  { s with
    runtimenvbkup := writeAt 0 s.runtimenvbkup s.runtimeBackupPos accepted
    runtimeBackupPos := s.runtimeBackupPos + accepted.length
    trace := .writeRuntime s.runtimeBackupPos accepted.length :: s.trace }

/-- A negative result of either `write` goes on with the loop: what has been read is
not subtracted from `total`. -/
def storeRuntime (s : State) (bytes : List UInt8) (e : Env) : State :=
  if e.writeRuntime < 0 then s
  else
    let s := s.writeRuntime bytes e.writeRuntime
    if e.writeRuntimeBackup < 0 then s
    else (s.writeRuntimeBackup bytes e.writeRuntimeBackup).advance bytes.length e

/-- What one `read` of the payload delivers: at most `DATA_BUF_LEN` bytes are asked for. -/
def chunk (s : State) (bytes : List UInt8) : List UInt8 :=
  bytes.take (min s.total.toNat DATA_BUF_LEN)

/-- The branches on `length` in the payload loop. -/
def store (s : State) (bytes : List UInt8) (e : Env) : State :=
  match s.length with
  | .runtime => s.storeRuntime bytes e
  | .fixnv => s.storeFixnv bytes e
  | .productinfo => s.storePhasecheck bytes e

/-- The body of the loop `while (total > 0)`. -/
def readPayload (s : State) (e : Env) : State :=
  match e.read with
  | none => s
  | some [] => s.reopenVbpipe e
  | some (b :: bytes) =>
      let bytes := s.chunk (b :: bytes)
      (s.log (.readPayload bytes)).store bytes e

def step (s : State) (e : Env) : State :=
  match s.control with
  | .header => s.readHeader e
  | .payload => s.readPayload e
  | .exited | .fault => s

/-! ## The `read` of a base image -/

theorem readBy_of_whole {n : ℕ} {file : List UInt8} {ret : Int} (hret : (n : Int) ≤ ret) :
    readBy n file ret = file.take n := by
  have hlen : (file.take n).length ≤ n := List.length_take_le n file
  exact List.take_of_length_le (by omega)

theorem readBy_of_le {n : ℕ} {file : List UInt8} {ret : Int} (hlen : file.length ≤ n)
    (hret : (n : Int) ≤ ret) : readBy n file ret = file := by
  rw [readBy_of_whole hret, List.take_of_length_le hlen]

/-! ## A turn that reads -/

theorem step_of_read {s : State} {e : Env} {bytes : List UInt8} (hcontrol : s.control = .header)
    (hread : e.read = some bytes) (hne : bytes ≠ []) :
    s.step e = (s.receive bytes).interpret e := by
  cases bytes with
  | nil => exact absurd rfl hne
  | cons b bytes =>
      rw [step, hcontrol]
      simp only [readHeader, hread]

theorem header_receive (s : State) {bytes : List UInt8} {h : RequestHeader}
    (hbytes : bytes.take headerSize = h.encode) : (s.receive bytes).header = h := by
  have hload : s.reqHeader.load bytes = s.reqHeader.load h.encode := by
    apply Buffer.ext
    rw [Buffer.load, Buffer.load, ← hbytes]
    simp only [List.take_take, Nat.min_self]
  rw [header, receive, hload]
  exact h.decode_load_encode s.reqHeader

theorem header_receive_encode (s : State) (h : RequestHeader) :
    (s.receive h.encode).header = h :=
  s.header_receive (by rw [← h.length_encode, List.take_length])

theorem step_of_payload {s : State} {e : Env} {bytes : List UInt8}
    (hcontrol : s.control = .payload) (hread : e.read = some bytes) (hne : bytes ≠ []) :
    s.step e = (s.log (.readPayload (s.chunk bytes))).store (s.chunk bytes) e := by
  cases bytes with
  | nil => exact absurd rfl hne
  | cons b bytes =>
      rw [step, hcontrol]
      simp only [readPayload, hread]

@[simp] theorem header_log (s : State) (a : Action) : (s.log a).header = s.header := rfl

@[simp] theorem length_log (s : State) (a : Action) : (s.log a).length = s.length := rfl

theorem interpret_of_sync {s : State} (hsync : s.header.reqType = 1) (e : Env) :
    s.interpret e = (s.log (.interpret s.header)).sync e := by
  simp only [interpret]
  rw [if_pos hsync]

theorem interpret_of_fixnv {s : State} (hsync : s.header.reqType ≠ 1)
    (htype : s.header.type = 0) (e : Env) :
    s.interpret e = (s.log (.interpret s.header)).openFixnv e := by
  simp only [interpret]
  rw [if_neg hsync, if_pos htype]

theorem interpret_of_runtime {s : State} (hsync : s.header.reqType ≠ 1)
    (htype : s.header.type = 1) (e : Env) :
    s.interpret e = (s.log (.interpret s.header)).openRuntime e := by
  have hne : s.header.type ≠ 0 := by
    rw [htype]
    decide
  simp only [interpret]
  rw [if_neg hsync, if_neg hne, if_pos htype]

theorem interpret_of_productinfo {s : State} (hsync : s.header.reqType ≠ 1)
    (htype : s.header.type = 2) (e : Env) :
    s.interpret e = (s.log (.interpret s.header)).openProductinfo e := by
  have hne : s.header.type ≠ 0 ∧ s.header.type ≠ 1 := by
    rw [htype]
    decide
  simp only [interpret]
  rw [if_neg hsync, if_neg hne.1, if_neg hne.2, if_pos htype]

/-! ## What a turn can do -/

theorem step_of_none {s : State} {e : Env} (hread : e.read = none) : s.step e = s := by
  rw [step]
  cases s.control with
  | header => simp only [readHeader, hread]
  | payload => simp only [readPayload, hread]
  | exited => rfl
  | fault => rfl

theorem step_of_reset {s : State} {e : Env} (hread : e.read = some [])
    (hcontrol : s.control = .header ∨ s.control = .payload) : s.step e = s.reopenVbpipe e := by
  rw [step]
  rcases hcontrol with hcontrol | hcontrol
  · simp only [hcontrol, readHeader, hread]
  · simp only [hcontrol, readPayload, hread]

theorem step_of_stopped {s : State} (hcontrol : s.control = .exited ∨ s.control = .fault)
    (e : Env) : s.step e = s := by
  rw [step]
  rcases hcontrol with hcontrol | hcontrol
  · rw [hcontrol]
  · rw [hcontrol]

/-- A turn does nothing, starts over, or handles what it has read. -/
theorem step_cases (s : State) (e : Env) :
    s.step e = s ∨
      (s.control = .header ∨ s.control = .payload) ∧ s.step e = s.reopenVbpipe e ∨
      (∃ bytes, s.control = .header ∧ e.read = some bytes ∧ bytes ≠ [] ∧
        s.step e = (s.receive bytes).interpret e) ∨
      ∃ bytes, s.control = .payload ∧ e.read = some bytes ∧ bytes ≠ [] ∧
        s.step e = (s.log (.readPayload (s.chunk bytes))).store (s.chunk bytes) e := by
  cases hread : e.read with
  | none => exact Or.inl (step_of_none hread)
  | some bytes =>
      cases hcontrol : s.control with
      | header =>
          by_cases hne : bytes = []
          · subst hne
            exact Or.inr (Or.inl ⟨Or.inl rfl, step_of_reset hread (Or.inl hcontrol)⟩)
          · exact Or.inr (Or.inr (Or.inl
              ⟨bytes, rfl, rfl, hne, step_of_read hcontrol hread hne⟩))
      | payload =>
          by_cases hne : bytes = []
          · subst hne
            exact Or.inr (Or.inl ⟨Or.inr rfl, step_of_reset hread (Or.inr hcontrol)⟩)
          · exact Or.inr (Or.inr (Or.inr
              ⟨bytes, rfl, rfl, hne, step_of_payload hcontrol hread hne⟩))
      | exited => exact Or.inl (step_of_stopped (Or.inl hcontrol) e)
      | fault => exact Or.inl (step_of_stopped (Or.inr hcontrol) e)

theorem interpret_cases (s : State) (e : Env) :
    s.header.reqType = 1 ∧ s.interpret e = (s.log (.interpret s.header)).sync e ∨
      s.header.reqType ≠ 1 ∧
        (s.header.type = 0 ∧ s.interpret e = (s.log (.interpret s.header)).openFixnv e ∨
          s.header.type = 1 ∧ s.interpret e = (s.log (.interpret s.header)).openRuntime e ∨
          s.header.type = 2 ∧ s.interpret e = (s.log (.interpret s.header)).openProductinfo e ∨
          s.interpret e = s.log (.interpret s.header)) := by
  by_cases hsync : s.header.reqType = 1
  · exact Or.inl ⟨hsync, interpret_of_sync hsync e⟩
  · refine Or.inr ⟨hsync, ?_⟩
    by_cases hfixnv : s.header.type = 0
    · exact Or.inl ⟨hfixnv, interpret_of_fixnv hsync hfixnv e⟩
    · by_cases hruntime : s.header.type = 1
      · exact Or.inr (Or.inl ⟨hruntime, interpret_of_runtime hsync hruntime e⟩)
      · by_cases hproduct : s.header.type = 2
        · exact Or.inr (Or.inr (Or.inl ⟨hproduct, interpret_of_productinfo hsync hproduct e⟩))
        · refine Or.inr (Or.inr (Or.inr ?_))
          simp only [interpret]
          rw [if_neg hsync, if_neg hfixnv, if_neg hruntime, if_neg hproduct]

theorem store_cases (s : State) (bytes : List UInt8) (e : Env) :
    s.length = .runtime ∧ s.store bytes e = s.storeRuntime bytes e ∨
      s.length = .fixnv ∧ s.store bytes e = s.storeFixnv bytes e ∨
      s.length = .productinfo ∧ s.store bytes e = s.storePhasecheck bytes e := by
  rw [store]
  cases s.length with
  | runtime => exact Or.inl ⟨rfl, rfl⟩
  | fixnv => exact Or.inr (Or.inl ⟨rfl, rfl⟩)
  | productinfo => exact Or.inr (Or.inr ⟨rfl, rfl⟩)

theorem complete_cases (s : State) (e : Env) :
    s.length = .runtime ∧ s.complete e = { s with control := .header }.log .runtimeDone ∨
      s.length = .fixnv ∧ s.complete e =
        { s with control := .header, updateFinxnFlag := true }.updateFixnvfile e.fixnv ∨
      s.length = .productinfo ∧ s.complete e =
        { s with control := .header }.updateProductinfofile e.productinfo e.productinfobkup := by
  rw [complete]
  cases s.length with
  | runtime => exact Or.inl ⟨rfl, rfl⟩
  | fixnv => exact Or.inr (Or.inl ⟨rfl, rfl⟩)
  | productinfo => exact Or.inr (Or.inr ⟨rfl, rfl⟩)

theorem loopTest_of_pos {s : State} (h : 0 < s.total) (e : Env) :
    s.loopTest e = { s with control := .payload } := if_pos h

theorem loopTest_of_nonpos {s : State} (h : s.total ≤ 0) (e : Env) :
    s.loopTest e = s.complete e := if_neg (Int.not_lt.mpr h)

theorem loopTest_cases (s : State) (e : Env) :
    0 < s.total ∧ s.loopTest e = { s with control := .payload } ∨
      s.total ≤ 0 ∧ s.loopTest e = s.complete e := by
  by_cases hpos : 0 < s.total
  · exact Or.inl ⟨hpos, loopTest_of_pos hpos e⟩
  · exact Or.inr ⟨Int.not_lt.mp hpos, loopTest_of_nonpos (Int.not_lt.mp hpos) e⟩

theorem openFixnv_cases (s : State) (e : Env) :
    (∃ buffer, s.openFixnv e = { s with fixnvBuffer := buffer }.exit) ∨
      ∃ indexvalue, s.openFixnv e =
        { s with
          fixnvBuffer := (Buffer.fill (FIXNV_SIZE + 4) 0xFF).load
            (readBy (FIXNV_SIZE + 4) s.fixnv e.readBase)
          length := .fixnv
          indexvalue
          fixnvBufferOffset := s.header.offset
          total := s.header.total
          trace := .loadFixnv (readBy (FIXNV_SIZE + 4) s.fixnv e.readBase).length ::
            s.trace }.loopTest e := by
  cases hopen : e.openFile with
  | false =>
      refine Or.inl ⟨Buffer.fill (FIXNV_SIZE + 4) 0xFF, ?_⟩
      simp only [openFixnv, hopen, Bool.not_false, if_true]
  | true =>
      right
      simp only [openFixnv, hopen, Bool.not_true, Bool.false_eq_true, if_false]
      exact ⟨_, rfl⟩

theorem openRuntime_cases (s : State) (e : Env) :
    s.openRuntime e = s.exit ∨
      s.openRuntime e =
        { s with
          length := .runtime
          runtimePos := lseek s.header.offset
          trace := .seekRuntime s.header.offset :: s.trace }.exit ∨
      s.openRuntime e =
        { s with
          length := .runtime
          runtimePos := lseek s.header.offset
          runtimeBackupPos := lseek s.header.offset
          total := s.header.total
          trace := .seekRuntime s.header.offset :: .seekRuntime s.header.offset ::
            s.trace }.loopTest e := by
  cases hopen : e.openFile with
  | false =>
      left
      simp only [openRuntime, hopen, Bool.not_false, if_true]
  | true =>
      right
      cases hbackup : e.openBackup with
      | false =>
          left
          simp only [openRuntime, hopen, hbackup, Bool.not_true, Bool.not_false, if_true,
            Bool.false_eq_true, if_false]
      | true =>
          right
          simp only [openRuntime, hopen, hbackup, Bool.not_true, Bool.false_eq_true, if_false]
          rfl

theorem openProductinfo_cases (s : State) (e : Env) :
    (∃ buffer, s.openProductinfo e = { s with phasecheckBuffer := buffer }.exit) ∨
      ∃ indexvalue, s.openProductinfo e =
        { s with
          phasecheckBuffer := (Buffer.fill (PRODUCTINFO_SIZE + 8) 0xFF).load
            (readBy (PRODUCTINFO_SIZE + 4) s.productinfo e.readBase)
          length := .productinfo
          indexvalue
          phasecheckBufferOffset := s.header.offset
          total := s.header.total
          trace := .loadPhasecheck (readBy (PRODUCTINFO_SIZE + 4) s.productinfo
            e.readBase).length :: s.trace }.loopTest e := by
  cases hopen : e.openFile with
  | false =>
      refine Or.inl ⟨Buffer.fill (PRODUCTINFO_SIZE + 8) 0xFF, ?_⟩
      simp only [openProductinfo, hopen, Bool.not_false, if_true]
  | true =>
      right
      simp only [openProductinfo, hopen, Bool.not_true, Bool.false_eq_true, if_false]
      exact ⟨_, rfl⟩

theorem storeFixnv_cases (s : State) (bytes : List UInt8) (e : Env) :
    s.storeFixnv bytes e =
        { s.log (.memcpyFixnv s.fixnvBufferOffset bytes.length) with control := .fault } ∨
      ∃ buffer, s.fixnvBuffer.write? s.fixnvBufferOffset.toNat bytes = some buffer ∧
        s.storeFixnv bytes e =
          { s.log (.memcpyFixnv s.fixnvBufferOffset bytes.length) with
            fixnvBuffer := buffer
            fixnvBufferOffset := s.fixnvBufferOffset + UInt32.ofNat bytes.length
              }.advance bytes.length e := by
  cases hwrite : s.fixnvBuffer.write? s.fixnvBufferOffset.toNat bytes with
  | none =>
      left
      simp only [storeFixnv, log, hwrite]
  | some buffer =>
      refine Or.inr ⟨buffer, rfl, ?_⟩
      simp only [storeFixnv, log, hwrite]

theorem storePhasecheck_cases (s : State) (bytes : List UInt8) (e : Env) :
    s.storePhasecheck bytes e =
        { s.log (.memcpyPhasecheck s.phasecheckBufferOffset bytes.length) with
          control := .fault } ∨
      ∃ buffer, s.phasecheckBuffer.write? s.phasecheckBufferOffset.toNat bytes = some buffer ∧
        s.storePhasecheck bytes e =
          { s.log (.memcpyPhasecheck s.phasecheckBufferOffset bytes.length) with
            phasecheckBuffer := buffer
            phasecheckBufferOffset := s.phasecheckBufferOffset + UInt32.ofNat bytes.length
              }.advance bytes.length e := by
  cases hwrite : s.phasecheckBuffer.write? s.phasecheckBufferOffset.toNat bytes with
  | none =>
      left
      simp only [storePhasecheck, log, hwrite]
  | some buffer =>
      refine Or.inr ⟨buffer, rfl, ?_⟩
      simp only [storePhasecheck, log, hwrite]

theorem storeRuntime_of_nonneg {s : State} {e : Env} (hwrite : 0 ≤ e.writeRuntime)
    (hbackup : 0 ≤ e.writeRuntimeBackup) (bytes : List UInt8) :
    s.storeRuntime bytes e = ((s.writeRuntime bytes e.writeRuntime).writeRuntimeBackup bytes
      e.writeRuntimeBackup).advance bytes.length e := by
  rw [storeRuntime, if_neg (Int.not_lt.mpr hwrite)]
  exact if_neg (Int.not_lt.mpr hbackup)

theorem storeRuntime_cases (s : State) (bytes : List UInt8) (e : Env) :
    s.storeRuntime bytes e = s ∨ s.storeRuntime bytes e = s.writeRuntime bytes e.writeRuntime ∨
      s.storeRuntime bytes e = ((s.writeRuntime bytes e.writeRuntime).writeRuntimeBackup bytes
        e.writeRuntimeBackup).advance bytes.length e := by
  by_cases hwrite : e.writeRuntime < 0
  · exact Or.inl (if_pos hwrite)
  · by_cases hbackup : e.writeRuntimeBackup < 0
    · refine Or.inr (Or.inl ?_)
      rw [storeRuntime, if_neg hwrite]
      exact if_pos hbackup
    · exact Or.inr (Or.inr
        (storeRuntime_of_nonneg (Int.not_lt.mp hwrite) (Int.not_lt.mp hbackup) bytes))

/-! ## The end of a turn -/

theorem trace_suffix_complete (s : State) (e : Env) : s.trace <:+ (s.complete e).trace := by
  rcases s.complete_cases e with ⟨-, h⟩ | ⟨-, h⟩ | ⟨-, h⟩
  · rw [h]
    exact List.suffix_cons _ _
  · rw [h]
    exact List.suffix_cons _ _
  · rw [h]
    exact List.suffix_rfl

theorem trace_suffix_loopTest (s : State) (e : Env) : s.trace <:+ (s.loopTest e).trace := by
  rcases s.loopTest_cases e with ⟨-, h⟩ | ⟨-, h⟩
  · rw [h]
  · rw [h]
    exact s.trace_suffix_complete e

theorem trace_suffix_advance (s : State) (count : ℕ) (e : Env) :
    s.trace <:+ (s.advance count e).trace :=
  trace_suffix_loopTest { s with total := s.total - count } e

theorem length_complete (s : State) (e : Env) : (s.complete e).length = s.length := by
  rcases s.complete_cases e with ⟨-, h⟩ | ⟨-, h⟩ | ⟨-, h⟩
  · rw [h]
    rfl
  · rw [h]
    rfl
  · rw [h]
    rfl

theorem length_loopTest (s : State) (e : Env) : (s.loopTest e).length = s.length := by
  rcases s.loopTest_cases e with ⟨-, h⟩ | ⟨-, h⟩
  · rw [h]
  · rw [h]
    exact s.length_complete e

theorem control_complete (s : State) (e : Env) : (s.complete e).control = .header := by
  rcases s.complete_cases e with ⟨-, h⟩ | ⟨-, h⟩ | ⟨-, h⟩
  · rw [h]
    rfl
  · rw [h]
    rfl
  · rw [h]
    rfl

theorem control_sync (s : State) (e : Env) : (s.sync e).control = s.control := by
  simp only [sync]
  split_ifs
  · rfl
  · rfl

theorem advance_of_lt {s : State} {count : ℕ} (h : (count : Int) < s.total) (e : Env) :
    s.advance count e = { s with total := s.total - count, control := .payload } := by
  have hpos : 0 < { s with total := s.total - count }.total := Int.sub_pos.mpr h
  exact loopTest_of_pos hpos e

theorem length_chunk_le (s : State) (htotal : 0 ≤ s.total) (bytes : List UInt8) :
    ((s.chunk bytes).length : Int) ≤ s.total := by
  rw [chunk, List.length_take]
  omega

/-! ## The start of a payload -/

theorem openFixnv_payload {s : State} {e : Env} (hopen : e.openFile = true)
    (hpos : 0 < s.header.total) :
    (s.openFixnv e).control = .payload ∧ (s.openFixnv e).length = .fixnv ∧
      (s.openFixnv e).total = s.header.total ∧
        (s.openFixnv e).fixnvBufferOffset = s.header.offset := by
  simp only [openFixnv, hopen, Bool.not_true, Bool.false_eq_true, if_false]
  rw [loopTest_of_pos]
  · exact ⟨rfl, rfl, rfl, rfl⟩
  · exact hpos

theorem openRuntime_payload {s : State} {e : Env} (hopen : e.openFile = true)
    (hbackup : e.openBackup = true) (hpos : 0 < s.header.total) :
    (s.openRuntime e).control = .payload ∧ (s.openRuntime e).length = .runtime ∧
      (s.openRuntime e).total = s.header.total ∧
        (s.openRuntime e).runtimePos = lseek s.header.offset := by
  simp only [openRuntime, hopen, hbackup, Bool.not_true, Bool.false_eq_true, if_false]
  rw [loopTest_of_pos]
  · exact ⟨rfl, rfl, rfl, rfl⟩
  · exact hpos

theorem openProductinfo_payload {s : State} {e : Env} (hopen : e.openFile = true)
    (hpos : 0 < s.header.total) :
    (s.openProductinfo e).control = .payload ∧ (s.openProductinfo e).length = .productinfo ∧
      (s.openProductinfo e).total = s.header.total ∧
        (s.openProductinfo e).phasecheckBufferOffset = s.header.offset := by
  simp only [openProductinfo, hopen, Bool.not_true, Bool.false_eq_true, if_false]
  rw [loopTest_of_pos]
  · exact ⟨rfl, rfl, rfl, rfl⟩
  · exact hpos

theorem trace_suffix_openRuntime {s : State} {e : Env} (hopen : e.openFile = true) :
    .seekRuntime s.header.offset :: s.trace <:+ (s.openRuntime e).trace := by
  simp only [openRuntime, hopen, Bool.not_true, Bool.false_eq_true, if_false]
  split
  · exact List.suffix_rfl
  · refine List.IsSuffix.trans ?_ (trace_suffix_loopTest _ _)
    exact List.suffix_cons _ _

theorem trace_suffix_storeFixnv (s : State) (bytes : List UInt8) (e : Env) :
    .memcpyFixnv s.fixnvBufferOffset bytes.length :: s.trace <:+
      (s.storeFixnv bytes e).trace := by
  rcases s.storeFixnv_cases bytes e with h | ⟨buffer, -, h⟩
  · rw [h]
    exact List.suffix_rfl
  · rw [h]
    refine List.IsSuffix.trans ?_ (trace_suffix_advance _ _ _)
    exact List.suffix_rfl

theorem trace_suffix_storePhasecheck (s : State) (bytes : List UInt8) (e : Env) :
    .memcpyPhasecheck s.phasecheckBufferOffset bytes.length :: s.trace <:+
      (s.storePhasecheck bytes e).trace := by
  rcases s.storePhasecheck_cases bytes e with h | ⟨buffer, -, h⟩
  · rw [h]
    exact List.suffix_rfl
  · rw [h]
    refine List.IsSuffix.trans ?_ (trace_suffix_advance _ _ _)
    exact List.suffix_rfl

theorem storeFixnv_of_lt {s : State} {bytes : List UInt8}
    (hfits : s.fixnvBufferOffset.toNat + bytes.length ≤ FIXNV_SIZE + 4)
    (hlt : (bytes.length : Int) < s.total) (e : Env) :
    s.storeFixnv bytes e =
      { s with
        control := .payload
        total := s.total - bytes.length
        fixnvBuffer := s.fixnvBuffer.write s.fixnvBufferOffset.toNat bytes hfits
        fixnvBufferOffset := s.fixnvBufferOffset + UInt32.ofNat bytes.length
        trace := .memcpyFixnv s.fixnvBufferOffset bytes.length :: s.trace } := by
  have hwrite : s.fixnvBuffer.write? s.fixnvBufferOffset.toNat bytes =
      some (s.fixnvBuffer.write s.fixnvBufferOffset.toNat bytes hfits) := dif_pos hfits
  simp only [storeFixnv, log, hwrite]
  rw [advance_of_lt]
  exact hlt

theorem storePhasecheck_of_lt {s : State} {bytes : List UInt8}
    (hfits : s.phasecheckBufferOffset.toNat + bytes.length ≤ PRODUCTINFO_SIZE + 8)
    (hlt : (bytes.length : Int) < s.total) (e : Env) :
    s.storePhasecheck bytes e =
      { s with
        control := .payload
        total := s.total - bytes.length
        phasecheckBuffer := s.phasecheckBuffer.write s.phasecheckBufferOffset.toNat bytes hfits
        phasecheckBufferOffset := s.phasecheckBufferOffset + UInt32.ofNat bytes.length
        trace := .memcpyPhasecheck s.phasecheckBufferOffset bytes.length :: s.trace } := by
  have hwrite : s.phasecheckBuffer.write? s.phasecheckBufferOffset.toNat bytes =
      some (s.phasecheckBuffer.write s.phasecheckBufferOffset.toNat bytes hfits) := dif_pos hfits
  simp only [storePhasecheck, log, hwrite]
  rw [advance_of_lt]
  exact hlt

/-- What the daemon finds when it starts: the bytes of its uninitialised header
variable, and the files. -/
structure Boot where
  reqHeader : Buffer UInt8 headerSize
  fixnv : List UInt8
  backupfixnv : List UInt8
  runtimenv : List UInt8
  runtimenvbkup : List UInt8
  productinfo : List UInt8
  productinfobkup : List UInt8

/-- The daemon before its first `read`. -/
def init (b : Boot) : State where
  control := .header
  reqHeader := b.reqHeader
  total := 0
  length := .fixnv
  indexvalue := 0
  fixnvBuffer := Buffer.fill _ 0
  fixnvBufferOffset := 0
  phasecheckBuffer := Buffer.fill _ 0
  phasecheckBufferOffset := 0
  updateFinxnFlag := false
  fixnv := b.fixnv
  backupfixnv := b.backupfixnv
  runtimenv := b.runtimenv
  runtimenvbkup := b.runtimenvbkup
  productinfo := b.productinfo
  productinfobkup := b.productinfobkup
  runtimePos := 0
  runtimeBackupPos := 0
  trace := []

def Boot.empty : Boot := ⟨Buffer.fill _ 0, [], [], [], [], [], []⟩

end State

/-- A turn whose `read` delivers `bytes` and in which every other call does all it is
asked to do. -/
def Env.reads (bytes : List UInt8) : Env where
  read := some bytes
  reopen := true
  openFile := true
  readBase := (FIXNV_SIZE + 4 : ℕ)
  openBackup := true
  writeRuntime := bytes.length
  writeRuntimeBackup := bytes.length
  fixnv := some (FIXNV_SIZE + 4 : ℕ)
  backupfixnv := some (FIXNV_SIZE + 4 : ℕ)
  productinfo := some (PRODUCTINFO_SIZE + 4 : ℕ)
  productinfobkup := some (PRODUCTINFO_SIZE + 4 : ℕ)

end NvmDaemon

end Tarako
