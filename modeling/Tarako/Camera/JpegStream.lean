import Mathlib.Algebra.Group.Nat.Defs
import Tarako.Lib.Memory
import Tarako.Lib.WriteBehind

/-!
# The write stream of the JPEG library

The write functions of `jpeg_stream.c`: bytes go into a buffer, which is written to a file
through a callback when it is full or when the position leaves it. A pointer into the buffer
is its offset.

The stream behaves like the file, written directly, in every run in which it is flushed only
when what lies before the pointer is exactly what has been stored since the last flush, and
in which no value or block is begun that the rest of the buffer holds in part only.
-/

namespace Tarako

namespace JpegStream

open WriteBehind

/-- A file, by the bytes at its positions. -/
abbrev Contents : Type := ℕ → Option UInt8

/-- `JINF_WRITE_FILE_FUNC`, from the buffer, the offset and the number of bytes, with the
number of bytes written; what it returns is not looked at. -/
abbrev WriteFileFunc : Type := Memory → UInt32 → UInt32 → Contents → Contents × UInt32

def bytes (buf : Memory) (n : ℕ) : List UInt8 := (List.range n).map buf

/-- The callback writes everything. -/
def WriteFileFunc.WritesAll (func : WriteFileFunc) : Prop :=
  ∀ buf offset size file,
    func buf offset size file = (write file offset.toNat (bytes buf size.toNat), size)

/-- `JPEG_WRITE_STREAM_CONTEXT_T` with the file. Nothing reads `stored`, the places stored
into since the last flush. -/
structure Stream where
  writeBuf : Memory
  writeBufSize : UInt32
  writePtr : Option ℕ
  writeFileFunc : Option WriteFileFunc
  writeFileSize : UInt32
  file : Contents
  stored : Finset ℕ

namespace Stream

def offset (s : Stream) : ℕ := s.writePtr.getD 0

def writeStreamToFile (s : Stream) : Bool × Stream :=
  match s.writeFileFunc with
  | none => (false, s)
  | some func =>
      let writeSize : UInt32 := .ofNat s.offset
      let (file, actual) := func s.writeBuf s.writeFileSize writeSize s.file
      (actual == writeSize,
        { s with
          writePtr := some 0
          writeFileSize := s.writeFileSize + actual
          file
          stored := ∅ })

/-- The position is before the file part of the buffer or behind it. -/
def Leaves (s : Stream) (offset : UInt32) : Prop :=
  offset < s.writeFileSize ∨ s.writeFileSize + s.writeBufSize ≤ offset

instance (s : Stream) (offset : UInt32) : Decidable (s.Leaves offset) :=
  inferInstanceAs (Decidable (_ ∨ _))

def setWritePos (offset : UInt32) (s : Stream) : Bool × Stream :=
  if s.writeFileFunc.isSome then
    if s.Leaves offset then
      let (done, s) := s.writeStreamToFile
      if done then (true, { s with writePtr := some 0, writeFileSize := offset })
      else (false, s)
    else (true, { s with writePtr := some (offset - s.writeFileSize).toNat })
  else if s.writeBufSize < offset then (false, s)
  else (true, { s with writePtr := some offset.toNat })

def getWritePos (s : Stream) : UInt32 :=
  let writePos : UInt32 := if s.offset ≤ s.writeBufSize.toNat then .ofNat s.offset else 0
  if s.writeFileFunc.isSome then writePos + s.writeFileSize else writePos

/-- `*context_ptr->write_ptr++ = c`. -/
def put (c : UInt8) (s : Stream) : Stream :=
  { s with
    writeBuf := Function.update s.writeBuf s.offset c
    writePtr := some (s.offset + 1)
    stored := insert s.offset s.stored }

/-- `Jpeg_WriteC`: the test behind the flush is of the pointer from before it. -/
def writeC (c : UInt8) (s : Stream) : Bool × Stream :=
  let s := { s with writePtr := some s.offset }
  let ptr := s.offset
  let (done, s) := if s.writeBufSize.toNat ≤ ptr then s.writeStreamToFile else (true, s)
  if done then
    if s.writeBufSize.toNat < ptr + 1 then (false, s) else (true, s.put c)
  else (false, s)

def writeW (w : UInt16) (s : Stream) : Bool × Stream :=
  let (done, s) := s.writeC (w >>> 8).toUInt8
  if done then s.writeC w.toUInt8 else (false, s)

def writeL (l : UInt32) (s : Stream) : Bool × Stream :=
  if s.writePtr = none ∨ s.writeBufSize.toNat < s.offset + 4 then (false, s)
  else
    (true, (((s.put (l >>> 24).toUInt8).put (l >>> 16).toUInt8).put (l >>> 8).toUInt8).put
      l.toUInt8)

/-- The loop of `Jpeg_WriteBlock`. -/
def writeEach : List UInt8 → Stream → Bool × Stream
  | [], s => (true, s)
  | c :: block, s =>
      let (done, s) := s.writeC c
      if done then writeEach block s else (false, s)

/-- `Jpeg_WriteBlock`, with `none` for a block pointer that is `NULL`. -/
def writeBlock (block : Option (List UInt8)) (s : Stream) : Bool × Stream :=
  match s.writePtr, block with
  | some _, some block => s.writeEach block
  | _, _ => (false, s)

end Stream

/-! ## Runs -/

/-- A call of the stream's interface. -/
inductive Call
  | writeC (c : UInt8)
  | writeW (w : UInt16)
  | writeL (l : UInt32)
  | writeBlock (block : Option (List UInt8))
  | setWritePos (offset : UInt32)
  | getWritePos

/-- What a call returns. -/
inductive Answer
  | done (b : Bool)
  | pos (p : UInt32)

def Call.step (s : Stream) : Call → Answer × Stream
  | .writeC c => (s.writeC c).map .done id
  | .writeW w => (s.writeW w).map .done id
  | .writeL l => (s.writeL l).map .done id
  | .writeBlock block => (s.writeBlock block).map .done id
  | .setWritePos offset => (s.setWritePos offset).map .done id
  | .getWritePos => (.pos s.getWritePos, s)

def run (s : Stream) : List Call → List Answer × Stream
  | [] => ([], s)
  | call :: calls =>
      let (answer, s) := call.step s
      let (answers, s) := run s calls
      (answer :: answers, s)

/-! ## The file, written directly -/

/-- A file with a position. -/
structure RandomAccess where
  contents : Contents
  pos : ℕ

def RandomAccess.write (f : RandomAccess) (d : List UInt8) : RandomAccess :=
  ⟨WriteBehind.write f.contents f.pos d, f.pos + d.length⟩

def Call.data : Call → Option (List UInt8)
  | .writeC c => some [c]
  | .writeW w => some [(w >>> 8).toUInt8, w.toUInt8]
  | .writeL l =>
      some [(l >>> 24).toUInt8, (l >>> 16).toUInt8, (l >>> 8).toUInt8, l.toUInt8]
  | .writeBlock block => some (block.getD [])
  | .setWritePos _ => none
  | .getWritePos => none

/-- What a call may do to the file: a write is done in whole, or refused without effect. -/
inductive Effect : Call → Answer → RandomAccess → RandomAccess → Prop
  | written {call : Call} {d : List UInt8} {f : RandomAccess} (h : call.data = some d) :
      Effect call (.done true) f (f.write d)
  | refused {call : Call} {d : List UInt8} {f : RandomAccess} (h : call.data = some d) :
      Effect call (.done false) f f
  | moved {offset : UInt32} {f : RandomAccess} :
      Effect (.setWritePos offset) (.done true) f ⟨f.contents, offset.toNat⟩
  | told {p : UInt32} {f : RandomAccess} (h : p.toNat = f.pos) :
      Effect .getWritePos (.pos p) f f

/-- A run of calls on the file. -/
inductive Effects : List Call → List Answer → RandomAccess → RandomAccess → Prop
  | nil {f : RandomAccess} : Effects [] [] f f
  | cons {call : Call} {calls : List Call} {answer : Answer} {answers : List Answer}
      {f g k : RandomAccess} (h : Effect call answer f g) (hrest : Effects calls answers g k) :
      Effects (call :: calls) (answer :: answers) f k

/-! ## The condition -/

def Stream.room (s : Stream) : ℕ := s.writeBufSize.toNat - s.offset

/-- What a flush would write is what has been stored since the last one. -/
def Stream.Flushable (s : Stream) : Prop := s.stored = Finset.range s.offset

instance (s : Stream) : Decidable s.Flushable := inferInstanceAs (Decidable (_ = _))

def Call.Flushes (s : Stream) : Call → Prop
  | .writeC _ => s.room = 0
  | .writeW _ => s.room = 0
  | .writeL _ => False
  | .writeBlock block => s.writePtr ≠ none ∧ (∃ d ∈ block, d ≠ []) ∧ s.room = 0
  | .setWritePos offset => s.Leaves offset
  | .getWritePos => False

/-- The call begins a write that it cannot end in the buffer. -/
def Call.Splits (s : Stream) : Call → Prop
  | .writeW _ => s.room = 1
  | .writeBlock block => s.writePtr ≠ none ∧ ∃ d ∈ block, 0 < s.room ∧ s.room < d.length
  | _ => False

/-- The call is within the condition: it flushes only what is `Flushable`, splits no write,
and what it writes ends before position `2 ^ 32`. -/
structure Call.Meets (s : Stream) (call : Call) : Prop where
  flushable : call.Flushes s → s.Flushable
  whole : ¬ call.Splits s
  inRange : ∀ d ∈ call.data, d.length ≤ s.room →
    s.writeFileSize.toNat + s.offset + d.length < 2 ^ 32

/-- Every call of a run is within the condition. -/
def Meets (s : Stream) : List Call → Prop
  | [] => True
  | call :: calls => call.Meets s ∧ Meets (call.step s).2 calls

/-! ## The stream refines the file -/

/-- The file holds what the stream's file and the stored bytes of its buffer make. -/
structure Refines (s : Stream) (f : RandomAccess) : Prop where
  func : ∃ func, s.writeFileFunc = some func ∧ func.WritesAll
  offset_le : s.offset ≤ s.writeBufSize.toNat
  pos : f.pos = s.writeFileSize.toNat + s.offset
  pos_lt : f.pos < 2 ^ 32
  contents : f.contents = overlay s.file s.writeFileSize.toNat s.stored s.writeBuf

def Stream.flushed (s : Stream) : Stream :=
  { s with
    writePtr := some 0
    writeFileSize := s.writeFileSize + .ofNat s.offset
    file := WriteBehind.write s.file s.writeFileSize.toNat (bytes s.writeBuf s.offset)
    stored := ∅ }

section Step

variable {s : Stream} {f : RandomAccess}

@[simp] theorem write_nil (f : RandomAccess) : f.write [] = f := rfl

theorem write_cons (f : RandomAccess) (c : UInt8) (d : List UInt8) :
    f.write (c :: d) = (f.write [c]).write d := by
  unfold RandomAccess.write
  rw [WriteBehind.write_cons, List.length_cons, List.length_singleton, Nat.add_assoc,
    Nat.add_comm 1]

/-! ### Flushes -/

theorem Refines.toNat_offset (h : Refines s f) : (UInt32.ofNat s.offset).toNat = s.offset := by
  have hsize := s.writeBufSize.toNat_lt
  have hle := h.offset_le
  rw [UInt32.toNat_ofNat', Nat.mod_eq_of_lt (by omega)]

theorem Refines.toNat_pos (h : Refines s f) :
    (s.writeFileSize + .ofNat s.offset).toNat = s.writeFileSize.toNat + s.offset := by
  have hlt := h.pos_lt
  rw [h.pos] at hlt
  rw [UInt32.toNat_add, h.toNat_offset, Nat.mod_eq_of_lt hlt]

theorem Refines.writeStreamToFile (h : Refines s f) :
    s.writeStreamToFile = (true, s.flushed) := by
  obtain ⟨func, hfunc, hall⟩ := h.func
  have hcall := hall s.writeBuf s.writeFileSize (.ofNat s.offset) s.file
  rw [h.toNat_offset] at hcall
  unfold Stream.writeStreamToFile Stream.flushed
  rw [hfunc]
  dsimp only
  rw [hcall, beq_self_eq_true]

theorem Refines.flushed (h : Refines s f) (hflush : s.Flushable) : Refines s.flushed f := by
  refine ⟨h.func, Nat.zero_le _, ?_, h.pos_lt, ?_⟩
  · rw [h.pos, ← h.toNat_pos]
    rfl
  · rw [h.contents, hflush, overlay_range]
    exact (overlay_empty _ _ _).symm

/-! ### Single bytes -/

theorem Refines.put (h : Refines s f) (hroom : 0 < s.room) (hlt : f.pos + 1 < 2 ^ 32)
    (c : UInt8) : Refines (s.put c) (f.write [c]) := by
  unfold Stream.room at hroom
  refine ⟨h.func, ?_, ?_, hlt, ?_⟩
  · change s.offset + 1 ≤ s.writeBufSize.toNat
    omega
  · change f.pos + 1 = s.writeFileSize.toNat + (s.offset + 1)
    rw [h.pos, Nat.add_assoc]
  · change WriteBehind.write f.contents f.pos [c] = _
    rw [h.contents, h.pos]
    exact (overlay_insert _ _ _ _ _ _).symm

theorem room_put (s : Stream) (c : UInt8) : (s.put c).room = s.room - 1 :=
  (Nat.sub_sub _ _ 1).symm

theorem writeC_of_room (hroom : 0 < s.room) (c : UInt8) : s.writeC c = (true, s.put c) := by
  unfold Stream.room at hroom
  unfold Stream.writeC
  dsimp only
  rw [show ({ s with writePtr := some s.offset } : Stream).offset = s.offset from rfl,
    if_neg (show ¬ s.writeBufSize.toNat ≤ s.offset by omega), if_pos rfl,
    if_neg (show ¬ s.writeBufSize.toNat < s.offset + 1 by omega)]
  rfl

theorem Refines.writeC_of_full (h : Refines s f) (hroom : s.room = 0) (c : UInt8) :
    s.writeC c = (false, s.flushed) := by
  unfold Stream.room at hroom
  have hptr : Refines { s with writePtr := some s.offset } f :=
    ⟨h.func, h.offset_le, h.pos, h.pos_lt, h.contents⟩
  unfold Stream.writeC
  dsimp only
  rw [show ({ s with writePtr := some s.offset } : Stream).offset = s.offset from rfl,
    if_pos (show s.writeBufSize.toNat ≤ s.offset by omega), hptr.writeStreamToFile, if_pos rfl]
  exact if_pos (show s.writeBufSize.toNat < s.offset + 1 by omega)

/-! ### Several bytes -/

theorem Refines.writeEach (h : Refines s f) {d : List UInt8} (hlen : d.length ≤ s.room)
    (hlt : f.pos + d.length < 2 ^ 32) :
    ∃ s', s.writeEach d = (true, s') ∧ Refines s' (f.write d) := by
  induction d generalizing s f with
  | nil => exact ⟨s, rfl, h⟩
  | cons c d ih =>
      rw [List.length_cons] at hlen hlt
      have hput := h.put (by omega) (by omega) c
      obtain ⟨s', hrun, hs'⟩ := ih hput (by rw [room_put]; omega)
        (by change f.pos + 1 + d.length < 2 ^ 32; omega)
      refine ⟨s', ?_, ?_⟩
      · rw [Stream.writeEach, writeC_of_room (by omega)]
        exact hrun
      · rwa [write_cons]

/-- A write done in whole, or refused without effect. -/
def Whole (d : List UInt8) (f : RandomAccess) (r : Bool × Stream) : Prop :=
  r.1 = true ∧ Refines r.2 (f.write d) ∨ r.1 = false ∧ Refines r.2 f

theorem Whole.effect {call : Call} {d : List UInt8} {r : Bool × Stream} (h : Whole d f r)
    (hdata : call.data = some d) (hstep : call.step s = (.done r.1, r.2)) :
    ∃ g, Effect call (call.step s).1 f g ∧ Refines (call.step s).2 g := by
  rw [hstep]
  rcases h with ⟨hdone, hr⟩ | ⟨hdone, hr⟩
  · rw [hdone]
    exact ⟨_, .written hdata, hr⟩
  · rw [hdone]
    exact ⟨_, .refused hdata, hr⟩

/-- A write by single bytes, of all that the buffer takes or of none. -/
theorem Refines.whole_writeEach (h : Refines s f) {d : List UInt8}
    (hflush : d ≠ [] ∧ s.room = 0 → s.Flushable) (hwhole : ¬ (0 < s.room ∧ s.room < d.length))
    (hlt : d.length ≤ s.room → f.pos + d.length < 2 ^ 32) : Whole d f (s.writeEach d) := by
  by_cases hlen : d.length ≤ s.room
  · obtain ⟨s', hrun, hs'⟩ := h.writeEach hlen (hlt hlen)
    rw [hrun]
    exact .inl ⟨rfl, hs'⟩
  · have hroom : s.room = 0 := by omega
    cases d with
    | nil => exact absurd (Nat.zero_le _) hlen
    | cons c d =>
        rw [Stream.writeEach, h.writeC_of_full hroom]
        exact .inr ⟨rfl, h.flushed (hflush ⟨List.cons_ne_nil _ _, hroom⟩)⟩

theorem writeEach_singleton (s : Stream) (c : UInt8) : s.writeEach [c] = s.writeC c := by
  rw [Stream.writeEach]
  rcases s.writeC c with ⟨done, s'⟩
  cases done <;> rfl

theorem writeW_eq (s : Stream) (w : UInt16) :
    s.writeW w = s.writeEach [(w >>> 8).toUInt8, w.toUInt8] := by
  rw [Stream.writeEach, Stream.writeW]
  rcases s.writeC (w >>> 8).toUInt8 with ⟨done, s'⟩
  dsimp only
  rw [writeEach_singleton]

theorem Refines.whole_writeL (h : Refines s f)
    (hlt : 4 ≤ s.room → f.pos + 4 < 2 ^ 32) (l : UInt32) :
    Whole [(l >>> 24).toUInt8, (l >>> 16).toUInt8, (l >>> 8).toUInt8, l.toUInt8] f
      (s.writeL l) := by
  by_cases hfull : s.writePtr = none ∨ s.writeBufSize.toNat < s.offset + 4
  · rw [Stream.writeL, if_pos hfull]
    exact .inr ⟨rfl, h⟩
  · have hroom : 4 ≤ s.room := by
      unfold Stream.room
      omega
    specialize hlt hroom
    have h1 := h.put (by omega) (by omega) (l >>> 24).toUInt8
    have h2 := h1.put (by rw [room_put]; omega) (by change f.pos + 1 + 1 < _; omega)
      (l >>> 16).toUInt8
    have h3 := h2.put (by rw [room_put, room_put]; omega)
      (by change f.pos + 1 + 1 + 1 < _; omega) (l >>> 8).toUInt8
    have h4 := h3.put (by rw [room_put, room_put, room_put]; omega)
      (by change f.pos + 1 + 1 + 1 + 1 < _; omega) l.toUInt8
    rw [Stream.writeL, if_neg hfull]
    refine .inl ⟨rfl, ?_⟩
    rwa [write_cons, write_cons (f.write _), write_cons ((f.write _).write _)]

theorem Refines.whole_writeBlock (h : Refines s f) {block : Option (List UInt8)}
    (hflush : (Call.writeBlock block).Flushes s → s.Flushable)
    (hwhole : ¬ (Call.writeBlock block).Splits s)
    (hlt : (block.getD []).length ≤ s.room → f.pos + (block.getD []).length < 2 ^ 32) :
    Whole (block.getD []) f (s.writeBlock block) := by
  unfold Stream.writeBlock
  cases hptr : s.writePtr with
  | none => exact .inr ⟨rfl, h⟩
  | some p =>
      have hnull : s.writePtr ≠ none := hptr ▸ Option.some_ne_none p
      cases block with
      | none => exact .inr ⟨rfl, h⟩
      | some d =>
          exact h.whole_writeEach (fun hfull => hflush ⟨hnull, ⟨d, rfl, hfull.1⟩, hfull.2⟩)
            (fun hsplit => hwhole ⟨hnull, d, rfl, hsplit⟩) hlt

/-! ### Positions -/

theorem Refines.setWritePos (h : Refines s f) {offset : UInt32}
    (hflush : s.Leaves offset → s.Flushable) :
    ∃ s', s.setWritePos offset = (true, s') ∧ Refines s' ⟨f.contents, offset.toNat⟩ := by
  obtain ⟨func, hfunc, hall⟩ := h.func
  have hsome : s.writeFileFunc.isSome = true := by
    rw [hfunc]
    rfl
  by_cases hleaves : s.Leaves offset
  · have hs := h.flushed (hflush hleaves)
    refine ⟨{ s.flushed with writePtr := some 0, writeFileSize := offset }, ?_, ?_⟩
    · rw [Stream.setWritePos, if_pos hsome, if_pos hleaves, h.writeStreamToFile]
      rfl
    · refine ⟨hs.func, Nat.zero_le _, rfl, offset.toNat_lt, ?_⟩
      exact hs.contents.trans ((overlay_empty _ _ _).trans (overlay_empty _ _ _).symm)
  · refine ⟨{ s with writePtr := some (offset - s.writeFileSize).toNat }, ?_, ?_⟩
    · rw [Stream.setWritePos, if_pos hsome, if_neg hleaves]
    · obtain ⟨hle, hlt⟩ := not_or.mp hleaves
      rw [UInt32.not_lt] at hle
      rw [UInt32.not_le, UInt32.lt_iff_toNat_lt, UInt32.toNat_add] at hlt
      have hsub := UInt32.toNat_sub_of_le _ _ hle
      have hmod := Nat.mod_le (s.writeFileSize.toNat + s.writeBufSize.toNat) (2 ^ 32)
      rw [UInt32.le_iff_toNat_le] at hle
      refine ⟨h.func, ?_, ?_, offset.toNat_lt, h.contents⟩
      · change (offset - s.writeFileSize).toNat ≤ s.writeBufSize.toNat
        omega
      · change offset.toNat = s.writeFileSize.toNat + (offset - s.writeFileSize).toNat
        omega

theorem Refines.getWritePos (h : Refines s f) : s.getWritePos.toNat = f.pos := by
  obtain ⟨func, hfunc, -⟩ := h.func
  unfold Stream.getWritePos
  dsimp only
  rw [if_pos h.offset_le, hfunc, Option.isSome_some, if_pos rfl, UInt32.add_comm, h.toNat_pos,
    h.pos]

/-! ### Runs -/

theorem Refines.step (h : Refines s f) {call : Call} (hcall : call.Meets s) :
    ∃ g, Effect call (call.step s).1 f g ∧ Refines (call.step s).2 g := by
  obtain ⟨hflush, hwhole, hrange⟩ := hcall
  rw [← h.pos] at hrange
  cases call with
  | writeC c =>
      refine Whole.effect (d := [c]) (r := s.writeC c) ?_ rfl rfl
      rw [← writeEach_singleton]
      refine h.whole_writeEach (fun hfull => hflush hfull.2) ?_ (hrange _ rfl)
      rw [List.length_singleton]
      omega
  | writeW w =>
      refine Whole.effect (r := s.writeW w) ?_ rfl rfl
      rw [writeW_eq]
      refine h.whole_writeEach (fun hfull => hflush hfull.2) ?_ (hrange _ rfl)
      exact fun hsplit => hwhole (Nat.le_antisymm (Nat.le_of_lt_succ hsplit.2) hsplit.1)
  | writeL l => exact (h.whole_writeL (hrange _ rfl) l).effect rfl rfl
  | writeBlock block => exact (h.whole_writeBlock hflush hwhole (hrange _ rfl)).effect rfl rfl
  | setWritePos offset =>
      obtain ⟨s', hrun, hs'⟩ := h.setWritePos hflush
      rw [Call.step, hrun]
      exact ⟨_, .moved, hs'⟩
  | getWritePos => exact ⟨f, .told h.getWritePos, h⟩

theorem Refines.run (h : Refines s f) {calls : List Call} (hcalls : Meets s calls) :
    ∃ g, Effects calls (run s calls).1 f g ∧ Refines (run s calls).2 g := by
  induction calls generalizing s f with
  | nil => exact ⟨f, .nil, h⟩
  | cons call calls ih =>
      obtain ⟨g, heffect, hg⟩ := h.step hcalls.1
      obtain ⟨k, heffects, hk⟩ := ih hg hcalls.2
      exact ⟨k, .cons heffect heffects, hk⟩

end Step

/-- A context before its first use: nothing is in the buffer, and the callback writes
everything. -/
structure Stream.Fresh (s : Stream) : Prop where
  size : 1 ≤ s.writeBufSize
  ptr : s.writePtr = none ∨ s.writePtr = some 0
  func : ∃ func, s.writeFileFunc = some func ∧ func.WritesAll
  stored : s.stored = ∅

theorem Stream.Fresh.offset {s : Stream} (hs : s.Fresh) : s.offset = 0 := by
  rcases hs.ptr with h | h <;> rw [Stream.offset, h] <;> rfl

theorem Stream.Fresh.refines {s : Stream} (hs : s.Fresh) :
    Refines s ⟨s.file, s.writeFileSize.toNat⟩ := by
  refine ⟨hs.func, ?_, ?_, s.writeFileSize.toNat_lt, ?_⟩
  · rw [hs.offset]
    exact Nat.zero_le _
  · rw [hs.offset, Nat.add_zero]
  · rw [hs.stored, overlay_empty]

/-- In every run whose calls are within the condition, each call has its effect on the file
written directly, and a flush that is within it too leaves that file. -/
theorem run_refines {s : Stream} (hs : s.Fresh) (calls : List Call) (hcalls : Meets s calls) :
    ∃ f, Effects calls (run s calls).1 ⟨s.file, s.writeFileSize.toNat⟩ f ∧
      (run s calls).2.getWritePos.toNat = f.pos ∧
      ((run s calls).2.Flushable →
        (run s calls).2.writeStreamToFile.1 = true ∧
          (run s calls).2.writeStreamToFile.2.file = f.contents) := by
  obtain ⟨f, heffects, hf⟩ := hs.refines.run hcalls
  refine ⟨f, heffects, hf.getWritePos, fun hflush => ?_⟩
  rw [hf.writeStreamToFile]
  refine ⟨rfl, ?_⟩
  exact ((hf.flushed hflush).contents.trans (overlay_empty _ _ _)).symm

/-- A stream with a buffer of four bytes, in front of an empty file. -/
def emptyStream : Stream :=
  { writeBuf := fun _ => 0
    writeBufSize := 4
    writePtr := some 0
    writeFileFunc := some fun buf offset size file =>
      (WriteBehind.write file offset.toNat (bytes buf size.toNat), size)
    writeFileSize := 0
    file := fun _ => none
    stored := ∅ }

theorem emptyStream_fresh : emptyStream.Fresh :=
  ⟨by decide, .inr rfl, ⟨_, rfl, fun _ _ _ _ => rfl⟩, rfl⟩

theorem run_refines_emptyStream :
    let calls : List Call := [.writeC 0xff, .writeW 0x1234, .setWritePos 16, .writeC 1]
    ∃ f, Effects calls (run emptyStream calls).1 ⟨fun _ => none, 0⟩ f ∧
      (run emptyStream calls).2.writeStreamToFile.2.file = f.contents := by
  obtain ⟨f, heffects, -, hflush⟩ := run_refines emptyStream_fresh
    [.writeC 0xff, .writeW 0x1234, .setWritePos 16, .writeC 1]
    ⟨⟨fun h => absurd h (Nat.succ_ne_zero 3), id, by decide⟩,
      ⟨fun h => absurd h (Nat.succ_ne_zero 2), fun h => absurd h (Nat.succ_succ_ne_one 1),
        by decide⟩,
      ⟨fun _ => by decide, id, by decide⟩,
      ⟨fun h => absurd h (Nat.succ_ne_zero 3), id, by decide⟩, trivial⟩
  exact ⟨f, heffects, (hflush (by decide)).2⟩

/-- Back inside the buffer, the bytes behind the new position do not reach the file. -/
theorem bytes_lost_behind_position :
    ∃ (s : Stream) (calls : List Call), s.Fresh ∧
      ¬ ∃ f, Effects calls (run s calls).1 ⟨s.file, s.writeFileSize.toNat⟩ f ∧
        (run s calls).2.writeStreamToFile.2.file = f.contents := by
  refine ⟨emptyStream, [.writeL 0x01020304, .setWritePos 1], emptyStream_fresh, ?_⟩
  rintro ⟨f, heffects, hfile⟩
  have hanswers : (run emptyStream [.writeL 0x01020304, .setWritePos 1]).1 =
      [.done true, .done true] := rfl
  rw [hanswers] at heffects
  cases heffects with
  | cons hwrite hrest =>
      cases hrest with
      | cons hmove hnil =>
          cases hnil
          cases hmove with
          | written h => cases h
          | moved =>
              cases hwrite with
              | written h =>
                  cases h
                  exact absurd (congrFun hfile 3) (by decide)

end JpegStream

end Tarako
