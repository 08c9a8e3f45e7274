import Mathlib.Data.List.Basic
import Tarako.Lib.Run
import Tarako.Lib.Splice

/-!
# Diag frames of the virtual serial port

`eng_vdiag_thread` reads chunks from the serial port and hands each of them to
`get_user_diag_buf`, which collects one frame, from a `0x7E` to the next `0x7E`,
over any number of chunks. The collecting loop leaves the chunk at the closing
`0x7E` of the first frame that it completes, so what the chunk holds after that
is never looked at. `calls_eq_frames_iff` says for which ways of splitting a
stream of frames into chunks every frame still reaches `eng_diag`.
-/

namespace Tarako

namespace Engcs

def DATA_BUF_SIZE : ℕ := 4096 * 2

def DATA_EXT_DIAG_SIZE : ℕ := 4096 * 2

/-- The statics `ext_data_buf` and `ext_buf_len`. -/
structure UserDiag where
  extDataBuf : Buffer UInt8 DATA_EXT_DIAG_SIZE
  extBufLen : ℕ
  len_le : extBufLen ≤ DATA_EXT_DIAG_SIZE

namespace UserDiag

/-- `ext_data_buf[ext_buf_len] = b`. -/
def put (s : UserDiag) (b : UInt8) : UserDiag :=
  { s with extDataBuf := s.extDataBuf.set s.extBufLen b }

/-- `ext_buf_len ++`. -/
def advance (s : UserDiag) (h : s.extBufLen < DATA_EXT_DIAG_SIZE) : UserDiag :=
  { s with extBufLen := s.extBufLen + 1, len_le := h }

def held (s : UserDiag) : List UInt8 := s.extDataBuf.bytes.take s.extBufLen

end UserDiag

def initUserDiagBuf : UserDiag := ⟨Buffer.fill DATA_EXT_DIAG_SIZE 0, 0, Nat.zero_le _⟩

def getUserDiagBuf (s : UserDiag) : List UInt8 → UserDiag × Bool
  | [] => (s, false)
  | b :: buf =>
      if h : b = 0x7E ∧ s.extBufLen = 0 then
        getUserDiagBuf ((s.put b).advance (by simp [UserDiag.put, h.2, DATA_EXT_DIAG_SIZE])) buf
      else if h : 0 < s.extBufLen ∧ s.extBufLen < DATA_EXT_DIAG_SIZE then
        -- the closing flag is stored and not counted
        if b = 0x7E then (s.put b, true)
        else getUserDiagBuf ((s.put b).advance h.2) buf
      else getUserDiagBuf s buf

/-- Nothing is stored or compared any more when the buffer is full. -/
theorem getUserDiagBuf_of_full {s : UserDiag} (hs : DATA_EXT_DIAG_SIZE ≤ s.extBufLen)
    (l : List UInt8) : getUserDiagBuf s l = (s, false) := by
  induction l with
  | nil => rfl
  | cons b l ih =>
      have hpos : 0 < DATA_EXT_DIAG_SIZE := by decide
      rw [getUserDiagBuf, dif_neg (by omega), dif_neg (by omega)]
      exact ih

/-! ## The thread -/

/-- A call `eng_diag(ext_data_buf, ext_buf_len)`. -/
structure DiagCall where
  buf : List UInt8
  len : ℕ

/-- The frame of a call, with the closing flag that `len` leaves out. -/
def DiagCall.frame (c : DiagCall) : List UInt8 := c.buf.take (c.len + 1)

/-- The results of the calls made in one turn of the loop: what the two calls of
`read` deliver, `none` for an error, whether the port can be opened again, and what
`eng_diag` returns. -/
structure Turn where
  first : Option (List UInt8)
  second : Option (List UInt8)
  reopens : Bool
  engDiag : Int

/-- The first `r_cnt` bytes of `log_data`; `none` when `r_cnt` is negative. A full
first read is followed by a second one, whose result is added as it is. -/
def Turn.logData (t : Turn) : Option (List UInt8) :=
  t.first.map fun bytes =>
    let bytes := bytes.take (DATA_BUF_SIZE / 2)
    if bytes.length = DATA_BUF_SIZE / 2 then
      match t.second with
      | some more => bytes ++ more.take (DATA_BUF_SIZE / 2)
      | none => bytes.take (DATA_BUF_SIZE / 2 - 1)
    else bytes

/-- The thread: its statics, the calls of `eng_diag` and the writes to the pipe it
has made, and whether its loop has ended. -/
structure Vdiag where
  userDiag : UserDiag
  calls : List DiagCall
  pipe : List (List UInt8)
  ended : Bool

def Vdiag.start : Vdiag := ⟨initUserDiagBuf, [], [], false⟩

def Vdiag.handle (s : Vdiag) (engDiag : Int) (logData : List UInt8) : Vdiag :=
  match getUserDiagBuf s.userDiag logData with
  | (userDiag, true) =>
      { s with
        userDiag := initUserDiagBuf
        calls := s.calls ++ [⟨userDiag.extDataBuf.bytes, userDiag.extBufLen⟩]
        pipe := if engDiag = 1 then s.pipe else s.pipe ++ [logData] }
  | (userDiag, false) => { s with userDiag, pipe := s.pipe ++ [logData] }

/-- One turn of the loop of `eng_vdiag_thread`. -/
def Vdiag.step (s : Vdiag) (t : Turn) : Vdiag :=
  if s.ended then s
  else
    match t.logData with
    | none => { s with ended := !t.reopens }
    | some logData => s.handle t.engDiag logData

/-! ## One frame -/

/-- A diag frame on the wire, short enough for `ext_data_buf`. -/
structure Frame where
  body : List UInt8
  flag_not_mem : (0x7E : UInt8) ∉ body
  short : body.length + 2 < DATA_EXT_DIAG_SIZE

def Frame.bytes (f : Frame) : List UInt8 := 0x7E :: (f.body ++ [0x7E])

def stream (frames : List Frame) : List UInt8 := frames.flatMap Frame.bytes

theorem Frame.length_bytes (f : Frame) : f.bytes.length = f.body.length + 2 := by
  simp [Frame.bytes]

@[simp] theorem stream_nil : stream [] = [] := rfl

@[simp] theorem stream_cons (f : Frame) (frames : List Frame) :
    stream (f :: frames) = f.bytes ++ stream frames := rfl

namespace UserDiag

theorem length_held (s : UserDiag) : s.held.length = s.extBufLen := by
  rw [held, List.length_take, s.extDataBuf.size_eq]
  exact Nat.min_eq_left s.len_le

theorem held_advance_put (s : UserDiag) (b : UInt8)
    (h : (s.put b).extBufLen < DATA_EXT_DIAG_SIZE) :
    ((s.put b).advance h).held = s.held ++ [b] := by
  have hlt : s.extBufLen < s.extDataBuf.bytes.length := by
    rw [s.extDataBuf.size_eq]
    exact h
  change (s.extDataBuf.bytes.set s.extBufLen b).take (s.extBufLen + 1) =
    s.extDataBuf.bytes.take s.extBufLen ++ [b]
  rw [List.take_add_one, List.take_set_of_le (Nat.le_refl _)]
  simp [hlt]

theorem held_initUserDiagBuf : initUserDiagBuf.held = [] := rfl

def pending (s : UserDiag) : ℕ := if s.extBufLen = 0 then 0 else 1

end UserDiag

theorem getUserDiagBuf_of_prefix (f : Frame) (rest : List UInt8) :
    ∀ (p : List UInt8) (s : UserDiag), s.held ++ p <+: 0x7E :: f.body →
      ∃ s' : UserDiag, s'.held = s.held ++ p ∧
        getUserDiagBuf s (p ++ rest) = getUserDiagBuf s' rest
  | [], s, _ => ⟨s, by simp, rfl⟩
  | b :: p, s, hp => by
      have hlen : s.extBufLen + (p.length + 1) ≤ f.body.length + 1 := by
        have hle := hp.length_le
        rw [List.length_append, s.length_held] at hle
        exact hle
      have hroom : s.extBufLen < DATA_EXT_DIAG_SIZE := by
        have hshort := f.short
        omega
      have hheld := s.held_advance_put b hroom
      obtain ⟨s', hs', hrun⟩ := getUserDiagBuf_of_prefix f rest p ((s.put b).advance hroom)
        (by rw [hheld, List.append_assoc]; exact hp)
      refine ⟨s', by rw [hs', hheld, List.append_assoc]; rfl, ?_⟩
      obtain ⟨post, hpost⟩ := hp
      by_cases hzero : s.extBufLen = 0
      · have hnil : s.held = [] := List.length_eq_zero_iff.mp (by rw [s.length_held, hzero])
        have hb : b = 0x7E := by
          rw [hnil] at hpost
          exact (List.cons.inj hpost).1
        rw [List.cons_append, getUserDiagBuf, dif_pos ⟨hb, hzero⟩, ← hrun]
      · have hb : b ≠ 0x7E := by
          obtain ⟨a, held, hcons⟩ := List.exists_cons_of_length_pos
            (by rw [s.length_held]; omega : 0 < s.held.length)
          rw [hcons] at hpost
          rintro rfl
          apply f.flag_not_mem
          rw [← (List.cons.inj hpost).2]
          simp
        rw [List.cons_append, getUserDiagBuf, dif_neg (fun h => hb h.1),
          dif_pos ⟨Nat.pos_of_ne_zero hzero, hroom⟩, if_neg hb, ← hrun]

/-- The closing flag ends the loop, whatever the chunk holds after it. -/
theorem getUserDiagBuf_flag (f : Frame) {s : UserDiag} (hs : s.held = 0x7E :: f.body)
    (rest : List UInt8) : getUserDiagBuf s (0x7E :: rest) = (s.put 0x7E, true) := by
  have hlen : s.extBufLen = f.body.length + 1 := by
    rw [← s.length_held, hs, List.length_cons]
  have hshort := f.short
  rw [getUserDiagBuf, dif_neg (by omega), dif_pos (by omega), if_pos rfl]

/-- The part of a chunk up to the closing flag of the frame that it completes. -/
theorem exists_split_of_append_eq {f : Frame} {held c rest : List UInt8}
    (hheld : held <+: 0x7E :: f.body) (hc : held ++ c = f.bytes ++ rest) :
    ∃ p, held ++ p = 0x7E :: f.body ∧ c = p ++ 0x7E :: rest := by
  obtain ⟨p, hp⟩ := hheld
  refine ⟨p, hp, ?_⟩
  have hsplit : held ++ c = held ++ (p ++ 0x7E :: rest) := by
    rw [hc, ← List.append_assoc, hp, Frame.bytes]
    simp
  exact List.append_cancel_left hsplit

namespace Vdiag

theorem handle_of_prefix (f : Frame) (s : Vdiag) (ret : Int) (c : List UInt8)
    (hc : s.userDiag.held ++ c <+: 0x7E :: f.body) :
    (s.handle ret c).calls = s.calls ∧ (s.handle ret c).ended = s.ended ∧
      (s.handle ret c).userDiag.held = s.userDiag.held ++ c := by
  obtain ⟨s', hs', hrun⟩ := getUserDiagBuf_of_prefix f [] c s.userDiag hc
  rw [List.append_nil, getUserDiagBuf] at hrun
  rw [handle, hrun]
  exact ⟨rfl, rfl, hs'⟩

/-- A chunk that completes a frame makes one call and forgets the rest. -/
theorem handle_of_complete (f : Frame) (s : Vdiag) (ret : Int) {c rest : List UInt8}
    (hheld : s.userDiag.held <+: 0x7E :: f.body)
    (hc : s.userDiag.held ++ c = f.bytes ++ rest) :
    (∃ call : DiagCall, call.frame = f.bytes ∧ (s.handle ret c).calls = s.calls ++ [call]) ∧
      (s.handle ret c).ended = s.ended ∧ (s.handle ret c).userDiag = initUserDiagBuf := by
  obtain ⟨p, hp, rfl⟩ := exists_split_of_append_eq hheld hc
  obtain ⟨s', hs', hrun⟩ := getUserDiagBuf_of_prefix f (0x7E :: rest) p s.userDiag
    (hp ▸ List.prefix_rfl)
  rw [hp] at hs'
  rw [getUserDiagBuf_flag f hs'] at hrun
  have hlen : s'.extBufLen = f.body.length + 1 := by
    rw [← s'.length_held, hs', List.length_cons]
  have hroom : (s'.put 0x7E).extBufLen < DATA_EXT_DIAG_SIZE := by
    have hshort := f.short
    change s'.extBufLen < DATA_EXT_DIAG_SIZE
    omega
  have hframe : ((s'.put 0x7E).advance hroom).held = f.bytes := by
    rw [s'.held_advance_put, hs']
    rfl
  rw [handle, hrun]
  exact ⟨⟨⟨_, _⟩, hframe, rfl⟩, rfl, rfl⟩

end Vdiag

/-! ## Counting flags -/

theorem UserDiag.pending_le_one (s : UserDiag) : s.pending ≤ 1 := by
  unfold UserDiag.pending
  split_ifs
  · exact Nat.zero_le _
  · exact Nat.le_refl _

theorem UserDiag.pending_pos {s : UserDiag} (h : 0 < s.extBufLen) : s.pending = 1 :=
  if_neg (Nat.ne_of_gt h)

/-- The flags that the loop has used when it leaves a chunk. -/
def flagsUsed (r : UserDiag × Bool) : ℕ := if r.2 then 2 else r.1.pending

theorem flagsUsed_getUserDiagBuf (c : List UInt8) :
    ∀ s : UserDiag, flagsUsed (getUserDiagBuf s c) ≤ s.pending + c.count 0x7E := by
  induction c with
  | nil =>
      intro s
      simp [getUserDiagBuf, flagsUsed]
  | cons b c ih =>
      intro s
      have hcount : c.count 0x7E ≤ (b :: c).count 0x7E := List.count_le_count_cons
      rw [getUserDiagBuf]
      split_ifs with hopen hinside hclose
      · have hle := ih ((s.put b).advance (by simp [UserDiag.put, hopen.2, DATA_EXT_DIAG_SIZE]))
        have hone := UserDiag.pending_le_one
          ((s.put b).advance (by simp [UserDiag.put, hopen.2, DATA_EXT_DIAG_SIZE]))
        have hflag : (b :: c).count 0x7E = c.count 0x7E + 1 := by
          rw [hopen.1, List.count_cons_self]
        omega
      · have hone := UserDiag.pending_pos hinside.1
        have hflag : (b :: c).count 0x7E = c.count 0x7E + 1 := by
          rw [hclose, List.count_cons_self]
        change 2 ≤ _
        omega
      · have hle := ih ((s.put b).advance hinside.2)
        have hone := UserDiag.pending_le_one ((s.put b).advance hinside.2)
        rw [UserDiag.pending_pos hinside.1]
        omega
      · have hle := ih s
        omega

theorem pending_handle (s : Vdiag) (ret : Int) (c : List UInt8) :
    2 * (s.handle ret c).calls.length + (s.handle ret c).userDiag.pending ≤
      2 * s.calls.length + s.userDiag.pending + c.count 0x7E := by
  have hle := flagsUsed_getUserDiagBuf c s.userDiag
  unfold Vdiag.handle
  split
  · next heq =>
      have hzero : initUserDiagBuf.pending = 0 := rfl
      rw [heq, flagsUsed, if_pos rfl] at hle
      simp only [List.length_append, List.length_singleton, hzero]
      omega
  · next userDiag heq =>
      rw [heq] at hle
      change userDiag.pending ≤ _ at hle
      change 2 * s.calls.length + userDiag.pending ≤ _
      omega

theorem Frame.count_bytes (f : Frame) : f.bytes.count 0x7E = 2 := by
  rw [Frame.bytes, List.count_cons_self, List.count_append,
    List.count_eq_zero_of_not_mem f.flag_not_mem]
  rfl

theorem count_stream (frames : List Frame) :
    (stream frames).count 0x7E = 2 * frames.length := by
  induction frames with
  | nil => rfl
  | cons f frames ih =>
      rw [stream_cons, List.count_append, f.count_bytes, ih, List.length_cons]
      omega

/-! ## Runs -/

theorem step_of_logData {s : Vdiag} (hs : s.ended = false) {t : Turn} {c : List UInt8}
    (ht : t.logData = some c) : s.step t = s.handle t.engDiag c := by
  simp [Vdiag.step, hs, ht]

theorem ended_handle (s : Vdiag) (ret : Int) (c : List UInt8) :
    (s.handle ret c).ended = s.ended := by
  unfold Vdiag.handle
  split <;> rfl

/-- Over a run, two calls of `eng_diag` for every two flags in its chunks at most. -/
theorem length_calls_run_le :
    ∀ {turns : List Turn} {chunks : List (List UInt8)} {s : Vdiag}, s.ended = false →
      turns.map Turn.logData = chunks.map some →
        2 * (Run.run Vdiag.step s turns).calls.length ≤
          2 * s.calls.length + s.userDiag.pending + chunks.flatten.count 0x7E
  | [], [], s, _, _ => by
      simp
  | t :: turns, c :: chunks, s, hs, hmap => by
      obtain ⟨ht, hturns⟩ := List.cons.inj hmap
      have hrun := length_calls_run_le ((ended_handle s t.engDiag c).trans hs) hturns
      have hhandle := pending_handle s t.engDiag c
      rw [Run.run_cons, step_of_logData hs ht, List.flatten_cons, List.count_append]
      omega

/-- No frame ends strictly inside a chunk, when the first chunk starts `off` bytes
into the stream. -/
def EndsAtChunks (off : ℕ) (frames : List Frame) (chunks : List (List UInt8)) : Prop :=
  ∀ pre c post fs gs, chunks = pre ++ c :: post → frames = fs ++ gs →
    ¬ (off + pre.flatten.length < (stream fs).length ∧
      (stream fs).length < off + pre.flatten.length + c.length)

theorem endsAtChunks_cons_chunk {off : ℕ} {frames : List Frame} {c : List UInt8}
    {chunks : List (List UInt8)} :
    EndsAtChunks off frames (c :: chunks) ↔
      (∀ fs gs, frames = fs ++ gs →
        ¬ (off < (stream fs).length ∧ (stream fs).length < off + c.length)) ∧
      EndsAtChunks (off + c.length) frames chunks := by
  constructor
  · intro h
    refine ⟨fun fs gs hfs => by simpa using h [] c chunks fs gs rfl hfs, ?_⟩
    rintro pre d post fs gs rfl hfs
    have hd := h (c :: pre) d post fs gs rfl hfs
    rw [List.flatten_cons, List.length_append, ← Nat.add_assoc] at hd
    exact hd
  · rintro ⟨hc, hchunks⟩ pre d post fs gs hsplit hfs
    cases pre with
    | nil =>
        obtain ⟨rfl, rfl⟩ := List.cons.inj hsplit
        simpa using hc fs gs hfs
    | cons a pre =>
        obtain ⟨rfl, hrest⟩ := List.cons.inj hsplit
        have hd := hchunks pre d post fs gs hrest hfs
        rw [List.flatten_cons, List.length_append, ← Nat.add_assoc]
        exact hd

theorem endsAtChunks_cons_frame {off : ℕ} {f : Frame} {frames : List Frame}
    {chunks : List (List UInt8)} :
    EndsAtChunks (f.bytes.length + off) (f :: frames) chunks ↔
      EndsAtChunks off frames chunks := by
  constructor
  · rintro h pre c post fs gs hsplit rfl
    have hfs := h pre c post (f :: fs) gs hsplit rfl
    rw [stream_cons, List.length_append] at hfs
    omega
  · intro h pre c post fs gs hsplit hfs
    cases fs with
    | nil =>
        rw [stream_nil, List.length_nil]
        omega
    | cons f' fs =>
        obtain ⟨rfl, hrest⟩ := List.cons.inj hfs
        have hfs' := h pre c post fs gs hsplit hrest
        rw [stream_cons, List.length_append]
        omega

/-- What is held is the start of the next frame. -/
def HoldsStart (held : List UInt8) : List Frame → Prop
  | [] => held = []
  | f :: _ => held <+: 0x7E :: f.body

theorem holdsStart_initUserDiagBuf (frames : List Frame) :
    HoldsStart initUserDiagBuf.held frames := by
  cases frames with
  | nil => rfl
  | cons f frames => exact List.nil_prefix

theorem not_length_stream_lt {f : Frame} {frames fs gs : List Frame} {off n : ℕ}
    (hfs : f :: frames = fs ++ gs) (hn : n ≤ f.bytes.length) :
    ¬ (off < (stream fs).length ∧ (stream fs).length < n) := by
  cases fs with
  | nil =>
      rw [stream_nil, List.length_nil]
      omega
  | cons f' fs =>
      obtain ⟨rfl, -⟩ := List.cons.inj hfs
      rw [stream_cons, List.length_append]
      omega

/-- The opening flag of the next frame is in what a chunk holds after a frame. -/
theorem count_flatten_lt {rest : List UInt8} {chunks : List (List UInt8)}
    {frames : List Frame} (hrest : rest ≠ []) (h : rest ++ chunks.flatten = stream frames) :
    chunks.flatten.count 0x7E < 2 * frames.length := by
  cases rest with
  | nil => exact absurd rfl hrest
  | cons b rest =>
      cases frames with
      | nil => simp at h
      | cons f frames =>
          have hcount := congrArg (List.count 0x7E) h
          have hb : b = 0x7E := (List.cons.inj h).1
          rw [count_stream, List.count_append, hb, List.count_cons_self] at hcount
          omega

/-- When bytes of the stream are dropped, some of its frames are not delivered. -/
theorem length_calls_run_lt {turns : List Turn} {chunks : List (List UInt8)} {s : Vdiag}
    {rest : List UInt8} {frames : List Frame} (hs : s.ended = false)
    (hmap : turns.map Turn.logData = chunks.map some) (hdiag : s.userDiag = initUserDiagBuf)
    (hrest : rest ≠ []) (hstream : rest ++ chunks.flatten = stream frames) :
    (Run.run Vdiag.step s turns).calls.length < s.calls.length + frames.length := by
  have hcount := count_flatten_lt hrest hstream
  have hrun := length_calls_run_le hs hmap
  have hzero : initUserDiagBuf.pending = 0 := rfl
  rw [hdiag, hzero] at hrun
  omega

theorem HoldsStart.eq_nil {held : List UInt8} {frames : List Frame} (h : HoldsStart held frames)
    (hstream : held = stream frames) : frames = [] := by
  cases frames with
  | nil => rfl
  | cons f frames =>
      have hle := h.length_le
      have hlen := congrArg List.length hstream
      rw [stream_cons] at hlen
      simp only [List.length_append, f.length_bytes, List.length_cons] at hle hlen
      omega

/-- What is held and a chunk end inside the frame, or they have it whole. -/
theorem prefix_or_exists_rest {held c later : List UInt8} {f : Frame} {frames : List Frame}
    (hstream : held ++ c ++ later = f.bytes ++ stream frames) :
    ((held ++ c).length < f.bytes.length ∧ held ++ c <+: 0x7E :: f.body) ∨
      ∃ rest, held ++ c = f.bytes ++ rest := by
  have hlen := f.length_bytes
  by_cases hshort : (held ++ c).length < f.bytes.length
  · refine .inl ⟨hshort, ?_⟩
    apply List.prefix_of_prefix_length_le (List.prefix_append _ later)
    · rw [hstream]
      exact ⟨0x7E :: stream frames, by simp [Frame.bytes]⟩
    · rw [List.length_cons]
      omega
  · obtain ⟨rest, hrest⟩ := List.prefix_of_prefix_length_le
      (hstream ▸ List.prefix_append f.bytes (stream frames))
      (List.prefix_append (held ++ c) later) (by omega)
    exact .inr ⟨rest, hrest.symm⟩

/-- A chunk that goes on behind the frame: too few frames are delivered, and the frame does not
end with the chunk. -/
theorem calls_run_iff_of_rest {turns : List Turn} {chunks : List (List UInt8)} {t : Vdiag}
    {calls : List DiagCall} {call : DiagCall} {c rest : List UInt8} {f : Frame}
    {frames : List Frame} {k : ℕ} (ht : t.ended = false)
    (hmap : turns.map Turn.logData = chunks.map some) (hdiag : t.userDiag = initUserDiagBuf)
    (hrest : rest ≠ []) (hstream : rest ++ chunks.flatten = stream frames)
    (hcalls : t.calls = calls ++ [call]) (hoff : k + c.length = f.bytes.length + rest.length)
    (hle : k < f.bytes.length) :
    (Run.run Vdiag.step t turns).calls.map DiagCall.frame =
        calls.map DiagCall.frame ++ (f :: frames).map Frame.bytes ↔
      EndsAtChunks k (f :: frames) (c :: chunks) := by
  have hpos := List.length_pos_iff.mpr hrest
  constructor
  · intro heq
    have hlt := length_calls_run_lt ht hmap hdiag hrest hstream
    have heqlen := congrArg List.length heq
    rw [hcalls] at hlt
    simp only [List.length_append, List.length_map, List.length_cons,
      List.length_nil] at hlt heqlen
    omega
  · intro hends
    exfalso
    apply (endsAtChunks_cons_chunk.mp hends).1 [f] frames rfl
    rw [stream_cons, stream_nil, List.append_nil]
    omega

theorem calls_run_eq_iff :
    ∀ (turns : List Turn) (chunks : List (List UInt8)) (s : Vdiag) (frames : List Frame),
      s.ended = false → turns.map Turn.logData = chunks.map some →
      HoldsStart s.userDiag.held frames →
      s.userDiag.held ++ chunks.flatten = stream frames →
        ((Run.run Vdiag.step s turns).calls.map DiagCall.frame =
            s.calls.map DiagCall.frame ++ frames.map Frame.bytes ↔
          EndsAtChunks s.userDiag.held.length frames chunks)
  | [], [], s, frames, _, _, hstart, hstream => by
      rw [List.flatten_nil, List.append_nil] at hstream
      have hframes := hstart.eq_nil hstream
      subst hframes
      constructor
      · intro _ pre c post fs gs hsplit
        simp at hsplit
      · intro _
        simp
  | t :: turns, c :: chunks, s, [], hs, hmap, hstart, hstream => by
      obtain ⟨ht, hturns⟩ := List.cons.inj hmap
      have hended : (s.handle t.engDiag c).ended = false :=
        (ended_handle s t.engDiag c).trans hs
      -- nothing is left to read
      obtain ⟨hheld, hflat⟩ := List.append_eq_nil_iff.mp hstream
      obtain ⟨hc, hchunks⟩ := List.append_eq_nil_iff.mp
        ((List.flatten_cons).symm.trans hflat)
      subst hc
      have ih := calls_run_eq_iff turns chunks _ [] hended hturns hstart hstream
      rw [Run.run_cons, step_of_logData hs ht, endsAtChunks_cons_chunk]
      refine ih.trans (iff_and_self.mpr ?_)
      rintro _ fs gs hfs
      obtain ⟨rfl, -⟩ := List.append_eq_nil_iff.mp hfs.symm
      simp
  | t :: turns, c :: chunks, s, f :: frames, hs, hmap, hstart, hstream => by
      obtain ⟨ht, hturns⟩ := List.cons.inj hmap
      have hended : (s.handle t.engDiag c).ended = false :=
        (ended_handle s t.engDiag c).trans hs
      rw [Run.run_cons, step_of_logData hs ht]
      rw [List.flatten_cons, ← List.append_assoc, stream_cons] at hstream
      have hlen := f.length_bytes
      obtain ⟨hshort, hprefix⟩ | ⟨rest, hrest⟩ := prefix_or_exists_rest hstream
      · -- the chunk ends inside the frame
        obtain ⟨hcalls, -, hheld⟩ := Vdiag.handle_of_prefix f s t.engDiag c hprefix
        have ih := calls_run_eq_iff turns chunks _ (f :: frames) hended hturns
          (by rw [hheld]; exact hprefix) (by rw [hheld]; exact hstream)
        rw [hcalls, hheld, List.length_append] at ih
        rw [endsAtChunks_cons_chunk]
        refine ih.trans (iff_and_self.mpr ?_)
        rintro _ fs gs hfs
        rw [List.length_append] at hshort
        exact not_length_stream_lt hfs (Nat.le_of_lt hshort)
      · obtain ⟨⟨call, hcall, hcalls⟩, -, hdiag⟩ :=
          Vdiag.handle_of_complete f s t.engDiag hstart hrest
        rw [hrest, List.append_assoc] at hstream
        have hnext := List.append_cancel_left hstream
        have hoff := congrArg List.length hrest
        rw [List.length_append, List.length_append] at hoff
        by_cases hnil : rest = []
        · -- the chunk ends with the frame
          subst hnil
          have ih := calls_run_eq_iff turns chunks _ frames hended hturns
            (by rw [hdiag]; exact holdsStart_initUserDiagBuf frames)
            (by rw [hdiag, UserDiag.held_initUserDiagBuf]; exact hnext)
          rw [hcalls, hdiag, UserDiag.held_initUserDiagBuf, List.map_append, List.map_singleton,
            hcall, List.append_assoc] at ih
          rw [endsAtChunks_cons_chunk, hoff, List.length_nil]
          refine (ih.trans endsAtChunks_cons_frame.symm).trans (iff_and_self.mpr ?_)
          rintro _ fs gs hfs
          exact not_length_stream_lt hfs (Nat.le_refl _)
        · have hle := hstart.length_le
          rw [List.length_cons] at hle
          exact calls_run_iff_of_rest hended hturns hdiag hnil hnext hcalls hoff (by omega)

/-- The frames that reach `eng_diag` are those of the stream, once and in order, if
and only if no chunk goes on past the end of a frame. -/
theorem calls_eq_frames_iff (frames : List Frame) (chunks : List (List UInt8))
    (turns : List Turn) (hturns : turns.map Turn.logData = chunks.map some)
    (hstream : chunks.flatten = stream frames) :
    (Run.run Vdiag.step Vdiag.start turns).calls.map DiagCall.frame = frames.map Frame.bytes ↔
      EndsAtChunks 0 frames chunks :=
  calls_run_eq_iff turns chunks Vdiag.start frames rfl hturns
    (holdsStart_initUserDiagBuf frames) hstream

def Frame.single (b : UInt8) (h : (0x7E : UInt8) ∉ [b]) : Frame :=
  ⟨[b], h, by simp [DATA_EXT_DIAG_SIZE]⟩

/-- A turn of the loop whose first read delivers `bytes`. -/
def Turn.reads (bytes : List UInt8) : Turn := ⟨some bytes, some [], true, 0⟩

theorem calls_eq_frames_split :
    (Run.run Vdiag.step Vdiag.start [.reads [0x7E, 1], .reads [0x7E]]).calls.map
        DiagCall.frame = [Frame.single 1 (by decide)].map Frame.bytes ↔
      EndsAtChunks 0 [Frame.single 1 (by decide)] [[0x7E, 1], [0x7E]] :=
  calls_eq_frames_iff [Frame.single 1 (by decide)] [[0x7E, 1], [0x7E]]
    [.reads [0x7E, 1], .reads [0x7E]] rfl rfl

/-- Two frames in one chunk: the second one never reaches `eng_diag`. -/
theorem calls_ne_frames_together :
    ¬ ∀ (frames : List Frame) (chunks : List (List UInt8)) (turns : List Turn),
      turns.map Turn.logData = chunks.map some → chunks.flatten = stream frames →
        (Run.run Vdiag.step Vdiag.start turns).calls.map DiagCall.frame =
          frames.map Frame.bytes := by
  intro h
  have heq := h [.single 1 (by decide), .single 2 (by decide)]
    [[0x7E, 1, 0x7E, 0x7E, 2, 0x7E]] [.reads [0x7E, 1, 0x7E, 0x7E, 2, 0x7E]] rfl rfl
  have hends := (calls_run_eq_iff [.reads [0x7E, 1, 0x7E, 0x7E, 2, 0x7E]]
    [[0x7E, 1, 0x7E, 0x7E, 2, 0x7E]] Vdiag.start [.single 1 (by decide), .single 2 (by decide)]
    rfl rfl (holdsStart_initUserDiagBuf _) rfl).mp heq
  exact hends [] _ [] [.single 1 (by decide)] [.single 2 (by decide)] rfl rfl (by decide)

end Engcs

end Tarako
