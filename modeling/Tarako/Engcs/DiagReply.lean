import Mathlib.Data.List.GetD
import Tarako.Engcs.Vdiag

/-!
# Replies to diag frames

`eng_diag_user_handle` answers a frame with a frame of its own: the header of the request
with a new length, and the text of the handler, between two flags. Nothing is escaped, so
the reply is one frame only when no byte of its header and its text is a flag.
`reply_wellFormed_iff` says which requests and which texts give such a reply.
-/

namespace Tarako

namespace Engcs

def ENG_DIAG_SIZE : ℕ := 4096

def RSP_SIZE : ℕ := 512

/-- A frame that `get_user_diag_buf` has found. -/
structure DiagFrame where
  body : List UInt8
  flag_not_mem : 0x7E ∉ body
  length_le : body.length + 2 ≤ DATA_EXT_DIAG_SIZE

/-- `ext_data_buf`, which was cleared before the frame was collected. -/
def DiagFrame.buf (f : DiagFrame) : List UInt8 :=
  0x7E :: (f.body ++ 0x7E :: List.replicate (DATA_EXT_DIAG_SIZE - (f.body.length + 2)) 0)

structure MsgHead where
  seqNum : List UInt8
  len : ℕ
  type : UInt8
  subtype : UInt8
  seqNum_length : seqNum.length = 4

def MsgHead.bytes (h : MsgHead) : List UInt8 :=
  h.seqNum ++ [UInt8.ofNat h.len, UInt8.ofNat (h.len / 256), h.type, h.subtype]

theorem MsgHead.length_bytes (h : MsgHead) : h.bytes.length = 8 := by
  simp [bytes, h.seqNum_length]

/-- `memcpy(&head, buf+1, sizeof(MSG_HEAD_T))`. -/
def readHead (buf : List UInt8) : MsgHead where
  seqNum := [buf.getD 1 0, buf.getD 2 0, buf.getD 3 0, buf.getD 4 0]
  len := (buf.getD 5 0).toNat + 256 * (buf.getD 6 0).toNat
  type := buf.getD 7 0
  subtype := buf.getD 8 0
  seqNum_length := rfl

/-! ## The handlers -/

/-- What a handler answers: the C string of `eng_diag_getver`, which is cut off at
`maxlen`, nothing for the factory mode, or the C string of `eng_diag_audio`. -/
inductive DiagAnswer where
  | userVer (text : List UInt8) (short : text.length ≤ 248) (no_nul : 0 ∉ text)
  | userFactorymode
  | userAudio (text : List UInt8) (no_nul : 0 ∉ text)

/-- The text, of length `rlen`. -/
def DiagAnswer.text : DiagAnswer → List UInt8
  | .userVer text _ _ => text
  | .userFactorymode => []
  | .userAudio text _ => text

/-- What is copied behind the header: all of `rsp`, or the string of the audio handler. -/
def DiagAnswer.payload : DiagAnswer → List UInt8
  | .userAudio text _ => text
  | a => a.text ++ List.replicate (RSP_SIZE - a.text.length) 0

/-- The subtype that `eng_diag_factorymode` leaves in the request. -/
def factorymodeSubtype (buf : List UInt8) : UInt8 :=
  if buf.getD 9 0 = 0 ∨ buf.getD 9 0 = 1 then 0 else 1

/-- The header of the reply; `len` is an `unsigned short`. -/
def replyHead (a : DiagAnswer) (buf : List UInt8) : MsgHead :=
  let head := { readHead buf with len := (8 + a.text.length) % 65536 }
  match a with
  | .userVer _ _ _ => head
  | .userFactorymode => { head with subtype := factorymodeSubtype buf }
  | .userAudio _ _ =>
      { head with seqNum := [0, 0, 0, 0], type := 0x9C, subtype := 0, seqNum_length := rfl }

/-- `eng_diag_user_handle`: `eng_diag_buf` and `eng_diag_len`, from what the buffer held.
There is no result when a copy leaves the buffer. -/
def engDiagUserHandle (old : Buffer UInt8 (2 * ENG_DIAG_SIZE)) (a : DiagAnswer)
    (buf : List UInt8) : Option (Buffer UInt8 (2 * ENG_DIAG_SIZE) × ℕ) := do
  let head := replyHead a buf
  let b ← (old.set 0 0x7E).write? 1 head.bytes
  let b ← b.write? 9 a.payload
  if head.len + 1 < 2 * ENG_DIAG_SIZE then return (b.set (head.len + 1) 0x7E, head.len + 2)
  else none

/-- `eng_diag_buf[0..eng_diag_len)`. -/
def reply (old : Buffer UInt8 (2 * ENG_DIAG_SIZE)) (a : DiagAnswer) (buf : List UInt8) :
    Option (List UInt8) :=
  (engDiagUserHandle old a buf).map fun r => r.1.bytes.take r.2

/-! ## One frame -/

def WellFormed (r : List UInt8) : Prop := ∃ body, 0x7E ∉ body ∧ r = 0x7E :: (body ++ [0x7E])

/-- `get_user_diag_buf` finds the bytes `r`, all of them, as one frame. -/
def FoundWhole (r : List UInt8) : Prop :=
  ∃ s, getUserDiagBuf initUserDiagBuf r = (s, true) ∧
    s.extDataBuf.bytes.take (s.extBufLen + 1) = r

theorem getUserDiagBuf_body {body : List UInt8} (h : 0x7E ∉ body) {s : UserDiag}
    (hs : 0 < s.extBufLen) (hroom : s.extBufLen + body.length < DATA_EXT_DIAG_SIZE) :
    ∃ s', getUserDiagBuf s (body ++ [0x7E]) = (s', true) ∧
      s'.extDataBuf.bytes.take (s'.extBufLen + 1) = s.held ++ (body ++ [0x7E]) := by
  induction body generalizing s with
  | nil =>
      have hlt : s.extBufLen < DATA_EXT_DIAG_SIZE := by simpa using hroom
      refine ⟨s.put 0x7E, ?_, s.held_advance_put 0x7E hlt⟩
      rw [List.nil_append, getUserDiagBuf, dif_neg (by omega), dif_pos ⟨hs, hlt⟩, if_pos rfl]
  | cons b body ih =>
      rw [List.mem_cons, not_or] at h
      rw [List.length_cons] at hroom
      have hlt : s.extBufLen < DATA_EXT_DIAG_SIZE := by omega
      have hlen : ((s.put b).advance hlt).extBufLen = s.extBufLen + 1 := rfl
      have hheld : ((s.put b).advance hlt).held = s.held ++ [b] := s.held_advance_put b hlt
      obtain ⟨s', hrun, hs'⟩ := ih h.2 (s := (s.put b).advance hlt) (by omega) (by omega)
      refine ⟨s', ?_, ?_⟩
      · rw [List.cons_append, getUserDiagBuf, dif_neg (by omega), dif_pos ⟨hs, hlt⟩,
          if_neg (Ne.symm h.1), hrun]
      · rw [hs', hheld, List.append_assoc]
        rfl

theorem WellFormed.foundWhole {r : List UInt8} (h : WellFormed r)
    (hlen : r.length ≤ DATA_EXT_DIAG_SIZE) : FoundWhole r := by
  obtain ⟨body, hbody, rfl⟩ := h
  have hpos : initUserDiagBuf.extBufLen < DATA_EXT_DIAG_SIZE := by decide
  have hfirst : ((initUserDiagBuf.put 0x7E).advance hpos).extBufLen = 1 := rfl
  have hheld : ((initUserDiagBuf.put 0x7E).advance hpos).held = [0x7E] :=
    initUserDiagBuf.held_advance_put 0x7E hpos
  simp only [List.length_cons, List.length_append, List.length_nil] at hlen
  obtain ⟨s, hrun, hs⟩ := getUserDiagBuf_body hbody
    (s := (initUserDiagBuf.put 0x7E).advance hpos) (by omega) (by omega)
  refine ⟨s, ?_, ?_⟩
  · rw [getUserDiagBuf, dif_pos ⟨rfl, rfl⟩]
    exact hrun
  · rw [hs, hheld]
    rfl

theorem wellFormed_iff {mid : List UInt8} :
    WellFormed (0x7E :: (mid ++ [0x7E])) ↔ 0x7E ∉ mid := by
  constructor
  · rintro ⟨body, hbody, heq⟩
    rwa [List.append_cancel_right (List.cons.inj heq).2]
  · exact fun h => ⟨mid, h, rfl⟩

/-! ## The reply -/

theorem length_replyHead_bytes (a : DiagAnswer) (buf : List UInt8) :
    (replyHead a buf).bytes.length = 8 := (replyHead a buf).length_bytes

theorem replyHead_len (a : DiagAnswer) (buf : List UInt8) :
    (replyHead a buf).len = (8 + a.text.length) % 65536 := by
  cases a <;> rfl

/-- The text is at the start of what is copied, and the copy fits when the text does. -/
theorem payload_eq (a : DiagAnswer) :
    ∃ rest, a.payload = a.text ++ rest ∧
      (a.text.length + 10 ≤ 2 * ENG_DIAG_SIZE → 9 + a.payload.length ≤ 2 * ENG_DIAG_SIZE) := by
  cases a with
  | userVer text short _ =>
      refine ⟨List.replicate (RSP_SIZE - text.length) 0, rfl, fun _ => ?_⟩
      simp only [DiagAnswer.payload, DiagAnswer.text, List.length_append, List.length_replicate,
        RSP_SIZE, ENG_DIAG_SIZE]
      omega
  | userFactorymode =>
      refine ⟨DiagAnswer.userFactorymode.payload, (List.nil_append _).symm, fun _ => ?_⟩
      simp only [DiagAnswer.payload, DiagAnswer.text, List.length_append, List.length_replicate,
        RSP_SIZE, ENG_DIAG_SIZE]
      decide
  | userAudio text _ =>
      refine ⟨[], (List.append_nil text).symm, fun hfit => ?_⟩
      change 9 + text.length ≤ _
      change text.length + 10 ≤ _ at hfit
      omega

theorem reply_eq (old : Buffer UInt8 (2 * ENG_DIAG_SIZE)) (a : DiagAnswer) (buf : List UInt8)
    (hfit : a.text.length + 10 ≤ 2 * ENG_DIAG_SIZE) :
    reply old a buf = some (0x7E :: (((replyHead a buf).bytes ++ a.text) ++ [0x7E])) := by
  obtain ⟨rest, hpayload, hroom⟩ := payload_eq a
  have hhead := length_replyHead_bytes a buf
  have hlen : (replyHead a buf).len = 8 + a.text.length := by
    rw [replyHead_len]
    rw [ENG_DIAG_SIZE] at hfit
    exact Nat.mod_eq_of_lt (by omega)
  -- the three copies, each behind the one before
  let b := old.set 0 0x7E
  have hb : b.bytes.take 1 = [0x7E] := by
    have hpos : 0 < old.bytes.length := by
      rw [old.size_eq]
      decide
    obtain ⟨x, xs, hold⟩ := List.exists_cons_of_length_pos hpos
    simp [b, Buffer.set, hold]
  have hone : 1 + (replyHead a buf).bytes.length ≤ 2 * ENG_DIAG_SIZE := by
    rw [hhead]
    decide
  let c := b.write 1 (replyHead a buf).bytes hone
  have hc : c.bytes.take 9 = 0x7E :: (replyHead a buf).bytes := by
    have htake := @Splice.take_splice _ b.bytes (replyHead a buf).bytes 1
      (by rw [b.size_eq]; decide)
    rw [hb, hhead] at htake
    exact htake
  let d := c.write 9 a.payload (hroom hfit)
  have hd : d.bytes.take (9 + a.text.length) =
      0x7E :: ((replyHead a buf).bytes ++ a.text) := by
    have htake := @Splice.take_splice _ c.bytes a.payload 9
      (by rw [c.size_eq]; decide)
    have hpre : 0x7E :: ((replyHead a buf).bytes ++ a.text) <+: d.bytes := by
      refine List.IsPrefix.trans ⟨rest, ?_⟩ (List.take_prefix (9 + a.payload.length) d.bytes)
      rw [hc] at htake
      refine Eq.trans ?_ htake.symm
      rw [hpayload, List.cons_append, List.cons_append, List.append_assoc]
    have hcount : (0x7E :: ((replyHead a buf).bytes ++ a.text)).length = 9 + a.text.length := by
      rw [List.length_cons, List.length_append, hhead]
      omega
    rw [← hcount]
    exact (List.prefix_iff_eq_take.mp hpre).symm
  have hlast : 9 + a.text.length < d.bytes.length := by
    rw [d.size_eq]
    omega
  have hrun : engDiagUserHandle old a buf =
      some (d.set (9 + a.text.length) 0x7E, 10 + a.text.length) := by
    have hindex : 8 + a.text.length + 1 = 9 + a.text.length := by omega
    have htotal : 8 + a.text.length + 2 = 10 + a.text.length := by omega
    rw [engDiagUserHandle, Buffer.write?, dif_pos hone, Option.bind_eq_bind, Option.bind_some,
      Buffer.write?, dif_pos (hroom hfit), Option.bind_some, hlen,
      if_pos (by omega), hindex, htotal]
    rfl
  rw [reply, hrun, Option.map_some, Option.some.injEq]
  change (d.bytes.set (9 + a.text.length) 0x7E).take (10 + a.text.length) = _
  rw [show 10 + a.text.length = 9 + a.text.length + 1 by omega, List.take_add_one,
    List.take_set_of_le (Nat.le_refl _), hd]
  simp [hlast]

theorem reply_eq_none (old : Buffer UInt8 (2 * ENG_DIAG_SIZE)) (a : DiagAnswer)
    (buf : List UInt8) (hfit : ¬ a.text.length + 10 ≤ 2 * ENG_DIAG_SIZE) :
    reply old a buf = none := by
  obtain ⟨rest, hpayload, -⟩ := payload_eq a
  have hpl : a.text.length ≤ a.payload.length := by
    rw [hpayload, List.length_append]
    omega
  rw [reply, Option.map_eq_none_iff, engDiagUserHandle]
  cases hone : (old.set 0 0x7E).write? 1 (replyHead a buf).bytes with
  | none => rfl
  | some b =>
      rw [Option.bind_eq_bind, Option.bind_some]
      cases htwo : b.write? 9 a.payload with
      | none => rfl
      | some c =>
          have hroom := ((Buffer.write?_eq_some_iff _ _ _ _).mp htwo).1
          have hlen : (replyHead a buf).len = 8 + a.text.length := by
            rw [replyHead_len]
            rw [ENG_DIAG_SIZE] at hroom
            exact Nat.mod_eq_of_lt (by omega)
          rw [Option.bind_some, hlen, if_neg (by omega)]

/-- A byte of the received buffer behind the first flag is a flag only where the frame
ends. -/
theorem DiagFrame.getD_buf_eq_iff (f : DiagFrame) (i : ℕ) :
    f.buf.getD (i + 1) 0 = 0x7E ↔ f.body.length = i := by
  have hget : f.buf.getD (i + 1) 0 =
      (f.body ++ 0x7E :: List.replicate (DATA_EXT_DIAG_SIZE - (f.body.length + 2)) 0).getD i 0 :=
    rfl
  rw [hget]
  rcases Nat.lt_trichotomy i f.body.length with hlt | rfl | hgt
  · rw [List.getD_append _ _ _ _ hlt]
    refine iff_of_false (fun h => f.flag_not_mem ?_) (by omega)
    rw [List.getD_eq_getElem _ _ hlt] at h
    exact h ▸ List.getElem_mem hlt
  · rw [List.getD_append_right _ _ _ _ (Nat.le_refl _), Nat.sub_self]
    simp
  · rw [List.getD_append_right _ _ _ _ hgt.le]
    refine iff_of_false ?_ (by omega)
    obtain ⟨k, hk⟩ : ∃ k, i - f.body.length = k + 1 := ⟨i - f.body.length - 1, by omega⟩
    rw [hk, List.getD_cons_succ, List.getD_eq_getElem?_getD, List.getElem?_replicate]
    split_ifs <;> decide

/-- The frame does not end in the part of the request that goes into the reply. -/
def KeepsNoFlag (a : DiagAnswer) (f : DiagFrame) : Prop :=
  match a with
  | .userVer _ _ _ => f.body.length ∉ [0, 1, 2, 3, 6, 7]
  | .userFactorymode => f.body.length ∉ [0, 1, 2, 3, 6]
  | .userAudio _ _ => True

theorem ofNat_eq_flag_iff (n : ℕ) : (0x7E : UInt8) = UInt8.ofNat n ↔ n % 256 = 0x7E := by
  rw [eq_comm, ← UInt8.toNat_inj, UInt8.toNat_ofNat']
  rfl

theorem flag_mem_len_iff {n : ℕ} (hn : n < 65536 / 8) :
    (0x7E : UInt8) ∉ [UInt8.ofNat (n % 65536), UInt8.ofNat (n % 65536 / 256)] ↔
      n % 256 ≠ 0x7E := by
  have hhigh : ¬ n % 65536 / 256 % 256 = 0x7E := by omega
  have hlow : n % 65536 % 256 = n % 256 := by omega
  simp [ofNat_eq_flag_iff, hhigh, hlow]

theorem flag_not_mem_replyHead_iff (a : DiagAnswer) (f : DiagFrame)
    (hfit : a.text.length + 10 ≤ 2 * ENG_DIAG_SIZE) :
    0x7E ∉ (replyHead a f.buf).bytes ↔
      KeepsNoFlag a f ∧ (a.text.length + 8) % 256 ≠ 0x7E := by
  have hlt : 8 + a.text.length < 65536 / 8 := by
    rw [ENG_DIAG_SIZE] at hfit
    omega
  have hlen := flag_mem_len_iff hlt
  rw [Nat.add_comm 8] at hlen
  have hbytes : 0x7E ∉ (replyHead a f.buf).bytes ↔
      (0x7E ∉ (replyHead a f.buf).seqNum ∧ 0x7E ≠ (replyHead a f.buf).type ∧
        0x7E ≠ (replyHead a f.buf).subtype) ∧ (a.text.length + 8) % 256 ≠ 0x7E := by
    rw [← hlen, MsgHead.bytes, replyHead_len, Nat.add_comm 8]
    simp only [List.mem_append, List.mem_cons, List.not_mem_nil, or_false, not_or]
    tauto
  rw [hbytes]
  refine and_congr ?_ Iff.rfl
  have hat : ∀ i, (0x7E : UInt8) = f.buf.getD (i + 1) 0 ↔ f.body.length = i :=
    fun i => eq_comm.trans (f.getD_buf_eq_iff i)
  cases a with
  | userVer text _ _ =>
      simp only [replyHead, readHead, KeepsNoFlag, List.mem_cons, List.not_mem_nil, or_false,
        not_or, hat, ne_eq]
      tauto
  | userFactorymode =>
      have hsub : (0x7E : UInt8) ≠ factorymodeSubtype f.buf := by
        unfold factorymodeSubtype
        split_ifs <;> decide
      simp only [replyHead, readHead, KeepsNoFlag, List.mem_cons, List.not_mem_nil, or_false,
        not_or, hat, ne_eq, hsub]
      tauto
  | userAudio text _ => simp [replyHead, KeepsNoFlag]

/-- The reply to a received frame is one frame, and comes back as one, exactly when it
fits, none of the kept header bytes is the end of a short request, the low byte of the
length is not a flag and the text has no flag. -/
theorem reply_wellFormed_iff (old : Buffer UInt8 (2 * ENG_DIAG_SIZE)) (a : DiagAnswer)
    (f : DiagFrame) :
    (∃ r, reply old a f.buf = some r ∧ WellFormed r ∧ FoundWhole r) ↔
      a.text.length + 10 ≤ 2 * ENG_DIAG_SIZE ∧ KeepsNoFlag a f ∧
        (a.text.length + 8) % 256 ≠ 0x7E ∧ 0x7E ∉ a.text := by
  by_cases hfit : a.text.length + 10 ≤ 2 * ENG_DIAG_SIZE
  · rw [reply_eq old a f.buf hfit]
    have hmid : 0x7E ∉ (replyHead a f.buf).bytes ++ a.text ↔
        KeepsNoFlag a f ∧ (a.text.length + 8) % 256 ≠ 0x7E ∧ 0x7E ∉ a.text := by
      rw [List.mem_append, not_or, flag_not_mem_replyHead_iff a f hfit, and_assoc]
    constructor
    · rintro ⟨r, hr, hwell, -⟩
      rw [← Option.some.inj hr, wellFormed_iff, hmid] at hwell
      exact ⟨hfit, hwell⟩
    · rintro ⟨-, hok⟩
      have hwell := wellFormed_iff.mpr (hmid.mpr hok)
      refine ⟨_, rfl, hwell, hwell.foundWhole ?_⟩
      simp only [List.length_cons, List.length_append, List.length_nil, MsgHead.length_bytes]
      rw [ENG_DIAG_SIZE] at hfit
      rw [DATA_EXT_DIAG_SIZE]
      omega
  · rw [reply_eq_none old a f.buf hfit]
    simp [hfit]

/-- An audio mode with the name `~`: its reply has a flag in the text. -/
theorem reply_not_wellFormed :
    let f : DiagFrame := ⟨[0, 0, 0, 0, 24, 0, 0x68, 0] ++
      "AT+SADM4AP=8,0\r".toList.map fun c => UInt8.ofNat c.toNat, by decide, by decide⟩
    let a : DiagAnswer := .userAudio
      ("+SADM4AP: 0,\"~\"".toList.map fun c => UInt8.ofNat c.toNat) (by decide)
    ¬ ∃ r, reply (Buffer.fill _ 0) a f.buf = some r ∧ WellFormed r := by
  rintro f a ⟨r, hr, hwell⟩
  rw [reply_eq _ a f.buf (by decide)] at hr
  rw [← Option.some.inj hr, wellFormed_iff, List.mem_append, not_or] at hwell
  exact hwell.2 (by decide)

end Engcs

end Tarako
