import Tarako.NvmDaemon.Alignment
import Tarako.NvmDaemon.NvItem

/-!
# The image after a request to the fixed NV

The image of the file is loaded into the buffer, the payload is copied over it chunk by
chunk, and the buffer is stamped with its checksum, the next index and the end mark, and
written back. What the payload puts where the stamps stand is lost.
-/

namespace Tarako

namespace NvmDaemon

open Words Splice State

/-- The payload comes in with these turns, in which a `read` may fail and the image is
written as a whole. -/
inductive Delivers : List UInt8 → List Env → Prop
  | done : Delivers [] []
  | retry {payload : List UInt8} {e : Env} {es : List Env} (hread : e.read = none)
      (hrest : Delivers payload es) : Delivers payload (e :: es)
  | chunk {c payload : List UInt8} {e : Env} {es : List Env} (hread : e.read = some c)
      (hne : c ≠ []) (hlen : c.length ≤ DATA_BUF_LEN)
      (hwrite : e.fixnv = some ((FIXNV_SIZE + 4 : ℕ) : Int)) (hrest : Delivers payload es) :
      Delivers (c ++ payload) (e :: es)

def fixnvIndex (image : List UInt8) : UInt16 :=
  word16 (image.getD (FIXNV_SIZE - 2) 0) (image.getD (FIXNV_SIZE - 1) 0)

/-- What is written back for a payload. -/
structure Updated (old : List UInt8) (offset : ℕ) (payload image : List UInt8) : Prop where
  length : image.length = FIXNV_SIZE + 4
  content : image.take (FIXNV_SIZE - 4) = (splice old offset payload).take (FIXNV_SIZE - 4)
  checksum : (image.drop (FIXNV_SIZE - 4)).take 2 =
    bytes16 (referenceChecksum (image.take (FIXNV_SIZE - 4)))
  index : (image.drop (FIXNV_SIZE - 2)).take 2 =
    bytes16 (UInt16.ofNat (((fixnvIndex old).toNat + 1) % 100))
  mark : image.drop FIXNV_SIZE = [0x5A, 0x5A, 0x5A, 0x5A]

/-! ### The stamps -/

theorem bytes_stampFixnv (buffer : Buffer UInt8 (FIXNV_SIZE + 4)) (indexvalue : UInt16) :
    (stampFixnv buffer indexvalue).bytes = buffer.bytes.take (FIXNV_SIZE - 4) ++
      (bytes16 (calcChecksum (buffer.bytes.take (FIXNV_SIZE - 4))) ++
        bytes16 (nextIndex indexvalue) ++ [0x5A, 0x5A, 0x5A, 0x5A]) := by
  obtain ⟨sum, hsum⟩ :
      ∃ c, calcChecksum (buffer.bytes.take (FIXNV_SIZE - 4)) = c := ⟨_, rfl⟩
  have hlen : buffer.bytes.length = 65540 := buffer.size_eq
  have hindex : splice (splice buffer.bytes 65532 (bytes16 sum)) 65534
      (bytes16 (nextIndex indexvalue)) =
        splice buffer.bytes 65532 (bytes16 sum ++ bytes16 (nextIndex indexvalue)) :=
    splice_append (show 65532 + 2 ≤ buffer.bytes.length by omega)
  have hmark : splice (splice buffer.bytes 65532 (bytes16 sum ++ bytes16 (nextIndex indexvalue)))
      65536 [0x5A, 0x5A, 0x5A, 0x5A] = splice buffer.bytes 65532
        (bytes16 sum ++ bytes16 (nextIndex indexvalue) ++ [0x5A, 0x5A, 0x5A, 0x5A]) :=
    splice_append (show 65532 + 4 ≤ buffer.bytes.length by omega)
  have hend : buffer.bytes.drop 65540 = [] := List.drop_eq_nil_of_le (by omega)
  rw [hsum]
  change splice (splice (splice buffer.bytes 65532
    (bytes16 (calcChecksum (buffer.bytes.take (FIXNV_SIZE - 4))))) 65534
      (bytes16 (nextIndex indexvalue))) 65536 [0x5A, 0x5A, 0x5A, 0x5A] = _
  rw [hsum, hindex, hmark]
  change buffer.bytes.take 65532 ++ (_ ++ buffer.bytes.drop 65540) = _
  rw [hend, List.append_nil]
  rfl

theorem updated_stampFixnv {old payload : List UInt8} {offset : ℕ}
    (buffer : Buffer UInt8 (FIXNV_SIZE + 4)) (hbuffer : buffer.bytes = splice old offset payload) :
    Updated old offset payload (stampFixnv buffer (fixnvIndex old)).bytes := by
  have hlen : (buffer.bytes.take (FIXNV_SIZE - 4)).length = FIXNV_SIZE - 4 :=
    List.length_take_of_le (by rw [buffer.size_eq]; decide)
  have htake : (stampFixnv buffer (fixnvIndex old)).bytes.take (FIXNV_SIZE - 4) =
      buffer.bytes.take (FIXNV_SIZE - 4) := by
    rw [bytes_stampFixnv, List.take_left' hlen]
  have hdrop : (stampFixnv buffer (fixnvIndex old)).bytes.drop (FIXNV_SIZE - 4) =
      bytes16 (calcChecksum (buffer.bytes.take (FIXNV_SIZE - 4))) ++
        bytes16 (nextIndex (fixnvIndex old)) ++ [0x5A, 0x5A, 0x5A, 0x5A] := by
    rw [bytes_stampFixnv, List.drop_left' hlen]
  have hdropIndex : (stampFixnv buffer (fixnvIndex old)).bytes.drop (FIXNV_SIZE - 2) =
      bytes16 (nextIndex (fixnvIndex old)) ++ [0x5A, 0x5A, 0x5A, 0x5A] := by
    have hadd : FIXNV_SIZE - 2 = FIXNV_SIZE - 4 + 2 := rfl
    rw [hadd, ← List.drop_drop, hdrop]
    rfl
  have hdropMark : (stampFixnv buffer (fixnvIndex old)).bytes.drop FIXNV_SIZE =
      [0x5A, 0x5A, 0x5A, 0x5A] := by
    have hmark := congrArg (List.drop 4) hdrop
    rw [List.drop_drop] at hmark
    exact hmark
  exact
    { length := (stampFixnv buffer (fixnvIndex old)).size_eq
      content := by rw [htake, hbuffer]
      checksum := by
        have hsmall : (buffer.bytes.take (FIXNV_SIZE - 4)).length < 2 ^ 17 := by
          rw [hlen]
          decide
        rw [htake, hdrop, calcChecksum_eq hsmall]
        rfl
      index := by
        rw [hdropIndex]
        rfl
      mark := hdropMark }

/-! ### The payload -/

theorem run_of_delivers_nil {payload : List UInt8} {es : List Env} (h : Delivers payload es)
    (hnil : payload = []) (s : State) : Run.run State.step s es = s := by
  induction h with
  | done => rfl
  | retry hread _ ih => rw [Run.run_cons, step_of_none hread, ih hnil]
  | chunk _ hne => exact absurd (List.append_eq_nil_iff.mp hnil).1 hne

theorem complete_fixnv {s : State} (hlength : s.length = .fixnv) (e : Env)
    (hwrite : e.fixnv = some ((FIXNV_SIZE + 4 : ℕ) : Int)) :
    (s.complete e).control = .header ∧
      (s.complete e).fixnv =
        writeAt 0 s.fixnv 0 (stampFixnv s.fixnvBuffer s.indexvalue).bytes := by
  have himage : ∀ buffer : Buffer UInt8 (FIXNV_SIZE + 4),
      writtenBy buffer.bytes e.fixnv = buffer.bytes := fun buffer => by
    rw [hwrite]
    exact List.take_of_length_le (Nat.le_of_eq buffer.size_eq)
  simp only [complete, hlength, updateFixnvfile, himage, and_self]

theorem storeFixnv_of_eq {s : State} {bytes : List UInt8} (hlength : s.length = .fixnv)
    (hfits : s.fixnvBufferOffset.toNat + bytes.length ≤ FIXNV_SIZE + 4)
    (heq : s.total = bytes.length) (e : Env)
    (hwrite : e.fixnv = some ((FIXNV_SIZE + 4 : ℕ) : Int)) :
    (s.storeFixnv bytes e).control = .header ∧
      (s.storeFixnv bytes e).fixnv = writeAt 0 s.fixnv 0
        (stampFixnv (s.fixnvBuffer.write s.fixnvBufferOffset.toNat bytes hfits)
          s.indexvalue).bytes := by
  have hstore : s.fixnvBuffer.write? s.fixnvBufferOffset.toNat bytes =
      some (s.fixnvBuffer.write s.fixnvBufferOffset.toNat bytes hfits) := dif_pos hfits
  have hzero : s.total - (bytes.length : Int) ≤ 0 := by omega
  simp only [storeFixnv, log, hstore, advance]
  rw [loopTest_of_nonpos hzero]
  refine complete_fixnv ?_ e hwrite
  exact hlength

theorem run_payload {payload : List UInt8} {es : List Env} (h : Delivers payload es) :
    ∀ s : State, payload ≠ [] → s.control = .payload → s.length = .fixnv →
      s.total = payload.length →
        ∀ hfits : s.fixnvBufferOffset.toNat + payload.length ≤ FIXNV_SIZE + 4,
          (Run.run State.step s es).control = .header ∧
            (Run.run State.step s es).fixnv = writeAt 0 s.fixnv 0
              (stampFixnv (s.fixnvBuffer.write s.fixnvBufferOffset.toNat payload hfits)
                s.indexvalue).bytes := by
  induction h with
  | done => exact fun s hne => absurd rfl hne
  | retry hread _ ih =>
      intro s
      rw [Run.run_cons, step_of_none hread]
      exact ih s
  | @chunk c payload e es hread hne hlen hwrite hrest ih =>
      intro s _ hcontrol hlength htotal hfits
      rw [List.length_append] at htotal hfits
      have hchunk : s.chunk c = c := List.take_of_length_le (by omega)
      rw [Run.run_cons, step_of_payload hcontrol hread hne, hchunk]
      have hstore : (s.log (.readPayload c)).store c e =
          (s.log (.readPayload c)).storeFixnv c e := by
        rw [store, length_log, hlength]
      rw [hstore]
      by_cases hlast : payload = []
      · subst hlast
        rw [run_of_delivers_nil hrest rfl]
        simp only [List.append_nil]
        exact storeFixnv_of_eq (s := s.log (.readPayload c)) hlength hfits htotal e hwrite
      · have hrestLen : 0 < payload.length := List.length_pos_iff.mpr hlast
        have hoffset : (s.fixnvBufferOffset + UInt32.ofNat c.length).toNat =
            s.fixnvBufferOffset.toNat + c.length := by
          have hsize : FIXNV_SIZE + 4 < 2 ^ 32 := by decide
          rw [UInt32.toNat_add, UInt32.toNat_ofNat_of_lt' (show c.length < 2 ^ 32 by omega)]
          exact Nat.mod_eq_of_lt (by omega)
        have hchunkFits : s.fixnvBufferOffset.toNat + c.length ≤ FIXNV_SIZE + 4 := by omega
        have hlt : (c.length : Int) < s.total := by omega
        rw [storeFixnv_of_lt (s := s.log (.readPayload c)) hchunkFits hlt]
        have hrun := ih
          { s with
            control := .payload
            total := s.total - c.length
            fixnvBuffer := s.fixnvBuffer.write s.fixnvBufferOffset.toNat c hchunkFits
            fixnvBufferOffset := s.fixnvBufferOffset + UInt32.ofNat c.length
            trace := .memcpyFixnv s.fixnvBufferOffset c.length :: .readPayload c :: s.trace }
          hlast rfl hlength (by rw [htotal]; simp) (by rw [hoffset]; omega)
        have hwrites : ((s.fixnvBuffer.write s.fixnvBufferOffset.toNat c hchunkFits).write
            (s.fixnvBufferOffset + UInt32.ofNat c.length).toNat payload
              (by rw [hoffset]; omega)) =
            s.fixnvBuffer.write s.fixnvBufferOffset.toNat (c ++ payload)
              (by rw [List.length_append]; exact hfits) := by
          apply Buffer.ext
          simp only [Buffer.write, hoffset]
          exact splice_append (by rw [s.fixnvBuffer.size_eq]; exact hchunkFits)
        rw [hwrites] at hrun
        exact hrun

/-! ### The request -/

theorem bytes_load_fixnv {old : List UInt8} (hlen : old.length = FIXNV_SIZE + 4) :
    ((Buffer.fill (FIXNV_SIZE + 4) (0xFF : UInt8)).load old).bytes = old := by
  rw [Buffer.load_bytes_of_length (Nat.le_of_eq hlen.symm), ← hlen, List.take_length]

theorem updated_of_write {old payload : List UInt8} {offset : ℕ}
    (hlen : old.length = FIXNV_SIZE + 4)
    (hfits : offset + payload.length ≤ FIXNV_SIZE + 4) :
    Updated old offset payload (writeAt 0 old 0
      (stampFixnv (((Buffer.fill (FIXNV_SIZE + 4) 0xFF).load old).write offset payload hfits)
        (fixnvIndex old)).bytes) := by
  obtain ⟨buffer, hbuffer⟩ : ∃ b, ((Buffer.fill (FIXNV_SIZE + 4) (0xFF : UInt8)).load old).write
    offset payload hfits = b := ⟨_, rfl⟩
  have hbytes : buffer.bytes = splice old offset payload := by
    rw [← hbuffer]
    exact congrArg (splice · offset payload) (bytes_load_fixnv hlen)
  rw [hbuffer]
  have hwhole : writeAt 0 old 0 (stampFixnv buffer (fixnvIndex old)).bytes =
      (stampFixnv buffer (fixnvIndex old)).bytes := by
    have hsize := (stampFixnv buffer (fixnvIndex old)).size_eq
    have hne : (stampFixnv buffer (fixnvIndex old)).bytes ≠ [] :=
      List.ne_nil_of_length_pos (by rw [hsize]; decide)
    rw [writeAt, if_neg hne, Nat.zero_sub, List.replicate_zero, List.append_nil]
    exact splice_zero_of_length_le (by rw [hsize, hlen])
  rw [hwhole]
  exact updated_stampFixnv buffer hbytes

/-- A data request to the fixed NV leaves the old image with the payload laid over it and
with new stamps, whatever chunks the payload comes in. -/
theorem fixnv_update (s : State) (hcontrol : s.control = .header)
    (hold : s.fixnv.length = FIXNV_SIZE + 4) (h : RequestHeader) (hdata : h.reqType ≠ 1)
    (htype : h.type = 0) (hrange : h.offset.toNat + h.size.toNat ≤ FIXNV_SIZE)
    (payload : List UInt8) (hsize : payload.length = h.size.toNat) (e : Env)
    (hread : e.read = some h.encode) (hopen : e.openFile = true)
    (hbase : ((FIXNV_SIZE + 4 : ℕ) : Int) ≤ e.readBase)
    (hwrite : e.fixnv = some ((FIXNV_SIZE + 4 : ℕ) : Int)) (es : List Env)
    (hes : Delivers payload es) :
    (Run.run State.step s (e :: es)).control = .header ∧
      Updated s.fixnv h.offset.toNat payload (Run.run State.step s (e :: es)).fixnv := by
  have hheader := s.header_receive_encode h
  have hstep : s.step e = (s.receive h.encode).interpret e :=
    step_of_read hcontrol hread (List.ne_nil_of_length_pos (by rw [h.length_encode]; decide))
  have hfixnv := interpret_of_fixnv (s := s.receive h.encode) (by rw [hheader]; exact hdata)
    (by rw [hheader]; exact htype) e
  have htotal : h.total = payload.length := by
    have hsmall : FIXNV_SIZE < 2147483648 := by decide
    rw [RequestHeader.total, if_pos (by omega), hsize]
  have hfits : h.offset.toNat + payload.length ≤ FIXNV_SIZE + 4 := by omega
  have hload : (Buffer.fill (FIXNV_SIZE + 4) (0xFF : UInt8)).load
      (readBy (FIXNV_SIZE + 4) s.fixnv e.readBase) =
        (Buffer.fill (FIXNV_SIZE + 4) 0xFF).load s.fixnv := by
    rw [readBy_of_le (Nat.le_of_eq hold) hbase]
  obtain ⟨opened, hopened, hlength, htotalOpened, hoffset, hbuffer, hfile, hindex⟩ :
      ∃ o : State, s.step e = o.loopTest e ∧ o.length = .fixnv ∧ o.total = payload.length ∧
        o.fixnvBufferOffset = h.offset ∧
        o.fixnvBuffer = (Buffer.fill (FIXNV_SIZE + 4) 0xFF).load s.fixnv ∧
        o.fixnv = s.fixnv ∧ o.indexvalue = fixnvIndex s.fixnv := by
    have hindex : fixnvIndex ((Buffer.fill (FIXNV_SIZE + 4) (0xFF : UInt8)).load
        (readBy (FIXNV_SIZE + 4) s.fixnv e.readBase)).bytes = fixnvIndex s.fixnv := by
      rw [hload, bytes_load_fixnv hold]
    rw [hstep, hfixnv, openFixnv, hopen, if_neg (by decide), header_log, hheader]
    exact ⟨_, rfl, rfl, htotal, rfl, hload, rfl, hindex⟩
  have hupdated := updated_of_write hold hfits
  rw [Run.run_cons, hopened]
  by_cases hempty : payload = []
  · subst hempty
    have hnothing : ((Buffer.fill (FIXNV_SIZE + 4) (0xFF : UInt8)).load s.fixnv).write
        h.offset.toNat [] hfits = (Buffer.fill (FIXNV_SIZE + 4) 0xFF).load s.fixnv :=
      Buffer.ext (splice_nil _ _)
    obtain ⟨hdone, himage⟩ := complete_fixnv hlength e hwrite
    rw [hnothing] at hupdated
    rw [run_of_delivers_nil hes rfl, loopTest_of_nonpos (Int.le_of_eq htotalOpened)]
    rw [hbuffer, hfile, hindex] at himage
    rw [himage]
    exact ⟨hdone, hupdated⟩
  · have hpos : 0 < opened.total := by
      rw [htotalOpened]
      exact Int.natCast_pos.mpr (List.length_pos_iff.mpr hempty)
    rw [loopTest_of_pos hpos]
    have hrun := run_payload hes { opened with control := .payload } hempty rfl hlength
      htotalOpened (by rw [hoffset]; exact hfits)
    refine ⟨hrun.1, ?_⟩
    rw [hrun.2]
    simpa only [hoffset, hbuffer, hfile, hindex] using hupdated

def zeroBoot : Boot := { Boot.empty with fixnv := List.replicate (FIXNV_SIZE + 4) 0 }

theorem fixnv_update_one :
    (Run.run State.step (init zeroBoot)
        [.reads (RequestHeader.encode ⟨0, 0, 5, 1⟩), .reads [7]]).control = .header ∧
      Updated zeroBoot.fixnv 5 [7] (Run.run State.step (init zeroBoot)
        [.reads (RequestHeader.encode ⟨0, 0, 5, 1⟩), .reads [7]]).fixnv :=
  fixnv_update (init zeroBoot) rfl List.length_replicate ⟨0, 0, 5, 1⟩ (by decide) rfl (by decide)
    [7] rfl (.reads (RequestHeader.encode ⟨0, 0, 5, 1⟩)) rfl rfl (Int.le_refl _) rfl [.reads [7]]
    (.chunk (c := [7]) rfl (by decide) (by decide) rfl .done)

end NvmDaemon

end Tarako
