import Mathlib.Data.List.DropRight
import Tarako.NvmDaemon.Bless
import Tarako.NvmDaemon.FixnvImage
import Tarako.NvmDaemon.Stream

/-!
# What the requests make of the NV images

A `Store` is the NV memory as the modem sees it: a request is done at once, and a sync command
copies the fixed NV into its backup. `run_serves` says that the daemon refines it: whatever
chunks the requests come in, the files between two requests are those of the store after the
requests so far, and the daemon neither stops nor leaves its buffers, as long as headers and
the images that requests start from are read whole, files can be opened and writes are
complete.
-/

namespace Tarako

namespace NvmDaemon

open Words Splice State

/-! ## The store -/

/-- The files, and the image that the next sync command puts into the backup. -/
structure Store where
  fixnv : List UInt8
  backupfixnv : List UInt8
  runtimenv : List UInt8
  runtimenvbkup : List UInt8
  productinfo : List UInt8
  productinfobkup : List UInt8
  unsynced : Option (List UInt8)

/-- The first `n` bytes of a file, filled up with `0xFF`. -/
def padded (n : ℕ) (file : List UInt8) : List UInt8 := ((Buffer.fill n 0xFF).load file).bytes

def indexAfter (image : List UInt8) (n : ℕ) : UInt16 :=
  UInt16.ofNat (((word16 (image.getD n 0) (image.getD (n + 1) 0)).toNat + 1) % 100)

/-- The image of the fixed NV with a payload laid over it: its checksum, the next index and the
end mark stand behind it. -/
def fixnvWith (file : List UInt8) (offset : ℕ) (payload : List UInt8) : List UInt8 :=
  let old := padded (FIXNV_SIZE + 4) file
  let content := (splice old offset payload).take (FIXNV_SIZE - 4)
  content ++ (bytes16 (referenceChecksum content) ++ bytes16 (indexAfter old (FIXNV_SIZE - 2)) ++
    [0x5A, 0x5A, 0x5A, 0x5A])

def productinfoWith (file : List UInt8) (offset : ℕ) (payload : List UInt8) : List UInt8 :=
  let old := padded (PRODUCTINFO_SIZE + 8) (file.take (PRODUCTINFO_SIZE + 4))
  let content := (splice old offset payload).take PRODUCTINFO_SIZE
  content ++ (bytes16 (referenceChecksum content) ++ bytes16 (indexAfter old (PRODUCTINFO_SIZE + 2)))

namespace Store

/-- The runtime NV with bytes written at an offset, in both files. -/
def writeRuntime (st : Store) (offset : ℕ) (bytes : List UInt8) : Store :=
  { st with
    runtimenv := writeAt 0 st.runtimenv offset bytes
    runtimenvbkup := writeAt 0 st.runtimenvbkup offset bytes }

def sync (st : Store) : Store :=
  match st.unsynced with
  | none => st
  | some image => { st with backupfixnv := writeAt 0 st.backupfixnv 0 image, unsynced := none }

def apply (st : Store) (r : Request) : Store :=
  let offset := r.header.offset.toNat
  if r.header.reqType = 1 then st.sync
  else if r.header.type = 0 then
    let image := fixnvWith st.fixnv offset r.payload
    { st with fixnv := writeAt 0 st.fixnv 0 image, unsynced := some image }
  else if r.header.type = 1 then st.writeRuntime offset r.payload
  else
    let image := productinfoWith st.productinfo offset r.payload
    { st with
      productinfo := writeAt 0 st.productinfo 0 image
      productinfobkup := writeAt 0 st.productinfobkup 0 image }

def ofBoot (b : Boot) : Store :=
  ⟨b.fixnv, b.backupfixnv, b.runtimenv, b.runtimenvbkup, b.productinfo, b.productinfobkup, none⟩

def after (b : Boot) (rs : List Request) : Store := rs.foldl apply (ofBoot b)

theorem after_append (b : Boot) (rs : List Request) (r : Request) :
    after b (rs ++ [r]) = (after b rs).apply r := List.foldl_concat ..

variable {st : Store} {r : Request}

theorem apply_of_sync (hsync : r.header.reqType = 1) : st.apply r = st.sync := if_pos hsync

theorem apply_of_fixnv (hdata : r.header.reqType ≠ 1) (htype : r.header.type = 0) :
    st.apply r =
      { st with
        fixnv := writeAt 0 st.fixnv 0 (fixnvWith st.fixnv r.header.offset.toNat r.payload)
        unsynced := some (fixnvWith st.fixnv r.header.offset.toNat r.payload) } := by
  rw [apply, if_neg hdata, if_pos htype]

theorem apply_of_runtime (hdata : r.header.reqType ≠ 1) (htype : r.header.type = 1) :
    st.apply r = st.writeRuntime r.header.offset.toNat r.payload := by
  rw [apply, if_neg hdata, if_neg (by rw [htype]; decide), if_pos htype]

theorem apply_of_productinfo (hdata : r.header.reqType ≠ 1) (htype : r.header.type = 2) :
    st.apply r =
      { st with
        productinfo := writeAt 0 st.productinfo 0
          (productinfoWith st.productinfo r.header.offset.toNat r.payload)
        productinfobkup := writeAt 0 st.productinfobkup 0
          (productinfoWith st.productinfo r.header.offset.toNat r.payload) } := by
  rw [apply, if_neg hdata, if_neg (by rw [htype]; decide), if_neg (by rw [htype]; decide)]

end Store

/-! ## What is asked of the requests and of a turn -/

/-- A sync command, or a request whose range lies in its image. -/
def Request.InRange (r : Request) : Prop :=
  r.header.reqType = 1 ∨ r.header.reqType ≠ 1 ∧
    (r.header.type = 0 ∧ r.header.stop ≤ FIXNV_SIZE ∨
      r.header.type = 1 ∧ r.header.offset.toNat < 2147483648 ∧ r.header.size.toNat < 2147483648 ∨
      r.header.type = 2 ∧ r.header.stop ≤ PRODUCTINFO_SIZE)

/-- Headers and base images are read whole, files can be opened and writes are complete. -/
structure Complete (s : State) (e : Env) : Prop where
  reads : ReadsWhole s e
  readBase : ((FIXNV_SIZE + 4 : ℕ) : Int) ≤ e.readBase
  openFile : e.openFile = true
  openBackup : e.openBackup = true
  fixnv : e.fixnv = some ((FIXNV_SIZE + 4 : ℕ) : Int)
  backupfixnv : e.backupfixnv = some ((FIXNV_SIZE + 4 : ℕ) : Int)
  productinfo : e.productinfo = some ((PRODUCTINFO_SIZE + 4 : ℕ) : Int)
  productinfobkup : e.productinfobkup = some ((PRODUCTINFO_SIZE + 4 : ℕ) : Int)
  runtime : s.control = .payload → ∀ bytes, e.read = some bytes →
    ((s.chunk bytes).length : Int) ≤ e.writeRuntime ∧
      ((s.chunk bytes).length : Int) ≤ e.writeRuntimeBackup

/-! ## Stamped images -/

theorem bytes_stampFixnv_eq {file payload : List UInt8} {offset : ℕ}
    {buffer : Buffer UInt8 (FIXNV_SIZE + 4)}
    (hbuffer : buffer.bytes = splice (padded (FIXNV_SIZE + 4) file) offset payload)
    {indexvalue : UInt16} (hindex : indexvalue = fixnvIndex (padded (FIXNV_SIZE + 4) file)) :
    (stampFixnv buffer indexvalue).bytes = fixnvWith file offset payload := by
  have hlen : (buffer.bytes.take (FIXNV_SIZE - 4)).length < 2 ^ 17 := by
    rw [List.length_take, buffer.size_eq]
    decide
  rw [bytes_stampFixnv, calcChecksum_eq hlen, hbuffer, hindex]
  rfl

theorem bytes_stampPhasecheck (buffer : Buffer UInt8 (PRODUCTINFO_SIZE + 8))
    (indexvalue : UInt16) :
    (stampPhasecheck buffer indexvalue).bytes.take (PRODUCTINFO_SIZE + 4) =
      buffer.bytes.take PRODUCTINFO_SIZE ++
        (bytes16 (calcChecksum (buffer.bytes.take PRODUCTINFO_SIZE)) ++
          bytes16 (nextIndex indexvalue)) := by
  obtain ⟨sum, hsum⟩ : ∃ c, calcChecksum (buffer.bytes.take PRODUCTINFO_SIZE) = c := ⟨_, rfl⟩
  have hlen : buffer.bytes.length = PRODUCTINFO_SIZE + 8 := buffer.size_eq
  have hindex : splice (splice buffer.bytes PRODUCTINFO_SIZE (bytes16 sum)) (PRODUCTINFO_SIZE + 2)
      (bytes16 (nextIndex indexvalue)) =
        splice buffer.bytes PRODUCTINFO_SIZE (bytes16 sum ++ bytes16 (nextIndex indexvalue)) :=
    splice_append_of_le (by omega)
  rw [hsum]
  change (splice (splice buffer.bytes PRODUCTINFO_SIZE
    (bytes16 (calcChecksum (buffer.bytes.take PRODUCTINFO_SIZE)))) (PRODUCTINFO_SIZE + 2)
      (bytes16 (nextIndex indexvalue))).take (PRODUCTINFO_SIZE + 4) = _
  rw [hsum, hindex]
  exact take_splice (d := bytes16 sum ++ bytes16 (nextIndex indexvalue)) (by omega)

theorem bytes_stampPhasecheck_eq {file payload : List UInt8} {offset : ℕ}
    {buffer : Buffer UInt8 (PRODUCTINFO_SIZE + 8)}
    (hbuffer : buffer.bytes = splice (padded (PRODUCTINFO_SIZE + 8)
      (file.take (PRODUCTINFO_SIZE + 4))) offset payload) {indexvalue : UInt16}
    (hindex : nextIndex indexvalue = indexAfter (padded (PRODUCTINFO_SIZE + 8)
      (file.take (PRODUCTINFO_SIZE + 4))) (PRODUCTINFO_SIZE + 2)) :
    (stampPhasecheck buffer indexvalue).bytes.take (PRODUCTINFO_SIZE + 4) =
      productinfoWith file offset payload := by
  have hlen : (buffer.bytes.take PRODUCTINFO_SIZE).length < 2 ^ 17 := by
    rw [List.length_take, buffer.size_eq]
    decide
  rw [bytes_stampPhasecheck, calcChecksum_eq hlen, hbuffer, hindex]
  rfl

/-! ## The daemon and the store -/

/-- The files are those of the store, and what the next sync command writes is what the store
has not synced. -/
structure Matches (st : Store) (s : State) : Prop where
  fixnv : s.fixnv = st.fixnv
  backupfixnv : s.backupfixnv = st.backupfixnv
  runtimenv : s.runtimenv = st.runtimenv
  runtimenvbkup : s.runtimenvbkup = st.runtimenvbkup
  productinfo : s.productinfo = st.productinfo
  productinfobkup : s.productinfobkup = st.productinfobkup
  flag : s.updateFinxnFlag = st.unsynced.isSome
  buffer : ∀ image ∈ st.unsynced, s.fixnvBuffer.bytes = image

/-- The payload loop of the request `r`, with `p` of its payload read. In the one of the fixed NV
the buffer is not the image that is to be synced any more, though the flag stays. -/
inductive Loading (st : Store) (r : Request) (p : List UInt8) (s : State) : Prop
  | fixnv (hdata : r.header.reqType ≠ 1) (htype : r.header.type = 0) (hlength : s.length = .fixnv)
      (hbuffer : s.fixnvBuffer.bytes =
        splice (padded (FIXNV_SIZE + 4) st.fixnv) r.header.offset.toNat p)
      (hoffset : s.fixnvBufferOffset.toNat = r.header.offset.toNat + p.length)
      (hindex : s.indexvalue = fixnvIndex (padded (FIXNV_SIZE + 4) st.fixnv))
      (hflag : s.updateFinxnFlag = st.unsynced.isSome)
      (hmatches : Matches { st with unsynced := none }
        { s with updateFinxnFlag := false })
  | runtime (hdata : r.header.reqType ≠ 1) (htype : r.header.type = 1)
      (hlength : s.length = .runtime)
      (hpos : s.runtimePos = r.header.offset.toNat + p.length)
      (hbackupPos : s.runtimeBackupPos = r.header.offset.toNat + p.length)
      (hmatches : Matches (st.writeRuntime r.header.offset.toNat p) s)
  | productinfo (hdata : r.header.reqType ≠ 1) (htype : r.header.type = 2)
      (hlength : s.length = .productinfo)
      (hbuffer : s.phasecheckBuffer.bytes = splice (padded (PRODUCTINFO_SIZE + 8)
        (st.productinfo.take (PRODUCTINFO_SIZE + 4))) r.header.offset.toNat p)
      (hoffset : s.phasecheckBufferOffset.toNat = r.header.offset.toNat + p.length)
      (hindex : nextIndex s.indexvalue = indexAfter (padded (PRODUCTINFO_SIZE + 8)
        (st.productinfo.take (PRODUCTINFO_SIZE + 4))) (PRODUCTINFO_SIZE + 2))
      (hmatches : Matches st s)

theorem Loading.relabel {st : Store} {r : Request} {p : List UInt8} {s : State}
    (h : Loading st r p s) (control : Control) (trace : List Action) :
    Loading st r p { s with control, trace } := by
  cases h with
  | fixnv hdata htype hlength hbuffer hoffset hindex hflag hm =>
      exact .fixnv hdata htype hlength hbuffer hoffset hindex hflag ⟨hm.fixnv, hm.backupfixnv,
        hm.runtimenv, hm.runtimenvbkup, hm.productinfo, hm.productinfobkup, hm.flag, hm.buffer⟩
  | runtime hdata htype hlength hpos hbackupPos hm =>
      exact .runtime hdata htype hlength hpos hbackupPos ⟨hm.fixnv, hm.backupfixnv,
        hm.runtimenv, hm.runtimenvbkup, hm.productinfo, hm.productinfobkup, hm.flag, hm.buffer⟩
  | productinfo hdata htype hlength hbuffer hoffset hindex hm =>
      exact .productinfo hdata htype hlength hbuffer hoffset hindex ⟨hm.fixnv, hm.backupfixnv,
        hm.runtimenv, hm.runtimenvbkup, hm.productinfo, hm.productinfobkup, hm.flag, hm.buffer⟩

theorem writtenBy_of_length {image : List UInt8} {n : ℕ} (h : image.length = n) :
    writtenBy image (some (n : Int)) = image :=
  List.take_of_length_le (Nat.le_of_eq h)

section Turn

variable {st : Store} {r : Request} {s : State} {e : Env}

theorem Loading.complete (h : Loading st r r.payload s) {u : State} (he : Complete u e) :
    Matches (st.apply r) (s.complete e) := by
  cases h with
  | fixnv hdata htype hlength hbuffer hoffset hindex hflag hmatches =>
      have himage := bytes_stampFixnv_eq hbuffer hindex
      have hwritten := writtenBy_of_length (stampFixnv s.fixnvBuffer s.indexvalue).size_eq
      rw [Store.apply_of_fixnv hdata htype, State.complete, hlength, ← himage]
      refine ⟨?_, hmatches.backupfixnv, hmatches.runtimenv, hmatches.runtimenvbkup,
        hmatches.productinfo, hmatches.productinfobkup, rfl, fun image hmem => Option.some.inj hmem⟩
      change writeAt 0 s.fixnv 0 (writtenBy (stampFixnv s.fixnvBuffer s.indexvalue).bytes e.fixnv) = _
      rw [he.fixnv, hwritten, show s.fixnv = st.fixnv from hmatches.fixnv]
  | runtime hdata htype hlength hpos hbackupPos hmatches =>
      rw [Store.apply_of_runtime hdata htype, State.complete, hlength]
      exact ⟨hmatches.fixnv, hmatches.backupfixnv, hmatches.runtimenv, hmatches.runtimenvbkup,
        hmatches.productinfo, hmatches.productinfobkup, hmatches.flag, hmatches.buffer⟩
  | productinfo hdata htype hlength hbuffer hoffset hindex hmatches =>
      have himage := bytes_stampPhasecheck_eq hbuffer hindex
      have hlen : ((stampPhasecheck s.phasecheckBuffer s.indexvalue).bytes.take
          (PRODUCTINFO_SIZE + 4)).length = PRODUCTINFO_SIZE + 4 := by
        rw [List.length_take, Buffer.size_eq]
        exact Nat.min_eq_left (by decide)
      have hwritten := writtenBy_of_length hlen
      rw [Store.apply_of_productinfo hdata htype, State.complete, hlength, ← himage]
      refine ⟨hmatches.fixnv, hmatches.backupfixnv, hmatches.runtimenv, hmatches.runtimenvbkup,
        ?_, ?_, hmatches.flag, hmatches.buffer⟩
      · change writeAt 0 s.productinfo 0 (writtenBy ((stampPhasecheck s.phasecheckBuffer
          s.indexvalue).bytes.take (PRODUCTINFO_SIZE + 4)) e.productinfo) = _
        rw [he.productinfo, hwritten, hmatches.productinfo]
      · change (if e.productinfo.isSome then writeAt 0 s.productinfobkup 0 (writtenBy
          ((stampPhasecheck s.phasecheckBuffer s.indexvalue).bytes.take (PRODUCTINFO_SIZE + 4))
            e.productinfobkup) else s.productinfobkup) = _
        rw [he.productinfo, he.productinfobkup, hwritten, hmatches.productinfobkup]
        rfl

theorem Matches.sync (h : Matches st s) {u : State} (he : Complete u e) :
    Matches st.sync (s.sync e) := by
  rw [Store.sync, State.sync]
  cases hunsynced : st.unsynced with
  | none =>
      have hflag : s.updateFinxnFlag = false := by rw [h.flag, hunsynced]; rfl
      rw [hflag]
      refine ⟨h.fixnv, h.backupfixnv, h.runtimenv, h.runtimenvbkup, h.productinfo,
        h.productinfobkup, ?_, ?_⟩
      · rw [hunsynced]
        rfl
      · rw [hunsynced]
        exact fun image hmem => absurd hmem (Option.not_mem_none image)
  | some image =>
      have hflag : s.updateFinxnFlag = true := by rw [h.flag, hunsynced]; rfl
      have himage : s.fixnvBuffer.bytes = image := h.buffer image hunsynced
      have hwritten := writtenBy_of_length s.fixnvBuffer.size_eq
      rw [hflag]
      refine ⟨h.fixnv, ?_, h.runtimenv, h.runtimenvbkup, h.productinfo, h.productinfobkup, rfl,
        fun image hmem => absurd hmem (Option.not_mem_none image)⟩
      change writeAt 0 s.backupfixnv 0 (writtenBy s.fixnvBuffer.bytes e.backupfixnv) = _
      rw [he.backupfixnv, hwritten, himage, h.backupfixnv]

/-- A test of the payload loop with `p` read and `q` left. -/
def Tests (st : Store) (r : Request) (p q : List UInt8) (e : Env) (t : State) : Prop :=
  ∃ s, t = s.loopTest e ∧ Loading st r p s ∧ s.total = q.length

theorem total_eq_length (hdata : r.header.reqType ≠ 1) (hsize : r.header.size.toNat < 2147483648) :
    r.header.total = r.payload.length := by
  rw [RequestHeader.total, if_pos hsize, r.length_payload, if_neg hdata]

theorem Matches.openFixnv (h : Matches st s) {u : State} (he : Complete u e)
    (hheader : s.header = r.header) (hdata : r.header.reqType ≠ 1) (htype : r.header.type = 0)
    (hrange : r.header.stop ≤ FIXNV_SIZE) : Tests st r [] r.payload e (s.openFixnv e) := by
  have hsmall : FIXNV_SIZE < 2147483648 := by decide
  have htotal : r.header.total = r.payload.length :=
    total_eq_length hdata (by rw [RequestHeader.stop] at hrange; omega)
  have hload : (Buffer.fill (FIXNV_SIZE + 4) (0xFF : UInt8)).load
      (readBy (FIXNV_SIZE + 4) st.fixnv e.readBase) =
        (Buffer.fill (FIXNV_SIZE + 4) 0xFF).load st.fixnv := by
    rw [readBy_of_whole he.readBase, Buffer.load_take]
  rw [State.openFixnv, he.openFile, hheader, h.fixnv]
  simp only [hload]
  refine ⟨_, rfl, .fixnv hdata htype rfl (splice_nil _ _).symm rfl rfl h.flag ?_, htotal⟩
  exact ⟨rfl, h.backupfixnv, h.runtimenv, h.runtimenvbkup, h.productinfo, h.productinfobkup,
    rfl, fun image hmem => absurd hmem (Option.not_mem_none image)⟩

theorem Matches.openRuntime (h : Matches st s) {u : State} (he : Complete u e)
    (hheader : s.header = r.header) (hdata : r.header.reqType ≠ 1) (htype : r.header.type = 1)
    (hoffset : r.header.offset.toNat < 2147483648) (hsize : r.header.size.toNat < 2147483648) :
    Tests st r [] r.payload e (s.openRuntime e) := by
  have hseek : lseek s.header.offset = r.header.offset.toNat := by
    rw [hheader]
    exact if_pos hoffset
  have htotal : s.header.total = r.payload.length := by
    rw [hheader]
    exact total_eq_length hdata hsize
  refine ⟨{ s with
      length := .runtime
      runtimePos := lseek s.header.offset
      runtimeBackupPos := lseek s.header.offset
      total := s.header.total
      trace := .seekRuntime s.header.offset :: .seekRuntime s.header.offset :: s.trace },
    ?_, .runtime hdata htype rfl hseek hseek ?_, htotal⟩
  · rw [State.openRuntime, he.openFile, he.openBackup]
    rfl
  · rw [Store.writeRuntime, writeAt_nil, writeAt_nil]
    exact ⟨h.fixnv, h.backupfixnv, h.runtimenv, h.runtimenvbkup, h.productinfo,
      h.productinfobkup, h.flag, h.buffer⟩

theorem Matches.openProductinfo (h : Matches st s) {u : State} (he : Complete u e)
    (hheader : s.header = r.header) (hdata : r.header.reqType ≠ 1) (htype : r.header.type = 2)
    (hrange : r.header.stop ≤ PRODUCTINFO_SIZE) :
    Tests st r [] r.payload e (s.openProductinfo e) := by
  have hsmall : PRODUCTINFO_SIZE < 2147483648 := by decide
  have htotal : r.header.total = r.payload.length :=
    total_eq_length hdata (by rw [RequestHeader.stop] at hrange; omega)
  have hbase : ((PRODUCTINFO_SIZE + 4 : ℕ) : Int) ≤ e.readBase :=
    Int.le_trans (by decide) he.readBase
  rw [State.openProductinfo, he.openFile, hheader, h.productinfo]
  simp only [readBy_of_whole hbase]
  refine ⟨_, rfl, .productinfo hdata htype rfl (splice_nil _ _).symm rfl rfl ?_, htotal⟩
  exact ⟨h.fixnv, h.backupfixnv, h.runtimenv, h.runtimenvbkup, rfl, h.productinfobkup, h.flag,
    h.buffer⟩

theorem toNat_advance {offset : UInt32} {n count : ℕ} (hoffset : offset.toNat = n)
    (hfits : n + count < 4294967296) :
    (offset + UInt32.ofNat count).toNat = n + count := by
  rw [UInt32.toNat_add, UInt32.toNat_ofNat', hoffset]
  omega

theorem splice_chunk {n : ℕ} {old : List UInt8} (hold : old.length = n) {offset : ℕ}
    {p bytes : List UInt8} (hfits : offset + p.length + bytes.length ≤ n) :
    splice (splice old offset p) (offset + p.length) bytes = splice old offset (p ++ bytes) :=
  splice_append_of_le (by omega)

theorem Loading.store {p bytes q : List UInt8} (h : Loading st r p s) (hrange : r.InRange)
    (hpayload : r.payload = p ++ (bytes ++ q)) (htotal : s.total = (bytes ++ q).length)
    (hwrite : (bytes.length : Int) ≤ e.writeRuntime)
    (hbackup : (bytes.length : Int) ≤ e.writeRuntimeBackup) :
    Tests st r (p ++ bytes) q e (s.store bytes e) := by
  have hleft : s.total - (bytes.length : Int) = q.length := by
    rw [htotal, List.length_append]
    omega
  have hlen := r.length_payload
  rw [hpayload, List.length_append, List.length_append] at hlen
  have hsum : (p ++ bytes).length = p.length + bytes.length := List.length_append
  cases h with
  | fixnv hdata htype hlength hbuffer hoffset hindex hflag hmatches =>
      rw [if_neg hdata] at hlen
      have hstop : r.header.offset.toNat + r.header.size.toNat ≤ FIXNV_SIZE :=
        (hrange.resolve_left hdata).2.elim And.right fun h => h.elim
          (fun h => absurd (htype.symm.trans h.1) (by decide))
          fun h => absurd (htype.symm.trans h.1) (by decide)
      have hfits : s.fixnvBufferOffset.toNat + bytes.length ≤ FIXNV_SIZE + 4 := by omega
      have hsome : s.fixnvBuffer.write? s.fixnvBufferOffset.toNat bytes =
          some (s.fixnvBuffer.write s.fixnvBufferOffset.toNat bytes hfits) := dif_pos hfits
      rw [State.store, hlength]
      simp only [State.storeFixnv, State.log, hsome]
      refine ⟨_, rfl, .fixnv hdata htype hlength ?_ ?_ hindex hflag ?_, hleft⟩
      · change splice s.fixnvBuffer.bytes s.fixnvBufferOffset.toNat bytes = _
        rw [hbuffer, hoffset]
        exact splice_chunk (n := FIXNV_SIZE + 4) (Buffer.size_eq _) (by omega)
      · rw [hsum, ← Nat.add_assoc]
        have hsmall : FIXNV_SIZE < 4294967296 := by decide
        exact toNat_advance hoffset (by omega)
      · exact ⟨hmatches.fixnv, hmatches.backupfixnv, hmatches.runtimenv, hmatches.runtimenvbkup,
          hmatches.productinfo, hmatches.productinfobkup, rfl,
          fun image hmem => absurd hmem (Option.not_mem_none image)⟩
  | runtime hdata htype hlength hpos hbackupPos hmatches =>
      have hwhole : bytes.take e.writeRuntime.toNat = bytes := List.take_of_length_le (by omega)
      have hwholeBackup : bytes.take e.writeRuntimeBackup.toNat = bytes :=
        List.take_of_length_le (by omega)
      rw [State.store, hlength]
      change Tests st r (p ++ bytes) q e (s.storeRuntime bytes e)
      rw [storeRuntime_of_nonneg (by omega) (by omega)]
      refine ⟨_, rfl, .runtime hdata htype hlength ?_ ?_ ?_, hleft⟩
      · change s.runtimePos + (bytes.take e.writeRuntime.toNat).length = _
        rw [hwhole, hpos, hsum, Nat.add_assoc]
      · change s.runtimeBackupPos + (bytes.take e.writeRuntimeBackup.toNat).length = _
        rw [hwholeBackup, hbackupPos, hsum, Nat.add_assoc]
      · refine ⟨hmatches.fixnv, hmatches.backupfixnv, ?_, ?_, hmatches.productinfo,
          hmatches.productinfobkup, hmatches.flag, hmatches.buffer⟩
        · change writeAt 0 s.runtimenv s.runtimePos (bytes.take e.writeRuntime.toNat) = _
          rw [hwhole, hpos, hmatches.runtimenv]
          exact writeAt_append 0 st.runtimenv p bytes _
        · change writeAt 0 s.runtimenvbkup s.runtimeBackupPos
            (bytes.take e.writeRuntimeBackup.toNat) = _
          rw [hwholeBackup, hbackupPos, hmatches.runtimenvbkup]
          exact writeAt_append 0 st.runtimenvbkup p bytes _
  | productinfo hdata htype hlength hbuffer hoffset hindex hmatches =>
      rw [if_neg hdata] at hlen
      have hstop : r.header.offset.toNat + r.header.size.toNat ≤ PRODUCTINFO_SIZE :=
        (hrange.resolve_left hdata).2.elim (fun h => absurd (htype.symm.trans h.1) (by decide))
          fun h => h.elim (fun h => absurd (htype.symm.trans h.1) (by decide)) And.right
      have hfits : s.phasecheckBufferOffset.toNat + bytes.length ≤ PRODUCTINFO_SIZE + 8 := by omega
      have hsome : s.phasecheckBuffer.write? s.phasecheckBufferOffset.toNat bytes =
          some (s.phasecheckBuffer.write s.phasecheckBufferOffset.toNat bytes hfits) :=
        dif_pos hfits
      rw [State.store, hlength]
      simp only [State.storePhasecheck, State.log, hsome]
      refine ⟨_, rfl, .productinfo hdata htype hlength ?_ ?_ hindex ?_, hleft⟩
      · change splice s.phasecheckBuffer.bytes s.phasecheckBufferOffset.toNat bytes = _
        rw [hbuffer, hoffset]
        exact splice_chunk (n := PRODUCTINFO_SIZE + 8) (Buffer.size_eq _) (by omega)
      · rw [hsum, ← Nat.add_assoc]
        have hsmall : PRODUCTINFO_SIZE < 4294967296 := by decide
        exact toNat_advance hoffset (by omega)
      · exact ⟨hmatches.fixnv, hmatches.backupfixnv, hmatches.runtimenv, hmatches.runtimenvbkup,
          hmatches.productinfo, hmatches.productinfobkup, hmatches.flag, hmatches.buffer⟩

end Turn

/-! ## Runs -/

/-- The daemon has done the requests `done` of the stream `rs`, and nothing else. In a payload, `p`
has been read of it and `q` is left. -/
inductive Serves (b : Boot) (rs : List Request) (s : State) : Prop
  | header (done rest : List Request) (hcontrol : s.control = .header) (hrs : rs = done ++ rest)
      (hbytes : consumed s.trace = wire done) (hmatches : Matches (Store.after b done) s)
  | payload (done : List Request) (r : Request) (rest : List Request) (p q : List UInt8)
      (hcontrol : s.control = .payload) (hrs : rs = done ++ r :: rest)
      (hbytes : consumed s.trace = wire done ++ (r.header.encode ++ p))
      (hpayload : r.payload = p ++ q) (hleft : q ≠ []) (htotal : s.total = q.length)
      (hloading : Loading (Store.after b done) r p s)

namespace Serves

variable {b : Boot} {rs done rest : List Request} {r : Request} {s : State} {e : Env}

theorem of_tests {u t : State} (he : Complete u e) {p q : List UInt8}
    (htests : Tests (Store.after b done) r p q e t) (hrs : rs = done ++ r :: rest)
    (hbytes : consumed t.trace = wire done ++ (r.header.encode ++ p))
    (hpayload : r.payload = p ++ q) : Serves b rs t := by
  obtain ⟨s, rfl, hloading, htotal⟩ := htests
  rcases s.loopTest_cases e with ⟨hpos, heq⟩ | ⟨hend, heq⟩
  · rw [heq] at hbytes ⊢
    have hleft : q ≠ [] := List.ne_nil_of_length_pos (by omega)
    exact .payload done r rest p q rfl hrs hbytes hpayload hleft htotal
      (hloading.relabel .payload s.trace)
  · have hq : q = [] := List.length_eq_zero_iff.mp (by omega)
    subst hq
    rw [List.append_nil] at hpayload
    subst hpayload
    rw [heq] at hbytes ⊢
    refine .header (done ++ [r]) rest (s.control_complete e) (by simp [hrs]) ?_ ?_
    · rw [hbytes, wire_append, wire_cons]
      simp [wire]
    · rw [Store.after_append]
      exact hloading.complete he

theorem step_header (hcontrol : s.control = .header) (hrs : rs = done ++ rest)
    (hbytes : consumed s.trace = wire done) (hmatches : Matches (Store.after b done) s)
    (hrange : ∀ r ∈ rs, r.InRange) (he : Complete s e)
    (hwire : consumed (s.step e).trace <+: wire rs) : Serves b rs (s.step e) := by
  cases hread : e.read with
  | none =>
      rw [step_of_none hread]
      exact .header done rest hcontrol hrs hbytes hmatches
  | some bytes =>
      have hsize := he.reads.2.1 hcontrol bytes hread
      have hne : bytes ≠ [] := by
        rintro rfl
        exact he.reads.1 hread
      have hextends := Extends.interpret (s.receive bytes) e
      rw [step_of_read hcontrol hread hne] at hwire ⊢
      have hconsumed : consumed ((s.receive bytes).interpret e).trace =
          wire done ++ bytes.take headerSize := by
        rw [hextends.consumed_eq, ← hbytes]
        rfl
      rw [hconsumed, hrs] at hwire
      obtain ⟨r, rest', rfl, hencode⟩ := Position.exists_request hsize hwire
      have hheader : (s.receive bytes).header = r.header := s.header_receive hencode
      have hin : r.InRange := hrange r (by simp [hrs])
      have hlogged : Matches (Store.after b done)
          ((s.receive bytes).log (.interpret (s.receive bytes).header)) :=
        ⟨hmatches.fixnv, hmatches.backupfixnv, hmatches.runtimenv, hmatches.runtimenvbkup,
          hmatches.productinfo, hmatches.productinfobkup, hmatches.flag, hmatches.buffer⟩
      rw [hencode] at hconsumed
      have hopened : Tests (Store.after b done) r [] r.payload e ((s.receive bytes).interpret e) →
          Serves b rs ((s.receive bytes).interpret e) := fun htests =>
        of_tests he htests hrs (by rw [hconsumed, List.append_nil]) rfl
      rcases hin with hsync | ⟨hdata, ⟨htype, hstop⟩ | ⟨htype, hoffset, hlt⟩ | ⟨htype, hstop⟩⟩
      · rw [interpret_of_sync (hheader ▸ hsync)] at hconsumed ⊢
        have hnothing : r.payload = [] := by
          refine List.length_eq_zero_iff.mp ?_
          rw [r.length_payload, if_pos hsync]
        refine .header (done ++ [r]) rest' ?_ (by simp [hrs]) ?_ ?_
        · rw [control_sync]
          exact hcontrol
        · rw [hconsumed, wire_append, wire_cons, hnothing]
          simp [wire]
        · rw [Store.after_append, Store.apply_of_sync hsync]
          exact hlogged.sync he
      · refine hopened ?_
        rw [interpret_of_fixnv (hheader ▸ hdata) (hheader ▸ htype)]
        exact hlogged.openFixnv he hheader hdata htype hstop
      · refine hopened ?_
        rw [interpret_of_runtime (hheader ▸ hdata) (hheader ▸ htype)]
        exact hlogged.openRuntime he hheader hdata htype hoffset hlt
      · refine hopened ?_
        rw [interpret_of_productinfo (hheader ▸ hdata) (hheader ▸ htype)]
        exact hlogged.openProductinfo he hheader hdata htype hstop

theorem step_payload {p q : List UInt8} (hcontrol : s.control = .payload)
    (hrs : rs = done ++ r :: rest)
    (hbytes : consumed s.trace = wire done ++ (r.header.encode ++ p))
    (hpayload : r.payload = p ++ q) (hleft : q ≠ []) (htotal : s.total = q.length)
    (hloading : Loading (Store.after b done) r p s) (hrange : ∀ r ∈ rs, r.InRange)
    (he : Complete s e) (hwire : consumed (s.step e).trace <+: wire rs) :
    Serves b rs (s.step e) := by
  cases hread : e.read with
  | none =>
      rw [step_of_none hread]
      exact .payload done r rest p q hcontrol hrs hbytes hpayload hleft htotal hloading
  | some bytes =>
      have hne : bytes ≠ [] := by
        rintro rfl
        exact he.reads.1 hread
      have hcount := s.length_chunk_le (by omega) bytes
      obtain ⟨hwrite, hbackup⟩ := he.runtime hcontrol bytes hread
      rw [step_of_payload hcontrol hread hne] at hwire ⊢
      have hextends := Extends.store (s.log (.readPayload (s.chunk bytes))) e (s.chunk bytes)
      have hconsumed : consumed ((s.log (.readPayload (s.chunk bytes))).store
          (s.chunk bytes) e).trace = wire done ++ (r.header.encode ++ (p ++ s.chunk bytes)) := by
        rw [hextends.consumed_eq]
        change consumed s.trace ++ s.chunk bytes = _
        rw [hbytes]
        simp
      obtain ⟨q', hq⟩ : s.chunk bytes <+: q := by
        rw [hconsumed, hrs, wire_append, wire_cons, hpayload, List.append_assoc,
          List.prefix_append_right_inj, List.prefix_append_right_inj,
          List.prefix_append_right_inj] at hwire
        exact List.prefix_of_prefix_length_le hwire (List.prefix_append q (wire rest)) (by omega)
      have hlogged : Loading (Store.after b done) r p (s.log (.readPayload (s.chunk bytes))) :=
        hloading.relabel s.control _
      have htests : Tests (Store.after b done) r (p ++ s.chunk bytes) q' e
          ((s.log (.readPayload (s.chunk bytes))).store (s.chunk bytes) e) :=
        hlogged.store (hrange r (by simp [hrs])) (by rw [hpayload, hq]) (by rw [hq]; exact htotal)
          hwrite hbackup
      exact of_tests he htests hrs hconsumed (by rw [hpayload, ← hq, List.append_assoc])

theorem step (h : Serves b rs s) (hrange : ∀ r ∈ rs, r.InRange) (he : Complete s e)
    (hwire : consumed (s.step e).trace <+: wire rs) : Serves b rs (s.step e) := by
  cases h with
  | header done rest hcontrol hrs hbytes hmatches =>
      exact step_header hcontrol hrs hbytes hmatches hrange he hwire
  | payload done r rest p q hcontrol hrs hbytes hpayload hleft htotal hloading =>
      exact step_payload hcontrol hrs hbytes hpayload hleft htotal hloading hrange he hwire

end Serves

/-- The requests of a stream that its first `n` bytes hold whole. -/
def finished : List Request → ℕ → List Request
  | [], _ => []
  | r :: rs, n => if r.bytes.length ≤ n then r :: finished rs (n - r.bytes.length) else []

theorem length_bytes (r : Request) : r.bytes.length = headerSize + r.payload.length := by
  rw [Request.bytes, List.length_append, r.header.length_encode]

theorem finished_append (done rest : List Request) (n : ℕ) :
    finished (done ++ rest) ((wire done).length + n) = done ++ finished rest n := by
  induction done with
  | nil => exact congrArg (finished rest) (Nat.zero_add n)
  | cons r done ih =>
      have hlen : (wire (r :: done)).length = r.bytes.length + (wire done).length := by
        rw [wire, List.flatMap_cons, List.length_append]
        rfl
      rw [List.cons_append, finished, hlen, if_pos (by omega), Nat.add_assoc,
        Nat.add_sub_cancel_left, ih, List.cons_append]

theorem prefix_finished (rs : List Request) (n : ℕ) : finished rs n <+: rs := by
  induction rs generalizing n with
  | nil => exact List.prefix_rfl
  | cons r rs ih =>
      rw [finished]
      split_ifs
      · exact (List.prefix_cons_inj r).mpr (ih _)
      · exact List.nil_prefix

def storeOf (b : Boot) (rs : List Request) (s : State) : Store :=
  Store.after b (finished rs (consumed s.trace).length)

theorem Serves.storeOf_cases {b : Boot} {rs : List Request} {s : State} (h : Serves b rs s) :
    s.control = .header ∧ Matches (storeOf b rs s) s ∨
      s.control = .payload ∧ ∃ r ∈ rs, ∃ p, Loading (storeOf b rs s) r p s := by
  cases h with
  | header done rest hcontrol hrs hbytes hmatches =>
      have hfinished : finished rs (consumed s.trace).length = done := by
        have hnone : finished rest 0 = [] := by
          cases rest with
          | nil => rfl
          | cons r rest =>
              rw [finished, if_neg]
              rw [length_bytes, headerSize]
              omega
        have happend := finished_append done rest 0
        rw [hrs, hbytes]
        rw [hnone, List.append_nil] at happend
        exact happend
      rw [storeOf, hfinished]
      exact Or.inl ⟨hcontrol, hmatches⟩
  | payload done r rest p q hcontrol hrs hbytes hpayload hleft htotal hloading =>
      have hfinished : finished rs (consumed s.trace).length = done := by
        have hpos : 0 < q.length := List.length_pos_iff.mpr hleft
        have hnone : finished (r :: rest) (r.header.encode ++ p).length = [] := by
          rw [finished, if_neg]
          rw [length_bytes, hpayload, List.length_append, List.length_append,
            r.header.length_encode]
          omega
        rw [hrs, hbytes, List.length_append, finished_append, hnone, List.append_nil]
      rw [storeOf, hfinished]
      exact Or.inr ⟨hcontrol, r, by simp [hrs], p, hloading⟩

theorem serves_run {b : Boot} {rs : List Request} {es fs : List Env} (hrange : ∀ r ∈ rs, r.InRange)
    (hfs : fs <+: es) (hmeets : Run.Meets State.step Complete (State.init b) es)
    (hwire : consumed (Run.run State.step (State.init b) fs).trace <+: wire rs) :
    Serves b rs (Run.run State.step (State.init b) fs) := by
  have hstart : Serves b rs (State.init b) :=
    .header [] rs rfl rfl rfl ⟨rfl, rfl, rfl, rfl, rfl, rfl, rfl,
      fun image hmem => absurd hmem (Option.not_mem_none image)⟩
  have hstep : ∀ s e, Complete s e → (consumed s.trace <+: wire rs → Serves b rs s) →
      consumed (s.step e).trace <+: wire rs → Serves b rs (s.step e) := fun s e he h hstep =>
    Serves.step (h ((s.consumed_prefix_step e).trans hstep)) hrange he hstep
  exact Run.invariant_prefix hstep hfs hmeets (fun _ => hstart) hwire

/-- In every run over a stream of requests in range, in which headers and base images are read
whole, files can be opened and writes are complete, the daemon refines the store: it goes on, and
the files are those of the store after the requests that it has read whole, but for the part of
a payload of the runtime NV that has been read. -/
theorem run_serves (b : Boot) (rs : List Request) (es fs : List Env)
    (hrange : ∀ r ∈ rs, r.InRange) (hfs : fs <+: es)
    (hmeets : Run.Meets State.step Complete (State.init b) es)
    (hwire : consumed (Run.run State.step (State.init b) fs).trace <+: wire rs) :
    let s := Run.run State.step (State.init b) fs
    ∃ done rest, rs = done ++ rest ∧
      (s.control = .header ∧ consumed s.trace = wire done ∧ Matches (Store.after b done) s ∨
        s.control = .payload ∧ ∃ r rest' p q, rest = r :: rest' ∧ r.payload = p ++ q ∧ q ≠ [] ∧
          consumed s.trace = wire done ++ (r.header.encode ++ p) ∧
          Loading (Store.after b done) r p s) := by
  intro s
  have hserves : Serves b rs s := serves_run hrange hfs hmeets hwire
  cases hserves with
  | header done rest hcontrol hrs hbytes hmatches =>
      exact ⟨done, rest, hrs, Or.inl ⟨hcontrol, hbytes, hmatches⟩⟩
  | payload done r rest p q hcontrol hrs hbytes hpayload hleft htotal hloading =>
      exact ⟨done, r :: rest, hrs,
        Or.inr ⟨hcontrol, r, rest, p, q, rfl, hpayload, hleft, hbytes, hloading⟩⟩

theorem complete_reads {s : State} {bytes : List UInt8} (hne : bytes ≠ [])
    (hheader : s.control = .header → headerSize ≤ bytes.length) : Complete s (.reads bytes) where
  reads := by
    refine ⟨fun h => hne (Option.some.inj h), fun hcontrol bytes' h => ?_,
      fun _ _ => ⟨Int.natCast_nonneg _, Int.natCast_nonneg _⟩⟩
    rw [← Option.some.inj h]
    exact hheader hcontrol
  readBase := Int.le_refl _
  openFile := rfl
  openBackup := rfl
  fixnv := rfl
  backupfixnv := rfl
  productinfo := rfl
  productinfobkup := rfl
  runtime := fun _ bytes' h => by
    have hle : (s.chunk bytes').length ≤ bytes'.length := by
      rw [chunk, List.length_take]
      exact Nat.min_le_right _ _
    rw [← Option.some.inj h] at hle ⊢
    exact ⟨Int.ofNat_le.mpr hle, Int.ofNat_le.mpr hle⟩

/-- One byte of the runtime NV, in a second `read`. -/
def byteRequest : Request := ⟨⟨1, 0, 3, 1⟩, [7], rfl⟩

def byteTurns : List Env := [.reads byteRequest.header.encode, .reads [7]]

theorem meets_byteTurns (b : Boot) : Run.Meets State.step Complete (State.init b) byteTurns := by
  refine ⟨complete_reads (by decide) fun _ => Nat.le_refl _, complete_reads (by decide) ?_, trivial⟩
  intro hcontrol
  cases hcontrol

theorem byteRequest_inRange : ∀ r ∈ [byteRequest], r.InRange :=
  List.forall_mem_singleton.mpr (Or.inr ⟨by decide, Or.inr (Or.inl ⟨rfl, by decide, by decide⟩)⟩)

theorem run_serves_byte :
    let s := Run.run State.step (State.init .empty) byteTurns
    ∃ done rest, [byteRequest] = done ++ rest ∧
      (s.control = .header ∧ consumed s.trace = wire done ∧ Matches (Store.after .empty done) s ∨
        s.control = .payload ∧ ∃ r rest' p q, rest = r :: rest' ∧ r.payload = p ++ q ∧ q ≠ [] ∧
          consumed s.trace = wire done ++ (r.header.encode ++ p) ∧
          Loading (Store.after .empty done) r p s) :=
  run_serves .empty [byteRequest] byteTurns byteTurns byteRequest_inRange List.prefix_rfl
    (meets_byteTurns .empty) (by decide)

/-! ## Crashes -/

/-- An image of the fixed NV that is whole and verifies. -/
def Intact (image : List UInt8) : Prop :=
  image.length = FIXNV_SIZE + 4 ∧ Verifies (FIXNV_SIZE - 4) image

def upToSync (rs : List Request) : List Request :=
  rs.rdropWhile fun r => decide (r.header.reqType ≠ 1)

theorem intact_fixnvWith (file : List UInt8) {payload : List UInt8} {offset : ℕ}
    (h : offset + payload.length ≤ FIXNV_SIZE) : Intact (fixnvWith file offset payload) := by
  let old := (Buffer.fill (FIXNV_SIZE + 4) (0xFF : UInt8)).load file
  have himage : (stampFixnv (old.write offset payload (by omega)) (fixnvIndex old.bytes)).bytes =
      fixnvWith file offset payload := bytes_stampFixnv_eq rfl rfl
  rw [← himage]
  exact ⟨Buffer.size_eq _, verifies_stampFixnv _ _⟩

/-- What holds of the store `st` when `synced` is the one behind the last sync command. -/
structure Backed (st synced : Store) : Prop where
  intact : Intact st.fixnv
  backup : st.backupfixnv = synced.fixnv
  intactBackup : Intact synced.fixnv
  same : st.unsynced = none → synced.fixnv = st.fixnv
  latest : ∀ image ∈ st.unsynced, image = st.fixnv

theorem backed_after {b : Boot} (hintact : Intact b.fixnv) (hbackup : b.backupfixnv = b.fixnv)
    (rs : List Request) (hrange : ∀ r ∈ rs, r.InRange) :
    Backed (Store.after b rs) (Store.after b (upToSync rs)) := by
  induction rs using List.reverseRecOn with
  | nil => exact ⟨hintact, hbackup, hintact, fun _ => rfl,
      fun image hmem => absurd hmem (Option.not_mem_none image)⟩
  | append_singleton rs r ih =>
      have h := ih fun x hx => hrange x (List.mem_append_left _ hx)
      have hdata : r.header.reqType ≠ 1 → upToSync (rs ++ [r]) = upToSync rs := fun hdata =>
        List.rdropWhile_concat_pos _ _ _ (decide_eq_true hdata)
      rw [Store.after_append]
      rcases hrange r (by simp) with hsync | ⟨hne, ⟨htype, hstop⟩ | ⟨htype, -⟩ | ⟨htype, -⟩⟩
      · have hall : upToSync (rs ++ [r]) = rs ++ [r] :=
          List.rdropWhile_concat_neg _ _ _ (by simp [hsync])
        rw [hall, Store.after_append, Store.apply_of_sync hsync, Store.sync]
        cases hunsynced : (Store.after b rs).unsynced with
        | none =>
            exact ⟨h.intact, h.backup.trans (h.same hunsynced), h.intact, fun _ => rfl,
              fun image hmem => absurd (hunsynced ▸ hmem) (Option.not_mem_none image)⟩
        | some image =>
            have himage : image = (Store.after b rs).fixnv := h.latest image hunsynced
            refine ⟨h.intact, ?_, h.intact, fun _ => rfl,
              fun image hmem => absurd hmem (Option.not_mem_none image)⟩
            change writeAt 0 (Store.after b rs).backupfixnv 0 image = (Store.after b rs).fixnv
            rw [← himage, writeAt_zero_of_length_le]
            rw [h.backup, h.intactBackup.1, himage, h.intact.1]
      · have hlen : r.payload.length = r.header.size.toNat := by
          rw [r.length_payload, if_neg hne]
        have hrange' : r.header.offset.toNat + r.payload.length ≤ FIXNV_SIZE := by
          rw [hlen]
          exact hstop
        have hintact' := intact_fixnvWith (Store.after b rs).fixnv hrange'
        have hwhole := writeAt_zero_of_length_le (0 : UInt8)
          (Nat.le_of_eq (h.intact.1.trans hintact'.1.symm))
        rw [hdata hne, Store.apply_of_fixnv hne htype, hwhole]
        exact ⟨hintact', h.backup, h.intactBackup, fun hnone => absurd hnone (Option.some_ne_none _),
          fun image hmem => (Option.some.inj hmem).symm⟩
      · rw [hdata hne, Store.apply_of_runtime hne htype]
        exact ⟨h.intact, h.backup, h.intactBackup, h.same, h.latest⟩
      · rw [hdata hne, Store.apply_of_productinfo hne htype]
        exact ⟨h.intact, h.backup, h.intactBackup, h.same, h.latest⟩

theorem backupfixnv_loopTest (s : State) (e : Env) :
    (s.loopTest e).backupfixnv = s.backupfixnv := by
  rcases s.loopTest_cases e with ⟨-, h⟩ | ⟨-, h⟩
  · rw [h]
  · rw [h]
    rcases s.complete_cases e with ⟨-, h⟩ | ⟨-, h⟩ | ⟨-, h⟩
    · rw [h]
      rfl
    · rw [h]
      rfl
    · rw [h]
      rfl

theorem backupfixnv_store (s : State) (bytes : List UInt8) (e : Env) :
    (s.store bytes e).backupfixnv = s.backupfixnv := by
  rcases s.store_cases bytes e with ⟨-, h⟩ | ⟨-, h⟩ | ⟨-, h⟩
  · rw [h]
    rcases s.storeRuntime_cases bytes e with h | h | h
    · rw [h]
    · rw [h]
      rfl
    · rw [h]
      exact backupfixnv_loopTest _ e
  · rw [h]
    rcases s.storeFixnv_cases bytes e with h | ⟨buffer, -, h⟩
    · rw [h]
      rfl
    · rw [h]
      exact backupfixnv_loopTest _ e
  · rw [h]
    rcases s.storePhasecheck_cases bytes e with h | ⟨buffer, -, h⟩
    · rw [h]
      rfl
    · rw [h]
      exact backupfixnv_loopTest _ e

theorem fixnv_sync (s : State) (e : Env) : (s.sync e).fixnv = s.fixnv := by
  rw [State.sync]
  split_ifs
  · rfl
  · rfl

theorem fixnv_or_backupfixnv_step (s : State) (e : Env) :
    (s.step e).fixnv = s.fixnv ∨ (s.step e).backupfixnv = s.backupfixnv := by
  rcases s.step_cases e with h | ⟨-, h⟩ | ⟨bytes, -, -, -, h⟩ | ⟨bytes, -, -, -, h⟩
  · exact Or.inl (congrArg State.fixnv h)
  · rw [h]
    exact Or.inl rfl
  · rw [h]
    rcases (s.receive bytes).interpret_cases e with ⟨-, h⟩ | ⟨-, ⟨-, h⟩ | ⟨-, h⟩ | ⟨-, h⟩ | h⟩
    · rw [h]
      exact Or.inl (fixnv_sync _ e)
    · rw [h]
      right
      rcases State.openFixnv_cases _ e with ⟨buffer, h⟩ | ⟨indexvalue, h⟩
      · rw [h]
        rfl
      · rw [h]
        exact backupfixnv_loopTest _ e
    · rw [h]
      right
      rcases State.openRuntime_cases _ e with h | h | h
      · rw [h]
        rfl
      · rw [h]
        rfl
      · rw [h]
        exact backupfixnv_loopTest _ e
    · rw [h]
      right
      rcases State.openProductinfo_cases _ e with ⟨buffer, h⟩ | ⟨indexvalue, h⟩
      · rw [h]
        rfl
      · rw [h]
        exact backupfixnv_loopTest _ e
    · rw [h]
      exact Or.inl rfl
  · rw [h]
    exact Or.inr (backupfixnv_store _ _ e)

theorem Loading.fixnv_eq {st : Store} {r : Request} {p : List UInt8} {s : State}
    (h : Loading st r p s) : s.fixnv = st.fixnv ∧ s.backupfixnv = st.backupfixnv := by
  cases h with
  | fixnv _ _ _ _ _ _ _ hm => exact ⟨hm.fixnv, hm.backupfixnv⟩
  | runtime _ _ _ _ _ hm => exact ⟨hm.fixnv, hm.backupfixnv⟩
  | productinfo _ _ _ _ _ _ hm => exact ⟨hm.fixnv, hm.backupfixnv⟩

/-- When the power fails in a turn behind such a run, whatever this turn has written, the newest
image of the fixed NV is whole in its file, or the one of the last sync command is in the
backup. -/
theorem run_intact (b : Boot) (hintact : Intact b.fixnv) (hbackup : b.backupfixnv = b.fixnv)
    (rs : List Request) (es fs : List Env) (hrange : ∀ r ∈ rs, r.InRange) (hfs : fs <+: es)
    (hmeets : Run.Meets State.step Complete (State.init b) es)
    (hwire : consumed (Run.run State.step (State.init b) fs).trace <+: wire rs) (e : Env) :
    let s := Run.run State.step (State.init b) fs
    let done := finished rs (consumed s.trace).length
    (s.step e).fixnv = (Store.after b done).fixnv ∧ Intact (s.step e).fixnv ∨
      (s.step e).backupfixnv = (Store.after b (upToSync done)).fixnv ∧
        Intact (s.step e).backupfixnv := by
  intro s done
  have hfiles : s.fixnv = (Store.after b done).fixnv ∧
      s.backupfixnv = (Store.after b done).backupfixnv := by
    rcases (serves_run hrange hfs hmeets hwire).storeOf_cases with ⟨-, h⟩ | ⟨-, r, -, p, h⟩
    · exact ⟨h.fixnv, h.backupfixnv⟩
    · exact h.fixnv_eq
  have hbacked := backed_after hintact hbackup done fun r hr =>
    hrange r ((prefix_finished rs _).subset hr)
  rcases fixnv_or_backupfixnv_step s e with h | h
  · rw [h, hfiles.1]
    exact Or.inl ⟨rfl, hbacked.intact⟩
  · rw [h, hfiles.2, hbacked.backup]
    exact Or.inr ⟨rfl, hbacked.intactBackup⟩

def intactBoot : Boot :=
  { Boot.empty with fixnv := fixnvWith [] 0 [], backupfixnv := fixnvWith [] 0 [] }

def syncedRequests : List Request :=
  [⟨⟨0, 0, 3, 1⟩, [7], rfl⟩, ⟨⟨0, 1, 0, 0⟩, [], rfl⟩, ⟨⟨0, 0, 4, 1⟩, [8], rfl⟩]

def syncedTurns : List Env :=
  [.reads (RequestHeader.mk 0 0 3 1).encode, .reads [7], .reads (RequestHeader.mk 0 1 0 0).encode,
    .reads (RequestHeader.mk 0 0 4 1).encode]

theorem syncedRequests_inRange : ∀ r ∈ syncedRequests, r.InRange := by
  simp only [syncedRequests, List.forall_mem_cons, List.not_mem_nil, false_imp_iff, implies_true,
    and_true]
  exact ⟨Or.inr ⟨by decide, Or.inl ⟨rfl, by decide⟩⟩, Or.inl rfl,
    Or.inr ⟨by decide, Or.inl ⟨rfl, by decide⟩⟩⟩

theorem meets_syncedTurns (b : Boot) : Run.Meets State.step Complete (State.init b) syncedTurns := by
  refine ⟨complete_reads (by decide) fun _ => Nat.le_refl _, complete_reads (by decide) ?_,
    complete_reads (by decide) fun _ => Nat.le_refl _,
    complete_reads (by decide) fun _ => Nat.le_refl _, trivial⟩
  intro hcontrol
  cases hcontrol

/-- The second byte arrives, and the power fails in the write of its image. -/
def tornTurn : Env := { Env.reads [8] with fixnv := some 100 }

theorem run_intact_torn :
    let s := Run.run State.step (State.init intactBoot) syncedTurns
    let done := finished syncedRequests (consumed s.trace).length
    (s.step tornTurn).fixnv = (Store.after intactBoot done).fixnv ∧
        Intact (s.step tornTurn).fixnv ∨
      (s.step tornTurn).backupfixnv = (Store.after intactBoot (upToSync done)).fixnv ∧
        Intact (s.step tornTurn).backupfixnv :=
  run_intact intactBoot (intact_fixnvWith [] (by decide)) rfl syncedRequests syncedTurns
    syncedTurns syncedRequests_inRange List.prefix_rfl (meets_syncedTurns intactBoot)
    (by decide) tornTurn

end NvmDaemon

end Tarako
