import Tarako.Camera.JpegHeadRead
import Tarako.Lib.Respect

/-!
# The header does not depend on how it is delivered

`JpegDec_InitBitream` gets the picture in one buffer or in the parts that a read callback
delivers. `parseHead_chunks` says that `ParseHead` cannot tell these apart: on any bytes it
returns the same, with the same decoder and the same bytes left.
-/

namespace Tarako

namespace JpegParse

open Prog

/-- The states have the same bytes before them, and differ in nothing but how these are
delivered. -/
structure SameBytes (s t : State) : Prop where
  bytes : s.bytes = t.bytes
  pool : s.pool = t.pool
  codec : s.codec = t.codec
  input : s.input = t.input

namespace SameBytes

variable {s t : State}

theorem setPool (h : SameBytes s t) {p p' : Pool} (hp : p = p') :
    SameBytes (s.setPool p) (t.setPool p') := ⟨h.bytes, hp, h.codec, h.input⟩

theorem setCodec (h : SameBytes s t) {c c' : Codec} (hc : c = c') :
    SameBytes (s.setCodec c) (t.setCodec c') := ⟨h.bytes, h.pool, hc, h.input⟩

theorem setInput (h : SameBytes s t) {i i' : DecInput} (hi : i = i') :
    SameBytes (s.setInput i) (t.setInput i') := ⟨h.bytes, h.pool, h.codec, hi⟩

end SameBytes

/-! ## Accesses -/

section Accesses

variable {α : Type}

theorem respects_fetch (l : List α) (i : ℕ) : Respects SameBytes (fetch l i) := by
  rw [fetch]
  cases l[i]? with
  | none => exact respects_throw _
  | some x => exact respects_pure x

theorem respects_store {n : ℕ} (v : Vector α n) (i : ℕ) (x : α) :
    Respects SameBytes (store v i x) := by
  rw [store]
  split_ifs
  · exact respects_pure _
  · exact respects_throw _

theorem respects_deref (p : Option α) : Respects SameBytes (deref p) := by
  cases p with
  | none => exact respects_throw _
  | some x => exact respects_pure x

theorem respects_extraMemAlloc (memSize : ℕ) (cleared : α) :
    Respects SameBytes (extraMemAlloc memSize cleared) :=
  respects_get (fun s t h => by rw [h.pool]) fun _ => respects_bind (respects_check _ _) fun _ =>
    respects_bind (respects_modify fun s t h => h.setPool (by rw [h.pool])) fun _ =>
      respects_pure _

end Accesses

/-! ## The byte source -/

theorem getChar_eq (s : State) : getChar s =
    match s.bytes with
    | [] => .error .failed
    | c :: _ => .ok (c, s.next) := by
  change (match s.stream.refill.chunk with
    | [] => throw .failed
    | c :: _ => do
        modify fun s => s.setStream s.stream.next
        pure c : M UInt8) s = _
  cases hchunk : s.stream.refill.chunk with
  | nil =>
      have hnil : s.bytes = [] := bytes_of_refill_nil hchunk
      rw [hnil]
      rfl
  | cons c chunk =>
      have hbytes : s.bytes = c :: s.next.bytes := bytes_of_refill hchunk
      rw [hbytes]
      rfl

theorem respects_getChar : Respects SameBytes getChar := by
  intro s t h
  rw [getChar_eq, getChar_eq]
  cases hbytes : s.bytes with
  | nil =>
      rw [← h.bytes, hbytes]
      exact .stopped _
  | cons c r =>
      have hbytes' : t.bytes = c :: r := h.bytes ▸ hbytes
      rw [hbytes']
      exact .yielded c ⟨(bytes_next hbytes).trans (bytes_next hbytes').symm, h.pool, h.codec,
        h.input⟩

theorem respects_getShortWord : Respects SameBytes getShortWord :=
  respects_bind respects_getChar fun _ => respects_bind respects_getChar fun _ => respects_pure _

theorem respects_skipBytes (n : ℕ) : Respects SameBytes (skipBytes n) :=
  respects_each (fun _ => respects_bind respects_getChar fun _ => respects_pure _) n 0

theorem respects_getNextMarker : Respects SameBytes getNextMarker := by
  have hturn : ∀ ff, Respects SameBytes (markerTurn ff) := fun ff =>
    respects_bind respects_getChar fun c => respects_ite (respects_pure _)
      (respects_ite (respects_pure _) (respects_pure _))
  exact respects_get (fun s t h => by rw [h.bytes]) fun _ => respects_loop hturn _ _ _

/-! ## The segments -/

theorem respects_fetchComp (ci : ℕ) : Respects SameBytes (fetchComp ci) :=
  respects_get (fun s t h => by rw [h.codec]) fun _ => respects_bind (respects_deref _) fun _ =>
    respects_fetch _ ci

theorem respects_updateComp (ci : ℕ) (f : Component → Component) :
    Respects SameBytes (updateComp ci f) :=
  respects_get (fun s t h => by rw [h.codec]) fun _ => respects_bind (respects_deref _) fun _ =>
    respects_bind (respects_fetch _ ci) fun _ =>
      respects_modify fun s t h => h.setCodec (by rw [h.codec])

theorem respects_updateTblMap (i : ℕ) (f : TblMap → TblMap) :
    Respects SameBytes (updateTblMap i f) :=
  respects_get (fun s t h => by rw [h.codec]) fun _ => respects_bind (respects_fetch _ i) fun _ =>
    respects_bind (respects_store _ i _) fun _ =>
      respects_modify fun s t h => h.setCodec (by rw [h.codec])

theorem respects_sofComponent (ci : ℕ) : Respects SameBytes (sofComponent ci) :=
  respects_bind respects_getChar fun _ => respects_bind (respects_updateComp ci _) fun _ =>
    respects_bind (respects_check _ _) fun _ => respects_bind respects_getChar fun _ =>
      respects_bind (respects_updateComp ci _) fun _ => respects_bind respects_getChar fun _ =>
        respects_bind (respects_check _ _) fun _ => respects_updateTblMap _ _

theorem respects_sofFormat (componentNum : ℕ) : Respects SameBytes (sofFormat componentNum) := by
  refine respects_bind (respects_fetchComp 0) fun comp => respects_ite
    (respects_modify fun s t h => h.setInput (by rw [h.input])) ?_
  cases mcuInfoOf (sampling comp) with
  | none => exact respects_throw _
  | some info =>
      exact respects_bind (respects_modify fun s t h => h.setInput (by rw [h.input])) fun _ =>
        respects_bind (respects_fetchComp 1) fun _ => respects_bind (respects_check _ _) fun _ =>
          respects_ite (respects_bind (respects_fetchComp 2) fun _ => respects_check _ _)
            (respects_pure _)

theorem respects_getSOF (isProgressive : Bool) : Respects SameBytes (getSOF isProgressive) := by
  have hcomponents : ∀ n, Respects SameBytes (sofComponents n) := fun n =>
    respects_bind (respects_extraMemAlloc _ _) fun _ =>
      respects_bind (respects_modify fun s t h => h.setCodec (by rw [h.codec])) fun _ =>
        respects_bind (respects_each respects_sofComponent n 0) fun _ => respects_sofFormat n
  exact respects_bind (respects_modify fun s t h => h.setInput (by rw [h.input])) fun _ =>
    respects_bind respects_getShortWord fun _ => respects_bind (respects_check _ _) fun _ =>
      respects_bind respects_getChar fun _ => respects_bind (respects_check _ _) fun _ =>
        respects_bind respects_getShortWord fun _ => respects_bind respects_getShortWord fun _ =>
          respects_bind (respects_modify fun s t h => h.setInput (by rw [h.input])) fun _ =>
            respects_bind respects_getChar fun _ => respects_bind (respects_check _ _) fun _ =>
              hcomponents _

theorem respects_findComp (cc : UInt8) (k ci : ℕ) : Respects SameBytes (findComp cc k ci) := by
  induction k generalizing ci with
  | zero => exact respects_pure _
  | succ k ih =>
      exact respects_bind (respects_fetchComp ci) fun _ =>
        respects_ite (respects_pure _) (ih (ci + 1))

theorem respects_sosComponent (i : ℕ) : Respects SameBytes (sosComponent i) :=
  respects_bind respects_getChar fun _ => respects_bind respects_getChar fun _ =>
    respects_bind (respects_check _ _) fun _ => respects_bind (respects_updateTblMap i _) fun _ =>
      respects_get (fun s t h => by rw [h.codec]) fun _ =>
        respects_bind (respects_findComp _ _ _) fun _ => respects_ite
          (respects_bind (respects_store _ i _) fun _ =>
            respects_modify fun s t h => h.setCodec (by rw [h.codec]))
          (respects_pure _)

theorem respects_getSOS : Respects SameBytes getSOS := by
  have hparameters : Respects SameBytes sosParameters :=
    respects_bind respects_getChar fun _ => respects_bind respects_getChar fun _ =>
      respects_bind (respects_modify fun s t h => h.setCodec (by rw [h.codec])) fun _ =>
        respects_bind respects_getChar fun _ =>
          respects_modify fun s t h => h.setCodec (by rw [h.codec])
  exact respects_bind respects_getShortWord fun _ => respects_bind (respects_check _ _) fun _ =>
    respects_bind respects_getChar fun n => respects_bind (respects_check _ _) fun _ =>
      respects_bind (respects_modify fun s t h => h.setCodec (by rw [h.codec])) fun _ =>
        respects_bind (respects_each respects_sosComponent n.toNat 0) fun _ => hparameters

theorem respects_skipVariable : Respects SameBytes skipVariable :=
  respects_bind respects_getShortWord fun _ => respects_bind (respects_check _ _) fun _ =>
    respects_skipBytes _

theorem respects_getDRI : Respects SameBytes getDRI :=
  respects_bind respects_getShortWord fun _ => respects_bind (respects_check _ _) fun _ =>
    respects_bind respects_getShortWord fun _ =>
      respects_modify fun s t h => h.setCodec (by rw [h.codec])

theorem respects_getAPP0 : Respects SameBytes getAPP0 :=
  respects_bind respects_getShortWord fun _ => respects_bind (respects_check _ _) fun _ =>
    respects_ite (respects_bind (respects_skipBytes _) fun _ => respects_skipBytes _)
      (respects_pure _)

/-! ### Tables -/

theorem respects_updateHuffTbl (ac : Bool) (index : ℕ) {f : HuffTbl → M HuffTbl}
    (hf : ∀ tbl, Respects SameBytes (f tbl)) :
    Respects SameBytes (updateHuffTbl ac index f) :=
  respects_get (fun s t h => by rw [h.codec]) fun _ =>
    respects_bind (respects_fetch _ index) fun tbl => respects_bind (hf tbl) fun _ =>
      respects_bind (respects_store _ index _) fun _ =>
        respects_modify fun s t h => h.setCodec (by rw [h.codec])

theorem respects_setBits (ac : Bool) (index i : ℕ) (c : UInt8) :
    Respects SameBytes (setBits ac index i c) :=
  respects_updateHuffTbl ac index fun _ => respects_bind (respects_deref _) fun _ =>
    respects_bind (respects_store _ i c) fun _ => respects_pure _

theorem respects_setHuffval (ac : Bool) (index i : ℕ) (c : UInt8) :
    Respects SameBytes (setHuffval ac index i c) :=
  respects_updateHuffTbl ac index fun _ => respects_bind (respects_deref _) fun _ =>
    respects_bind (respects_store _ i c) fun _ => respects_pure _

theorem respects_allocHuffTbls : Respects SameBytes allocHuffTbls := by
  have halloc : ∀ i, Respects SameBytes (allocHuffTbl i) := fun i =>
    respects_bind (respects_extraMemAlloc _ _) fun _ =>
      respects_bind (respects_extraMemAlloc _ _) fun _ =>
        respects_bind (respects_extraMemAlloc _ _) fun _ =>
          respects_bind (respects_extraMemAlloc _ _) fun _ =>
            respects_bind (respects_updateHuffTbl false i fun _ => respects_pure _) fun _ =>
              respects_updateHuffTbl true i fun _ => respects_pure _
  exact respects_get (fun s t h => by rw [h.codec]) fun _ => respects_ite
    (respects_bind (respects_each halloc _ 0) fun _ =>
      respects_modify fun s t h => h.setCodec (by rw [h.codec]))
    (respects_pure _)

theorem respects_compareDefault (table : List UInt8) (i : ℕ) (c : UInt8) :
    Respects SameBytes (compareDefault table i c) :=
  respects_bind (respects_fetch table i) fun _ => respects_ite
    (respects_modify fun s t h => h.setCodec (by rw [h.codec])) (respects_pure _)

theorem respects_readBits (ac : Bool) (index k i count : ℕ) :
    Respects SameBytes (readBits ac index k i count) := by
  induction k generalizing i count with
  | zero => exact respects_pure count
  | succ k ih =>
      exact respects_bind respects_getChar fun c =>
        respects_bind (respects_setBits ac index i c) fun _ =>
          respects_bind (respects_compareDefault _ i c) fun _ => ih (i + 1) _

theorem respects_readTable (ac : Bool) (index : ℕ) : Respects SameBytes (readTable ac index) := by
  have hval : ∀ i, Respects SameBytes (readHuffval ac index i) := fun i =>
    respects_bind respects_getChar fun c => respects_bind (respects_setHuffval ac index i c)
      fun _ => respects_compareDefault _ i c
  exact respects_bind (respects_readBits ac index 16 1 0) fun count =>
    respects_bind (respects_check _ _) fun _ => respects_bind (respects_each hval count 0)
      fun _ => respects_pure count

theorem respects_getHuffTbl : Respects SameBytes getHuffTbl := by
  have htable : Respects SameBytes huffTable :=
    respects_bind respects_getChar fun _ => respects_bind (respects_setBits _ _ 0 0) fun _ =>
      respects_readTable _ _
  have hturn : ∀ length, Respects SameBytes (huffTurn length) := fun length =>
    respects_ite (respects_pure _) (respects_bind htable fun _ =>
      respects_bind (respects_check _ _) fun _ => respects_pure _)
  exact respects_bind respects_allocHuffTbls fun _ => respects_bind respects_getShortWord fun _ =>
    respects_bind (respects_check _ _) fun _ => respects_loop hturn _ _ _

theorem respects_setQuant (n prec j : ℕ) : Respects SameBytes (setQuant n prec j) := by
  have hentry : Respects SameBytes (quantEntry prec) :=
    respects_ite respects_getChar (respects_bind respects_getChar fun _ => respects_getChar)
  exact respects_bind hentry fun c => respects_get (fun s t h => by rw [h.codec]) fun _ =>
    respects_bind (respects_fetch _ n) fun _ => respects_bind (respects_deref _) fun _ =>
      respects_bind (respects_fetch _ j) fun _ => respects_bind (respects_store _ _ c) fun _ =>
        respects_bind (respects_store _ n _) fun _ =>
          respects_modify fun s t h => h.setCodec (by rw [h.codec])

theorem respects_quantTable : Respects SameBytes quantTable :=
  respects_bind respects_getChar fun _ => respects_bind (respects_check _ _) fun _ =>
    respects_bind (respects_extraMemAlloc _ _) fun _ =>
      respects_get (fun s t h => by rw [h.codec]) fun _ =>
        respects_bind (respects_store _ _ _) fun _ =>
          respects_bind (respects_modify fun s t h => h.setCodec (by rw [h.codec])) fun _ =>
            respects_bind (respects_each (respects_setQuant _ _) 64 0) fun _ => respects_pure _

theorem respects_getQuantTbl : Respects SameBytes getQuantTbl := by
  have hturn : ∀ t, Respects SameBytes (quantTurn t) := fun t =>
    respects_ite (respects_pure _) (respects_bind respects_quantTable fun _ =>
      respects_bind (respects_check _ _) fun _ => respects_pure _)
  have hcompare : ∀ j, Respects SameBytes (compareQuant j) := fun j =>
    respects_get (fun s t h => by rw [h.codec]) fun _ => respects_bind (respects_fetch _ 1) fun _ =>
      respects_bind (respects_fetch _ 2) fun _ => respects_bind (respects_deref _) fun _ =>
        respects_bind (respects_deref _) fun _ => respects_bind (respects_fetch _ j) fun _ =>
          respects_bind (respects_fetch _ j) fun _ => respects_check _ _
  exact respects_bind (respects_modify fun s t h => h.setCodec (by rw [h.codec])) fun _ =>
    respects_bind respects_getShortWord fun _ => respects_bind (respects_check _ _) fun _ =>
      respects_bind (respects_loop hturn _ _ _) fun _ =>
        respects_ite (respects_each hcompare 64 0) (respects_pure _)

/-! ## The header -/

theorem respects_tablesTurn (t : Unit) : Respects SameBytes (tablesTurn t) := by
  refine respects_bind respects_getNextMarker fun c => ?_
  cases segmentOf c with
  | sof isProgressive =>
      exact respects_bind (respects_getSOF isProgressive) fun _ => respects_pure _
  | leave => exact respects_pure _
  | dht => exact respects_bind respects_getHuffTbl fun _ => respects_pure _
  | dqt => exact respects_bind respects_getQuantTbl fun _ => respects_pure _
  | app0 => exact respects_bind respects_getAPP0 fun _ => respects_pure _
  | dri => exact respects_bind respects_getDRI fun _ => respects_pure _
  | unexpected => exact respects_throw _
  | skipped => exact respects_bind respects_skipVariable fun _ => respects_pure _

theorem respects_findSOI : Respects SameBytes findSOI := by
  have hturn : ∀ t, Respects SameBytes (soiTurn t) := fun _ =>
    respects_bind respects_getNextMarker fun _ => respects_bind (respects_check _ _) fun _ =>
      respects_ite (respects_pure _) (respects_pure _)
  exact respects_get (fun s t h => by rw [h.bytes]) fun _ => respects_loop hturn _ _ _

theorem respects_processTables : Respects SameBytes processTables :=
  respects_get (fun s t h => by rw [h.bytes]) fun _ => respects_loop respects_tablesTurn _ _ _

theorem respects_afterTables (c : UInt8) : Respects SameBytes (afterTables c) :=
  respects_ite respects_getSOS (respects_throw _)

theorem respects_parseHead : Respects SameBytes parseHead :=
  respects_bind respects_findSOI fun _ => respects_bind respects_processTables fun _ =>
    respects_afterTables _

theorem sameBytes_start {stream stream' : Stream} (hread : stream.read = stream'.read)
    (hbytes : stream.bytes = stream'.bytes) (poolSize : ℕ) (asserts : Bool) :
    SameBytes (start stream poolSize asserts) (start stream' poolSize asserts) := by
  refine ⟨hbytes, ?_, rfl, rfl⟩
  change Pool.mk poolSize (if stream.read then 3 * 1024 else 0) asserts = _
  rw [hread]
  rfl

/-- `ParseHead` comes to the same end, with the same decoder and the same bytes left, however
its bytes are delivered. -/
theorem parseHead_chunks {stream stream' : Stream} (hread : stream.read = stream'.read)
    (hbytes : stream.bytes = stream'.bytes) (poolSize : ℕ) (asserts : Bool) :
    Alike SameBytes (parseHead (start stream poolSize asserts))
      (parseHead (start stream' poolSize asserts)) :=
  respects_parseHead _ _ (sameBytes_start hread hbytes poolSize asserts)

def cutStream : Stream := ⟨[0xff, 0xd8, 0xff, 0xdd, 0, 4], true, [[0], [8, 0xff, 0xd9]]⟩

def wholeStream : Stream := ⟨[], true, [[0xff, 0xd8, 0xff, 0xdd, 0, 4, 0, 8, 0xff, 0xd9]]⟩

theorem bytes_cutStream : cutStream.bytes = wholeStream.bytes := rfl

theorem parseHead_chunks_cutStream :
    Alike SameBytes (parseHead (start cutStream 8192 false))
      (parseHead (start wholeStream 8192 false)) :=
  parseHead_chunks (show cutStream.read = wholeStream.read from rfl) bytes_cutStream 8192 false

end JpegParse

end Tarako
