import Tarako.Camera.JpegEncHeader
import Tarako.Lib.Consume

/-!
# What the parser takes from its input

Triples for `ParseHead` and its segment handlers: the bytes that each of them takes, and the
state it leaves, for segments of the shape that the encoder writes. The state is told apart from
the bytes it is read from, so that nothing depends on how the read callback cuts them.
-/

namespace Tarako

namespace JpegParse

open Prog

open JpegEnc (first second third first_lt second_lt third_lt)

def src : Source State UInt8 State where
  input := State.bytes
  rest s := s.setStream ⟨[], false, []⟩

section Reads

variable {c c' s : State} {d : List UInt8}

theorem codec_of_rest (h : src.rest s = c) : s.codec = c.codec := by
  rw [← h]
  rfl

theorem consumes_getChar (x : UInt8) : Consumes src getChar [x] c x c := by
  refine consumes_of_wp fun s r hin hrest => ?_
  rw [wp_getChar]
  have hnext : s.next.bytes = r := bytes_next hin
  refine ⟨fun hnil => absurd (hnil.symm.trans hin) nofun, fun y hy => ⟨?_, hnext, hrest⟩⟩
  exact (List.cons.inj (hy.symm.trans hin)).1

theorem consumes_getShortWord (hi lo : UInt8) :
    Consumes src getShortWord [hi, lo] c (word hi lo) c :=
  consumes_bind (consumes_getChar hi) (consumes_last (consumes_getChar lo) (consumes_pure _))

theorem consumes_fetch {α : Type} {l : List α} {i : ℕ} {x : α} (h : l[i]? = some x) :
    Consumes src (fetch l i) [] c x c := by
  rw [fetch, h]
  exact consumes_pure x

theorem consumes_store {α : Type} {n : ℕ} (v : Vector α n) {i : ℕ} (x : α) (h : i < n) :
    Consumes src (store v i x) [] c (v.set i x h) c := by
  rw [store, dif_pos h]
  exact consumes_pure _

theorem consumes_deref {α : Type} {p : Option α} {x : α} (h : p = some x) :
    Consumes src (deref p) [] c x c := by
  rw [h]
  exact consumes_pure x

theorem consumes_alloc {α : Type} {memSize : ℕ} (x : α) (h : c.pool.Fits memSize) :
    Consumes src (extraMemAlloc memSize x) [] c (some x) (c.alloc memSize) := by
  refine consumes_of_wp fun s r hin hrest => ?_
  have hpool : s.pool = c.pool := by rw [← hrest]; rfl
  rw [wp_extraMemAlloc, hpool]
  refine ⟨fun _ => ⟨rfl, hin, ?_⟩, fun hno => absurd h hno⟩
  rw [← hrest]
  rfl

theorem consumes_codec (f : Codec → Codec) :
    Consumes src (modify fun s => s.setCodec (f s.codec) : M PUnit) [] c ⟨⟩
      (c.setCodec (f c.codec)) :=
  consumes_modify (g := fun s : State => s.setCodec (f s.codec)) (fun _ => rfl) fun _ => rfl

theorem consumes_input (f : DecInput → DecInput) :
    Consumes src (modify fun s => s.setInput (f s.input) : M PUnit) [] c ⟨⟩
      (c.setInput (f c.input)) :=
  consumes_modify (g := fun s : State => s.setInput (f s.input)) (fun _ => rfl) fun _ => rfl

theorem consumes_fetchComp {ci : ℕ} {comp : Component} (h : c.comps[ci]? = some comp) :
    Consumes src (fetchComp ci) [] c comp c := by
  refine consumes_of_wp fun s r hin hrest => ?_
  have hcomps : s.comps = c.comps := by rw [← hrest]; rfl
  rw [wp_fetchComp, hcomps, h]
  exact ⟨nofun, fun x hx => ⟨(Option.some.inj hx).symm, hin, hrest⟩⟩

theorem consumes_updateComp {ci : ℕ} {comp : Component} (f : Component → Component)
    (h : c.comps[ci]? = some comp) :
    Consumes src (updateComp ci f) [] c () (c.setComps (c.comps.set ci (f comp))) := by
  refine consumes_of_wp fun s r hin hrest => ?_
  have hcomps : s.comps = c.comps := by rw [← hrest]; rfl
  rw [wp_updateComp, hcomps, h]
  refine ⟨nofun, fun x hx => ⟨rfl, hin, ?_⟩⟩
  rw [← Option.some.inj hx, ← hrest]
  rfl

theorem consumes_updateTblMap {i : ℕ} (f : TblMap → TblMap) (h : i < 3) :
    Consumes src (updateTblMap i f) [] c () (c.setEntry i (f c.codec.tblMap[i]) h) := by
  refine consumes_of_wp fun s r hin hrest => ?_
  rw [wp_updateTblMap]
  refine ⟨fun hge => by omega, fun _ => ⟨rfl, hin, ?_⟩⟩
  rw [← hrest]
  rfl

theorem consumes_updateHuffTbl {ac : Bool} {index : ℕ} (h : index < NUM_HUFF_TBLS)
    {f : HuffTbl → M HuffTbl} {tbl : HuffTbl}
    (hf : Consumes src (f (c.huffTbl ac index h)) [] c tbl c) :
    Consumes src (updateHuffTbl ac index f) [] c () (c.setHuffTbl ac index tbl h) := by
  refine consumes_of_wp fun s r hin hrest => ?_
  have htbl : s.huffTbl ac index h = c.huffTbl ac index h := by
    rw [← hrest]
    rfl
  rw [wp_updateHuffTbl h, htbl]
  obtain ⟨t, ht, hbytes, hcodec⟩ := hf s r hin hrest
  refine (wp_of_yields ht).mpr ⟨rfl, hbytes, ?_⟩
  have htcodec : t.codec = c.codec := by rw [← hcodec]; rfl
  have hscodec : s.codec = c.codec := by rw [← hrest]; rfl
  rw [htcodec, hscodec, ← hcodec]
  rfl

/-! ## Markers -/

theorem consumes_nextMarker {m : UInt8} (hff : m ≠ 0xFF) (hzero : m ≠ 0) :
    Consumes src getNextMarker [0xFF, m] c m c := by
  have hfirst : Consumes src (markerTurn false) [0xFF] c (.inl true) c :=
    consumes_last (consumes_getChar 0xFF) (consumes_pos rfl (consumes_pure _))
  have hsecond : Consumes src (markerTurn true) [m] c (.inr m) c :=
    consumes_last (consumes_getChar m)
      (consumes_neg hff (consumes_pos ⟨rfl, hzero⟩ (consumes_pure _)))
  exact Loops.consumes_get (fun s : State => s.bytes.length)
    (Loops.turn hfirst nofun (Loops.leave hsecond)) fun _ => rfl

theorem consumes_segment {m : UInt8} (hff : m ≠ 0xFF) (hzero : m ≠ 0) {h : Handler}
    (hm : handlerOf m = some h) (hsos : m ≠ M_SOS) (hrun : Consumes src h.run d c () c') :
    Consumes src (tablesTurn ()) ([0xFF, m] ++ d) c (.inl ()) c' := by
  refine consumes_bind (consumes_nextMarker hff hzero) ?_
  have hgoes : Consumes src (h.run >>= fun _ => pure (.inl () : Unit ⊕ UInt8)) d c (.inl ()) c' :=
    consumes_last hrun (consumes_pure _)
  unfold handlerOf at hm
  cases hsegment : segmentOf m with
  | sof isProgressive =>
      rw [hsegment] at hm
      cases hm
      exact hgoes
  | leave =>
      rw [hsegment] at hm
      exact absurd hm (by rw [if_neg hsos]; nofun)
  | dht =>
      rw [hsegment] at hm
      cases hm
      exact hgoes
  | dqt =>
      rw [hsegment] at hm
      cases hm
      exact hgoes
  | app0 =>
      rw [hsegment] at hm
      cases hm
      exact hgoes
  | dri =>
      rw [hsegment] at hm
      cases hm
      exact hgoes
  | unexpected =>
      rw [hsegment] at hm
      cases hm
  | skipped =>
      rw [hsegment] at hm
      cases hm
      exact hgoes

theorem consumes_findSOI : Consumes src findSOI [0xFF, M_SOI] c () c := by
  refine Loops.consumes_get (fun s : State => s.bytes.length) ?_ fun _ => rfl
  refine Loops.leave (consumes_last (consumes_nextMarker (by decide) (by decide)) ?_)
  exact consumes_stay (consumes_check _ (by decide)) (consumes_pos rfl (consumes_pure _))

/-! ## Segments without tables -/

theorem consumes_skipBytes (l : List UInt8) : Consumes src (skipBytes l.length) l c () c := by
  have hstep : ∀ j, Consumes src (do let _ ← getChar : M Unit) [l.getD j 0] c () c :=
    fun j => consumes_last (consumes_getChar _) (consumes_pure _)
  have h : Consumes src (skipBytes l.length) _ c () c :=
    consumes_each (fun j => [l.getD j 0]) (fun _ => c) fun j _ _ => hstep j
  rw [JpegEnc.flatMap_getD_eq l (by omega), List.drop_zero, List.take_length] at h
  exact h

theorem consumes_getAPP0 {l : List UInt8} (hl : l.length = 14) :
    Consumes src getAPP0 ([0, 16] ++ l) c () c := by
  refine consumes_bind (consumes_getShortWord 0 16) (consumes_stay (consumes_check _ (by decide))
    (consumes_pos (by decide) ?_))
  have hskip : Consumes src (skipBytes 14) l c () c := by
    rw [← hl]
    exact consumes_skipBytes l
  exact consumes_last hskip (consumes_skipBytes [])

def State.withRestart (s : State) (restartInterval : ℕ) : State :=
  s.setCodec
    { s.codec with restartInterval, restartToGo := restartInterval, nextRestartNum := 0 }

theorem consumes_getDRI (hi lo : UInt8) :
    Consumes src getDRI [0, 4, hi, lo] c () (c.withRestart (word hi lo)) := by
  refine consumes_bind (consumes_getShortWord 0 4) (consumes_stay (consumes_check _ (by decide)) ?_)
  exact consumes_last (consumes_getShortWord hi lo) (consumes_codec fun codec =>
    { codec with
      restartInterval := word hi lo
      restartToGo := word hi lo
      nextRestartNum := 0 })

/-! ## Quantization tables -/

/-- The entries of a table that have been read when the first `j` ones of the stream have. -/
def QuantRead (quant : List UInt8) (j : ℕ) (v : Vector UInt8 64) : Prop :=
  ∀ k < j, ∀ z (h : z < 64), zigzagOrder[k]? = some z → v[z] = quant.getD z 0

/-- The table behind `j` entries of the stream. -/
def quantAfter (quant : List UInt8) : ℕ → Vector UInt8 64
  | 0 => Vector.replicate 64 0
  | j + 1 =>
      (quantAfter quant j).setIfInBounds (zigzagOrder.getD j 0)
        (quant.getD (zigzagOrder.getD j 0) 0)

theorem quantRead_quantAfter (quant : List UInt8) {j : ℕ} (hj : j ≤ 64) :
    QuantRead quant j (quantAfter quant j) := by
  induction j with
  | zero => exact fun k hk => absurd hk (Nat.not_lt_zero k)
  | succ j ih =>
      intro k hk z hz hget
      rw [quantAfter, Vector.getElem_setIfInBounds]
      split_ifs with heq
      · rw [heq]
      · have hne : k ≠ j := by
          rintro rfl
          rw [List.getD_eq_getElem?_getD, hget] at heq
          exact heq rfl
        exact ih (by omega) k (by omega) z hz hget

theorem exists_zigzagOrder {z : ℕ} (hz : z < 64) : ∃ k < 64, zigzagOrder[k]? = some z := by
  have hall : ∀ z : Fin 64, ∃ k : Fin 64, zigzagOrder[k.1]? = some z.1 := by decide +kernel
  obtain ⟨k, hk⟩ := hall ⟨z, hz⟩
  exact ⟨k.1, k.2, hk⟩

theorem getElem_quantAfter (quant : List UInt8) {z : ℕ} (hz : z < 64) :
    (quantAfter quant 64)[z] = quant.getD z 0 := by
  obtain ⟨k, hk, hget⟩ := exists_zigzagOrder hz
  exact quantRead_quantAfter quant (Nat.le_refl 64) k hk z hz hget

theorem setIfInBounds_eq_set {α : Type} {n : ℕ} (v : Vector α n) {i : ℕ} (x : α) (h : i < n) :
    v.setIfInBounds i x = v.set i x h := by
  ext j hj
  rw [Vector.getElem_setIfInBounds, Vector.getElem_set]

/-- The state in which the table `n` has the elements `v`. -/
def State.withQuant (s : State) (n : ℕ) (v : Vector UInt8 64) (h : n < 3) : State :=
  s.setCodec { s.codec with quantTbl := s.codec.quantTbl.set n (some v) h }

theorem consumes_setQuant {quant : List UInt8} {n j : ℕ} (hn : n < 3) (hj : j < 64) :
    Consumes src (setQuant n 0 j) [quant.getD (zigzagOrder.getD j 0) 0]
      (c.withQuant n (quantAfter quant j) hn) () (c.withQuant n (quantAfter quant (j + 1)) hn) := by
  obtain ⟨z, hz, hlt, hget⟩ := JpegEnc.zigzagOrder_lt hj
  have hchar : Consumes src (quantEntry 0) [quant.getD (zigzagOrder.getD j 0) 0]
      (c.withQuant n (quantAfter quant j) hn) (quant.getD (zigzagOrder.getD j 0) 0)
      (c.withQuant n (quantAfter quant j) hn) := consumes_pos rfl (consumes_getChar _)
  refine consumes_last hchar (consumes_get fun s hs _ => ?_)
  have hcodec : s.codec.quantTbl = c.codec.quantTbl.set n (some (quantAfter quant j)) hn := by
    rw [codec_of_rest hs]
    rfl
  rw [hcodec]
  refine consumes_stay (consumes_fetch (x := some (quantAfter quant j)) ?_) ?_
  · rw [JpegEnc.getElem?_toList _ hn, Vector.getElem_set_self]
  refine consumes_stay (consumes_deref rfl) (consumes_stay (consumes_fetch hz) ?_)
  refine consumes_stay (consumes_store _ _ hlt) (consumes_stay (consumes_store _ _ hn) ?_)
  have hafter : quantAfter quant (j + 1) =
      (quantAfter quant j).set z (quant.getD (zigzagOrder.getD j 0) 0) hlt := by
    rw [quantAfter, hget, setIfInBounds_eq_set]
  rw [Vector.set_set, ← hafter]
  exact consumes_codec fun codec =>
    { codec with quantTbl := c.codec.quantTbl.set n (some (quantAfter quant (j + 1))) hn }

/-- The state behind the DQT of the table `n`. -/
def State.quantized (s : State) (n : ℕ) (quant : List UInt8) (h : n < 3) : State :=
  ((s.setCodec { s.codec with usingDefaultQuantTab := false }).alloc 64).withQuant n
    (quantAfter quant 64) h

theorem consumes_quantTable {quant : List UInt8} {n : ℕ} (hn : n < 2) (hfits : c.pool.Fits 64) :
    Consumes src quantTable ([.ofNat n] ++ JpegEnc.zigzagged quant) c (n, 0)
      ((c.alloc 64).withQuant n (quantAfter quant 64) (by omega)) := by
  have hnat : (UInt8.ofNat n).toNat = n := by
    rw [UInt8.toNat_ofNat', Nat.mod_eq_of_lt (by omega)]
  refine consumes_bind (consumes_getChar _) ?_
  rw [hnat, Nat.mod_eq_of_lt (show n < 16 by omega), Nat.div_eq_of_lt (show n < 16 by omega)]
  refine consumes_stay (consumes_check _ (by omega)) ?_
  refine consumes_stay (consumes_alloc _ hfits) (consumes_get fun s hs _ => ?_)
  have hcodec : s.codec.quantTbl = c.codec.quantTbl := by
    rw [codec_of_rest hs]
    rfl
  rw [hcodec]
  refine consumes_stay (consumes_store _ _ (by omega)) ?_
  refine consumes_stay (consumes_codec fun codec =>
    { codec with quantTbl := c.codec.quantTbl.set n (some (quantAfter quant 0)) }) ?_
  have heach : Consumes src (each (setQuant n 0) 64 0) (JpegEnc.zigzagged quant)
      ((c.alloc 64).withQuant n (quantAfter quant 0) (by omega)) ()
      ((c.alloc 64).withQuant n (quantAfter quant 64) (by omega)) := by
    rw [JpegEnc.zigzagged, List.map_eq_flatMap]
    exact consumes_each (fun j => [quant.getD (zigzagOrder.getD j 0) 0])
      (fun j => (c.alloc 64).withQuant n (quantAfter quant j) (by omega))
      fun j _ hj => consumes_setQuant (by omega) (by omega)
  exact consumes_last heach (consumes_pure _)

theorem consumes_getQuantTbl {quant : List UInt8} {n : ℕ} (hn : n < 2)
    (hfits : c.pool.Fits 64) :
    Consumes src getQuantTbl (JpegEnc.wordBytes 67 ++ ([.ofNat n] ++ JpegEnc.zigzagged quant)) c ()
      (c.quantized n quant (by omega)) := by
  refine consumes_stay (consumes_codec fun codec => { codec with usingDefaultQuantTab := false }) ?_
  refine consumes_bind (consumes_getShortWord 0 67) (consumes_stay (consumes_check _ (by decide)) ?_)
  have hfirst : Consumes src (quantTurn (65, false)) ([.ofNat n] ++ JpegEnc.zigzagged quant)
      (c.setCodec { c.codec with usingDefaultQuantTab := false })
      (.inl (0, false || decide (1 < n))) (c.quantized n quant (by omega)) :=
    consumes_neg (by decide) (consumes_last (consumes_quantTable hn hfits)
      (consumes_stay (consumes_check _ (by decide)) (consumes_pure _)))
  have hlast : Consumes src (quantTurn (0, false || decide (1 < n))) []
      (c.quantized n quant (by omega)) (.inr (false || decide (1 < n)))
      (c.quantized n quant (by omega)) := consumes_pos rfl (consumes_pure _)
  have hloop : Loops src quantTurn Stop.failed (65, false)
      (([.ofNat n] ++ JpegEnc.zigzagged quant) ++ []) _ _ _ :=
    Loops.turn hfirst nofun (Loops.leave hlast)
  rw [List.append_nil] at hloop
  have hlen : (JpegEnc.zigzagged quant).length = 64 := by
    rw [JpegEnc.zigzagged, List.length_map, List.length_range']
  refine consumes_last (hloop 68 ?_) (consumes_neg ?_ (consumes_pure _))
  · rw [List.length_append, hlen, List.length_singleton]
    decide
  · rw [Bool.false_or, decide_eq_true_eq]
    omega

/-! ## Huffman tables -/

/-- The elements `l` from the place `i` on. -/
def fill {n : ℕ} (v : Vector UInt8 n) (i : ℕ) : List UInt8 → Vector UInt8 n
  | [] => v
  | x :: l => fill (v.setIfInBounds i x) (i + 1) l

/-- The elements `l` are those of the table from the place `i` on. -/
def sameFrom (table : List UInt8) (i : ℕ) : List UInt8 → Bool
  | [] => true
  | x :: l => decide (table[i]? = some x) && sameFrom table (i + 1) l

theorem getElem_fill {n : ℕ} (v : Vector UInt8 n) (i : ℕ) (l : List UInt8) {j : ℕ} (hj : j < n) :
    (fill v i l)[j] = if i ≤ j ∧ j < i + l.length then l.getD (j - i) 0 else v[j] := by
  induction l generalizing v i with
  | nil => rw [fill, if_neg (by rw [List.length_nil]; omega)]
  | cons x l ih =>
      rw [fill, ih, List.length_cons]
      by_cases heq : j = i
      · rw [if_neg (by omega), if_pos (by omega), Vector.getElem_setIfInBounds, if_pos heq.symm,
          heq, Nat.sub_self]
        rfl
      · rw [Vector.getElem_setIfInBounds, if_neg (Ne.symm heq)]
        by_cases hin : i + 1 ≤ j ∧ j < i + 1 + l.length
        · obtain ⟨k, rfl⟩ : ∃ k, j = i + 1 + k := ⟨j - (i + 1), by omega⟩
          rw [if_pos hin, if_pos (by omega), Nat.add_sub_cancel_left,
            show i + 1 + k - i = k + 1 by omega, List.getD_cons_succ]
        · rw [if_neg hin, if_neg (by omega)]

theorem sameFrom_iff {table l : List UInt8} {i : ℕ} (h : i + l.length ≤ table.length) :
    sameFrom table i l = true ↔ (table.drop i).take l.length = l := by
  induction l generalizing i with
  | nil => simp [sameFrom]
  | cons x l ih =>
      rw [List.length_cons] at h
      have hlt : i < table.length := by omega
      rw [sameFrom, Bool.and_eq_true, decide_eq_true_eq, ih (by omega), List.length_cons,
        List.drop_eq_getElem_cons hlt, List.take_succ_cons, List.cons.injEq,
        List.getElem?_eq_getElem hlt, Option.some_inj]

/-- The state in which a table has these arrays, and in which the tables are the default ones
only if `same` holds. -/
def State.withTbl (s : State) (ac : Bool) (index : ℕ) (h : index < NUM_HUFF_TBLS)
    (bits : Vector UInt8 (MAX_BITS_SIZE + 1)) (huffval : Vector UInt8 (AC_SYMBOL_NUM + 1))
    (same : Bool) : State :=
  let t := s.setHuffTbl ac index ⟨some bits, some huffval⟩ h
  t.setCodec { t.codec with usingDefaultHuffTab := s.codec.usingDefaultHuffTab && same }

section Table

variable {ac : Bool} {index : ℕ} {h : index < NUM_HUFF_TBLS}
  {bits : Vector UInt8 (MAX_BITS_SIZE + 1)} {huffval : Vector UInt8 (AC_SYMBOL_NUM + 1)}
  {same : Bool}

theorem huffTbl_withTbl :
    (c.withTbl ac index h bits huffval same).huffTbl ac index h = ⟨some bits, some huffval⟩ := by
  cases ac with
  | false => exact Vector.getElem_set_self h
  | true => exact Vector.getElem_set_self h

theorem setHuffTbl_withTbl (bits' : Vector UInt8 (MAX_BITS_SIZE + 1))
    (huffval' : Vector UInt8 (AC_SYMBOL_NUM + 1)) :
    (c.withTbl ac index h bits huffval same).setHuffTbl ac index ⟨some bits', some huffval'⟩ h =
      c.withTbl ac index h bits' huffval' same := by
  cases ac with
  | false =>
      have hset : (c.codec.dcHuffTbl.set index ⟨some bits, some huffval⟩ h).set index
          ⟨some bits', some huffval'⟩ h = c.codec.dcHuffTbl.set index ⟨some bits', some huffval'⟩ h :=
        Vector.set_set ..
      unfold State.withTbl State.setHuffTbl
      exact congrArg (fun tbls => c.setCodec { c.codec with
        dcHuffTbl := tbls, usingDefaultHuffTab := c.codec.usingDefaultHuffTab && same }) hset
  | true =>
      have hset : (c.codec.acHuffTbl.set index ⟨some bits, some huffval⟩ h).set index
          ⟨some bits', some huffval'⟩ h = c.codec.acHuffTbl.set index ⟨some bits', some huffval'⟩ h :=
        Vector.set_set ..
      unfold State.withTbl State.setHuffTbl
      exact congrArg (fun tbls => c.setCodec { c.codec with
        acHuffTbl := tbls, usingDefaultHuffTab := c.codec.usingDefaultHuffTab && same }) hset

theorem withTbl_self (htbl : c.huffTbl ac index h = ⟨some bits, some huffval⟩) :
    c.withTbl ac index h bits huffval true = c := by
  unfold State.withTbl State.setHuffTbl
  rw [← htbl, Bool.and_true]
  cases ac with
  | false =>
      have hset : c.codec.dcHuffTbl.set index (c.huffTbl false index h) h = c.codec.dcHuffTbl :=
        Vector.set_getElem_self h
      exact congrArg (fun tbls => c.setCodec { c.codec with dcHuffTbl := tbls }) hset
  | true =>
      have hset : c.codec.acHuffTbl.set index (c.huffTbl true index h) h = c.codec.acHuffTbl :=
        Vector.set_getElem_self h
      exact congrArg (fun tbls => c.setCodec { c.codec with acHuffTbl := tbls }) hset

theorem consumes_setBits {i : ℕ} (hi : i < MAX_BITS_SIZE + 1) (x : UInt8) :
    Consumes src (setBits ac index i x) [] (c.withTbl ac index h bits huffval same) ()
      (c.withTbl ac index h (bits.setIfInBounds i x) huffval same) := by
  have hset : (c.withTbl ac index h bits huffval same).setHuffTbl ac index
      ⟨some (bits.set i x hi), some huffval⟩ h =
        c.withTbl ac index h (bits.set i x hi) huffval same := setHuffTbl_withTbl _ _
  rw [setIfInBounds_eq_set bits x hi, ← hset]
  refine consumes_updateHuffTbl h ?_
  rw [huffTbl_withTbl]
  exact consumes_stay (consumes_deref rfl)
    (consumes_stay (consumes_store bits x hi) (consumes_pure _))

theorem consumes_setHuffval {i : ℕ} (hi : i < AC_SYMBOL_NUM + 1) (x : UInt8) :
    Consumes src (setHuffval ac index i x) [] (c.withTbl ac index h bits huffval same) ()
      (c.withTbl ac index h bits (huffval.setIfInBounds i x) same) := by
  have hset : (c.withTbl ac index h bits huffval same).setHuffTbl ac index
      ⟨some bits, some (huffval.set i x hi)⟩ h =
        c.withTbl ac index h bits (huffval.set i x hi) same := setHuffTbl_withTbl _ _
  rw [setIfInBounds_eq_set huffval x hi, ← hset]
  refine consumes_updateHuffTbl h ?_
  rw [huffTbl_withTbl]
  exact consumes_stay (consumes_deref rfl)
    (consumes_stay (consumes_store huffval x hi) (consumes_pure _))

theorem consumes_compareDefault {table : List UInt8} {i : ℕ} (hi : i < table.length) (x : UInt8) :
    Consumes src (compareDefault table i x) [] (c.withTbl ac index h bits huffval same) ()
      (c.withTbl ac index h bits huffval (same && decide (table[i]? = some x))) := by
  refine consumes_stay (consumes_fetch (List.getElem?_eq_getElem hi)) ?_
  rw [List.getElem?_eq_getElem hi]
  by_cases heq : x = table[i]
  · refine consumes_neg (fun hne => hne heq) ?_
    rw [heq, decide_eq_true rfl, Bool.and_true]
    exact consumes_pure ()
  · refine consumes_pos heq ?_
    have hne : decide (some table[i] = some x) = false :=
      decide_eq_false fun hsome => heq (Option.some.inj hsome).symm
    rw [hne, Bool.and_false]
    have hstate : c.withTbl ac index h bits huffval false =
        (c.withTbl ac index h bits huffval same).setCodec
          { (c.withTbl ac index h bits huffval same).codec with usingDefaultHuffTab := false } := by
      unfold State.withTbl
      rw [Bool.and_false]
      rfl
    rw [hstate]
    exact consumes_codec fun codec => { codec with usingDefaultHuffTab := false }

theorem consumes_readBits {l : List UInt8} {i count : ℕ} (hil : i + l.length ≤ MAX_BITS_SIZE + 1) :
    Consumes src (readBits ac index l.length i count) l (c.withTbl ac index h bits huffval same)
      (count + (l.map UInt8.toNat).sum)
      (c.withTbl ac index h (fill bits i l) huffval
        (same && sameFrom (defaultBits ac index) i l)) := by
  induction l generalizing i count bits same with
  | nil =>
      rw [sameFrom, Bool.and_true]
      exact consumes_pure _
  | cons x l ih =>
      rw [List.length_cons] at hil
      have hlen : i < (defaultBits ac index).length := by
        rw [length_defaultBits]
        omega
      refine consumes_bind (consumes_getChar x) (consumes_stay (consumes_setBits (by omega) x)
        (consumes_stay (consumes_compareDefault hlen x) ?_))
      rw [List.map_cons, List.sum_cons, ← Nat.add_assoc, sameFrom, ← Bool.and_assoc]
      exact ih (by omega)

theorem consumes_readHuffvals {l : List UInt8} {i : ℕ}
    (hil : i + l.length ≤ (defaultHuffval ac index).length) :
    Consumes src (each (readHuffval ac index) l.length i) l
      (c.withTbl ac index h bits huffval same) ()
      (c.withTbl ac index h bits (fill huffval i l)
        (same && sameFrom (defaultHuffval ac index) i l)) := by
  have hle : (defaultHuffval ac index).length ≤ AC_SYMBOL_NUM := by
    rw [length_defaultHuffval]
    cases ac <;> decide
  induction l generalizing i huffval same with
  | nil =>
      rw [sameFrom, Bool.and_true]
      exact consumes_pure _
  | cons x l ih =>
      rw [List.length_cons] at hil
      have hstep : Consumes src (readHuffval ac index i) [x]
          (c.withTbl ac index h bits huffval same) ()
          (c.withTbl ac index h bits (huffval.setIfInBounds i x)
            (same && decide ((defaultHuffval ac index)[i]? = some x))) :=
        consumes_last (consumes_getChar x)
          (consumes_stay (consumes_setHuffval (by omega) x) (consumes_compareDefault (by omega) x))
      refine consumes_bind hstep ?_
      rw [sameFrom, ← Bool.and_assoc]
      exact ih (by omega)

theorem consumes_readTable {l vals : List UInt8} (hl : l.length = 16)
    (hn : vals.length = (l.map UInt8.toNat).sum)
    (hfit : vals.length ≤ (defaultHuffval ac index).length) :
    Consumes src (readTable ac index) (l ++ vals) (c.withTbl ac index h bits huffval same)
      vals.length (c.withTbl ac index h (fill bits 1 l) (fill huffval 0 vals)
        (same && sameFrom (defaultBits ac index) 1 l &&
          sameFrom (defaultHuffval ac index) 0 vals)) := by
  have hbits : Consumes src (readBits ac index l.length 1 0) l
      (c.withTbl ac index h bits huffval same) (0 + (l.map UInt8.toNat).sum)
      (c.withTbl ac index h (fill bits 1 l) huffval
        (same && sameFrom (defaultBits ac index) 1 l)) := consumes_readBits (by rw [hl]; decide)
  rw [hl, Nat.zero_add, ← hn] at hbits
  have hle : (defaultHuffval ac index).length ≤ 256 := by
    rw [length_defaultHuffval]
    cases ac <;> decide
  refine consumes_bind hbits (consumes_stay (consumes_check _ (by omega)) ?_)
  exact consumes_last (consumes_readHuffvals (by omega)) (consumes_pure _)

end Table

def State.tabled (s : State) (ac : Bool) (index : ℕ) (h : index < NUM_HUFF_TBLS)
    (l vals : List UInt8) : State :=
  s.withTbl ac index h (fill (Vector.replicate (MAX_BITS_SIZE + 1) 0) 1 l)
    (fill (Vector.replicate (AC_SYMBOL_NUM + 1) 0) 0 vals)
    (sameFrom (defaultBits ac index) 1 l && sameFrom (defaultHuffval ac index) 0 vals)

/-- A table as `allocHuffTbl` leaves it. -/
def emptyHuffTbl : HuffTbl :=
  ⟨some (Vector.replicate (MAX_BITS_SIZE + 1) 0), some (Vector.replicate (AC_SYMBOL_NUM + 1) 0)⟩

def tblByte (ac : Bool) (index : ℕ) : UInt8 := .ofNat ((if ac then 16 else 0) + index)

theorem consumes_huffTable {ac : Bool} {index : ℕ} (h : index < NUM_HUFF_TBLS)
    {l vals : List UInt8} (hempty : c.huffTbl ac index h = emptyHuffTbl) (hl : l.length = 16)
    (hn : vals.length = (l.map UInt8.toNat).sum)
    (hfit : vals.length ≤ (defaultHuffval ac index).length) :
    Consumes src huffTable ([tblByte ac index] ++ (l ++ vals)) c vals.length
      (c.tabled ac index h l vals) := by
  have hindex : (tblByte ac index).toNat % 4 = index := by
    unfold NUM_HUFF_TBLS at h
    rw [tblByte, UInt8.toNat_ofNat']
    split_ifs <;> omega
  have hac : decide ((tblByte ac index).toNat / 16 % 2 = 1) = ac := by
    unfold NUM_HUFF_TBLS at h
    rw [tblByte, UInt8.toNat_ofNat']
    cases ac with
    | false => exact decide_eq_false (by rw [if_neg nofun]; omega)
    | true => exact decide_eq_true (by rw [if_pos rfl]; omega)
  refine consumes_bind (consumes_getChar _) ?_
  rw [hindex, hac]
  have hself := withTbl_self hempty
  have hzero : (Vector.replicate (MAX_BITS_SIZE + 1) (0 : UInt8)).setIfInBounds 0 0 =
      Vector.replicate (MAX_BITS_SIZE + 1) 0 := by decide
  have hset : Consumes src (setBits ac index 0 0) []
      (c.withTbl ac index h (Vector.replicate (MAX_BITS_SIZE + 1) 0)
        (Vector.replicate (AC_SYMBOL_NUM + 1) 0) true) ()
      (c.withTbl ac index h ((Vector.replicate (MAX_BITS_SIZE + 1) 0).setIfInBounds 0 0)
        (Vector.replicate (AC_SYMBOL_NUM + 1) 0) true) := consumes_setBits (by decide) 0
  have htable : Consumes src (readTable ac index) (l ++ vals)
      (c.withTbl ac index h (Vector.replicate (MAX_BITS_SIZE + 1) 0)
        (Vector.replicate (AC_SYMBOL_NUM + 1) 0) true) vals.length
      (c.withTbl ac index h (fill (Vector.replicate (MAX_BITS_SIZE + 1) 0) 1 l)
        (fill (Vector.replicate (AC_SYMBOL_NUM + 1) 0) 0 vals)
        (true && sameFrom (defaultBits ac index) 1 l &&
          sameFrom (defaultHuffval ac index) 0 vals)) := consumes_readTable hl hn hfit
  rw [hzero, hself] at hset
  rw [hself, Bool.true_and] at htable
  exact consumes_stay hset htable

theorem word_wordBytes (w : UInt16) : word (w >>> 8).toUInt8 w.toUInt8 = w.toNat := by
  have hlt := w.toNat_lt
  rw [word]
  simp only [UInt16.toNat_toUInt8, UInt16.toNat_shiftRight, UInt16.reduceToNat,
    Nat.shiftRight_eq_div_pow, Nat.reduceMod, Nat.reducePow]
  omega

theorem consumes_getHuffTbl {c₀ : State} (halloc : Consumes src allocHuffTbls [] c₀ () c)
    {ac : Bool} {index : ℕ} (h : index < NUM_HUFF_TBLS) {l vals : List UInt8}
    (hempty : c.huffTbl ac index h = emptyHuffTbl) (hl : l.length = 16)
    (hn : vals.length = (l.map UInt8.toNat).sum)
    (hfit : vals.length ≤ (defaultHuffval ac index).length) :
    Consumes src getHuffTbl (JpegEnc.wordBytes (19 + .ofNat vals.length) ++
      ([tblByte ac index] ++ (l ++ vals))) c₀ () (c.tabled ac index h l vals) := by
  have hle : vals.length ≤ 256 := by
    rw [length_defaultHuffval] at hfit
    cases ac
    · exact Nat.le_trans hfit (by decide)
    · exact hfit
  have hnat : (19 + UInt16.ofNat vals.length).toNat = 19 + vals.length := by
    rw [UInt16.toNat_add, UInt16.toNat_ofNat']
    change (19 + vals.length % 2 ^ 16) % 2 ^ 16 = _
    omega
  have hword := consumes_getShortWord (c := c) ((19 + UInt16.ofNat vals.length) >>> 8).toUInt8
    (19 + UInt16.ofNat vals.length).toUInt8
  rw [word_wordBytes, hnat] at hword
  refine consumes_stay halloc (consumes_bind hword ?_)
  refine consumes_stay (consumes_check _ (by omega)) ?_
  have hfirst : Consumes src (huffTurn (19 + vals.length - 2))
      ([tblByte ac index] ++ (l ++ vals)) c (.inl 0) (c.tabled ac index h l vals) := by
    refine consumes_neg (by omega) (consumes_last (consumes_huffTable h hempty hl hn hfit) ?_)
    refine consumes_stay (consumes_check _ (by omega)) ?_
    rw [show 19 + vals.length - 2 - (1 + 16 + vals.length) = 0 by omega]
    exact consumes_pure _
  have hlast : Consumes src (huffTurn 0) [] (c.tabled ac index h l vals) (.inr ())
      (c.tabled ac index h l vals) := consumes_pos rfl (consumes_pure _)
  have hloop : Loops src huffTurn Stop.failed (19 + vals.length - 2)
      (([tblByte ac index] ++ (l ++ vals)) ++ []) _ _ _ :=
    Loops.turn hfirst nofun (Loops.leave hlast)
  rw [List.append_nil] at hloop
  refine hloop _ ?_
  rw [List.length_append, List.length_append, List.length_singleton, hl]
  omega

theorem consumes_allocHuffTbls_again (hmalloced : c.codec.huffTblMalloced = true) :
    Consumes src allocHuffTbls [] c () c := by
  refine consumes_get fun s hs _ => consumes_neg ?_ (consumes_pure ())
  rw [codec_of_rest hs, hmalloced]
  nofun

theorem fits_of_le {p : Pool} {memSize : ℕ} (hpos : 0 < memSize)
    (h : p.used + aligned memSize ≤ p.size) : p.Fits memSize := by
  refine ⟨?_, by omega⟩
  unfold aligned
  omega

/-- The state with these tables, when `used` bytes of the pool are. -/
def State.withTbls (s : State) (used : ℕ) (dc ac : Vector HuffTbl NUM_HUFF_TBLS) : State :=
  (s.setPool { s.pool with used }).setCodec { s.codec with dcHuffTbl := dc, acHuffTbl := ac }

theorem consumes_allocHuffTbl {used : ℕ} {dc ac : Vector HuffTbl NUM_HUFF_TBLS} {i : ℕ}
    (h : i < NUM_HUFF_TBLS) (hpool : used + 560 ≤ c.pool.size) :
    Consumes src (allocHuffTbl i) [] (c.withTbls used dc ac) ()
      (c.withTbls (used + 560) (dc.set i emptyHuffTbl h) (ac.set i emptyHuffTbl h)) := by
  have halloc : ∀ {u memSize : ℕ} (v : ℕ) (x : Vector UInt8 memSize), 0 < memSize →
      u + aligned memSize = v → v ≤ c.pool.size →
      Consumes src (extraMemAlloc memSize x) [] (c.withTbls u dc ac) (some x)
        (c.withTbls v dc ac) := by
    rintro u memSize v x hpos rfl hle
    exact consumes_alloc x (fits_of_le hpos hle)
  refine consumes_stay (halloc (used + 20) _ (by decide) rfl (by omega)) ?_
  refine consumes_stay (halloc (used + 280) _ (by decide) rfl (by omega)) ?_
  refine consumes_stay (halloc (used + 300) _ (by decide) rfl (by omega)) ?_
  refine consumes_stay (halloc (used + 560) _ (by decide) rfl (by omega)) ?_
  exact consumes_stay (consumes_updateHuffTbl h (consumes_pure emptyHuffTbl))
    (consumes_updateHuffTbl h (consumes_pure emptyHuffTbl))

theorem set_all (v : Vector HuffTbl NUM_HUFF_TBLS) (x : HuffTbl) :
    (((v.set 0 x).set 1 x).set 2 x).set 3 x = Vector.replicate NUM_HUFF_TBLS x := by
  ext j hj
  simp only [Vector.getElem_set, Vector.getElem_replicate]
  unfold NUM_HUFF_TBLS at hj
  split_ifs <;> first | rfl | omega

def State.tablesAllocated (s : State) : State :=
  let t := s.withTbls (s.pool.used + 2240) (Vector.replicate NUM_HUFF_TBLS emptyHuffTbl)
    (Vector.replicate NUM_HUFF_TBLS emptyHuffTbl)
  t.setCodec { t.codec with huffTblMalloced := true }

theorem consumes_allocHuffTbls (hmalloced : c.codec.huffTblMalloced = false)
    (hpool : c.pool.used + 2240 ≤ c.pool.size) :
    Consumes src allocHuffTbls [] c () c.tablesAllocated := by
  refine consumes_get fun s hs _ => consumes_pos ?_ ?_
  · rw [codec_of_rest hs, hmalloced]
  have hused : c.pool.used + 560 ≤ c.pool.size := by omega
  have hfirst : Consumes src (allocHuffTbl 0) [] c () (c.withTbls (c.pool.used + 560)
      (c.codec.dcHuffTbl.set 0 emptyHuffTbl) (c.codec.acHuffTbl.set 0 emptyHuffTbl)) :=
    consumes_allocHuffTbl (c := c) (by decide) hused
  have hall : Consumes src (each allocHuffTbl NUM_HUFF_TBLS 0) [] c () (c.withTbls
      (c.pool.used + 2240)
      ((((c.codec.dcHuffTbl.set 0 emptyHuffTbl).set 1 emptyHuffTbl).set 2 emptyHuffTbl).set 3
        emptyHuffTbl)
      ((((c.codec.acHuffTbl.set 0 emptyHuffTbl).set 1 emptyHuffTbl).set 2 emptyHuffTbl).set 3
        emptyHuffTbl)) :=
    consumes_stay hfirst (consumes_stay (consumes_allocHuffTbl (by decide) (by omega))
      (consumes_stay (consumes_allocHuffTbl (by decide) (by omega))
        (consumes_stay (consumes_allocHuffTbl (by decide) (by omega)) (consumes_pure ()))))
  rw [set_all, set_all] at hall
  exact consumes_stay hall
    (consumes_codec fun codec => { codec with huffTblMalloced := true })

/-! ## The frame -/

def readComponent (ci : ℕ) (hv : UInt8) : Component where
  componentId := .ofNat (ci + 1)
  componentIndex := ci
  hSampFactor := hv.toNat / 16
  vSampFactor := hv.toNat % 16
  mcuWidth := if ci = 0 then hv.toNat / 16 else 1
  mcuHeight := if ci = 0 then hv.toNat % 16 else 1

def State.withComponent (s : State) (ci : ℕ) (hv q : UInt8) (h : ci < 3) : State :=
  (s.setComps (s.comps.set ci (readComponent ci hv))).setEntry ci
    { s.codec.tblMap[ci] with quantTblId := q.toNat } h

theorem consumes_sofComponent {ci : ℕ} (hv : UInt8) {q : UInt8} (hci : ci < 3)
    (hlen : ci < c.comps.length) (hq : q.toNat ≤ 2) :
    Consumes src (sofComponent ci) [.ofNat (ci + 1), hv, q] c () (c.withComponent ci hv q hci) := by
  have hid : (UInt8.ofNat (ci + 1)).toNat = ci + 1 := by
    rw [UInt8.toNat_ofNat', Nat.mod_eq_of_lt (by omega)]
  have hcomp : c.comps[ci]? = some c.comps[ci] := List.getElem?_eq_getElem hlen
  refine consumes_bind (d := [.ofNat (ci + 1)]) (consumes_getChar _) ?_
  refine consumes_stay (consumes_updateComp _ hcomp) ?_
  refine consumes_stay (consumes_check _ (by omega)) ?_
  refine consumes_bind (d := [hv]) (consumes_getChar _) ?_
  have hsecond := consumes_updateComp
    (c := c.setComps (c.comps.set ci { c.comps[ci] with
      componentIndex := ci, componentId := .ofNat (ci + 1) }))
    (fun comp => { comp with
      hSampFactor := hv.toNat / 16
      vSampFactor := hv.toNat % 16
      mcuWidth := if ci = 0 then hv.toNat / 16 else 1
      mcuHeight := if ci = 0 then hv.toNat % 16 else 1 })
    (List.getElem?_set_self hlen)
  change Consumes src _ [] _ () (c.setComps ((c.comps.set ci _).set ci (readComponent ci hv)))
    at hsecond
  rw [List.set_set] at hsecond
  refine consumes_stay hsecond ?_
  refine consumes_last (consumes_getChar q) (consumes_stay (consumes_check _ hq) ?_)
  rw [hid, Nat.add_sub_cancel]
  exact consumes_updateTblMap (c := c.setComps (c.comps.set ci (readComponent ci hv)))
    (fun entry => { entry with quantTblId := q.toNat }) hci

/-- The state behind the header of a frame and the allocation of its three components. -/
def State.framed (s : State) (height width : ℕ) : State :=
  let t := s.setInput
    { s.input with progressiveMode := false, inputHeight := height, inputWidth := width }
  (t.alloc 48).setCodec
    { t.codec with
      numComponents := 3
      compInfo := some (List.replicate 3 (default : Component)) }

/-- The state behind a SOF0 of three components, by their second and third bytes. -/
def State.sof (s : State) (height width : ℕ) (hv0 hv1 hv2 q0 q1 q2 : UInt8)
    (info : McuInfo) : State :=
  let t := (((s.framed height width).withComponent 0 hv0 q0 first_lt).withComponent 1 hv1 q1
    second_lt).withComponent 2 hv2 q2 third_lt
  t.setInput { t.input with inputMcuInfo := info }

theorem consumes_sofFormat {a u v : Component} (hcomps : c.comps = [a, u, v]) {info : McuInfo}
    (hinfo : mcuInfoOf (sampling a) = some info) (hu : sampling u = 0x11)
    (hv : sampling v = 0x11) :
    Consumes src (sofFormat 3) [] c () (c.setInput { c.input with inputMcuInfo := info }) := by
  have hfirst : c.comps[0]? = some a := by rw [hcomps]; rfl
  have hsecond : c.comps[1]? = some u := by rw [hcomps]; rfl
  have hthird : c.comps[2]? = some v := by rw [hcomps]; rfl
  refine consumes_stay (consumes_fetchComp hfirst) (consumes_neg (by decide) ?_)
  rw [hinfo]
  refine consumes_stay (consumes_input fun input => { input with inputMcuInfo := info }) ?_
  refine consumes_stay (consumes_fetchComp hsecond) (consumes_stay (consumes_check _ hu) ?_)
  exact consumes_pos (by decide)
    (consumes_stay (consumes_fetchComp hthird) (consumes_check _ hv))

theorem consumes_getSOF (hh hl wh wl : UInt8) {hv0 hv1 hv2 q0 q1 q2 : UInt8} {info : McuInfo}
    (hfits : c.pool.Fits 48) (hq0 : q0.toNat ≤ 2) (hq1 : q1.toNat ≤ 2) (hq2 : q2.toNat ≤ 2)
    (hinfo : mcuInfoOf (hv0.toNat / 16 * 16 + hv0.toNat % 16) = some info)
    (hu : hv1 = 0x11) (hv : hv2 = 0x11) :
    Consumes src (getSOF false)
      ([0, 17] ++ ([8] ++ ([hh, hl] ++ ([wh, wl] ++ ([3] ++
        ([.ofNat 1, hv0, q0] ++ ([.ofNat 2, hv1, q1] ++ [.ofNat 3, hv2, q2])))))))
      c () (c.sof (word hh hl) (word wh wl) hv0 hv1 hv2 q0 q1 q2 info) := by
  subst hu hv
  refine consumes_stay (consumes_input fun input => { input with progressiveMode := false }) ?_
  refine consumes_bind (consumes_getShortWord 0 17) (consumes_stay (consumes_check _ (by decide)) ?_)
  refine consumes_bind (consumes_getChar 8) (consumes_stay (consumes_check _ rfl) ?_)
  refine consumes_bind (consumes_getShortWord hh hl) (consumes_bind (consumes_getShortWord wh wl) ?_)
  refine consumes_stay (consumes_input fun input =>
    { input with inputHeight := word hh hl, inputWidth := word wh wl }) ?_
  refine consumes_bind (consumes_getChar 3) (consumes_stay (consumes_check _ (by decide)) ?_)
  refine consumes_stay (consumes_alloc _ hfits) ?_
  refine consumes_stay (consumes_codec fun codec =>
    { codec with
      numComponents := 3
      compInfo := some (List.replicate 3 (default : Component)) }) ?_
  change Consumes src (each sofComponent 3 0 >>= fun _ => sofFormat 3) _
    (c.framed (word hh hl) (word wh wl)) () _
  refine consumes_last (consumes_bind (consumes_sofComponent hv0 (by decide) ?_ hq0)
    (consumes_bind (consumes_sofComponent 0x11 (by decide) ?_ hq1)
      (consumes_last (consumes_sofComponent 0x11 (by decide) ?_ hq2) (consumes_pure ())))) ?_
  · exact Nat.lt_of_sub_eq_succ rfl
  · exact Nat.lt_of_sub_eq_succ rfl
  · exact Nat.lt_of_sub_eq_succ rfl
  · exact consumes_sofFormat (a := readComponent 0 hv0) (u := readComponent 1 0x11)
      (v := readComponent 2 0x11) rfl hinfo (by decide) (by decide)

/-! ## The scan -/

def State.scanComponent (s : State) (i : ℕ) (dcAc : UInt8) (h : i < 3) : State :=
  let t := s.setEntry i
    { s.codec.tblMap[i] with dcHuffTblId := dcAc.toNat / 16, acHuffTblId := dcAc.toNat % 16 } h
  t.setCodec { t.codec with compIdMap := t.codec.compIdMap.set i (.ofNat (i + 1)) h }

/-- The frame has the components 1, 2 and 3. -/
structure ThreeIds (s : State) : Prop where
  num : s.codec.numComponents = 3
  length : s.comps.length = 3
  id : ∀ (i : ℕ) (comp : Component), s.comps[i]? = some comp → comp.componentId = .ofNat (i + 1)

theorem ThreeIds.scanComponent (h : ThreeIds s) {i : ℕ} (dcAc : UInt8) (hi : i < 3) :
    ThreeIds (s.scanComponent i dcAc hi) := ⟨h.num, h.length, h.id⟩

theorem consumes_findComp {cc : UInt8} {k ci i : ℕ} (hi : ci ≤ i) (hik : i < ci + k)
    (hlen : ci + k ≤ c.comps.length)
    (hcomp : ∀ comp, c.comps[i]? = some comp → comp.componentId = cc) :
    Consumes src (findComp cc k ci) [] c true c := by
  induction k generalizing ci with
  | zero => omega
  | succ k ih =>
      have hlt : ci < c.comps.length := by omega
      have hget : c.comps[ci]? = some c.comps[ci] := List.getElem?_eq_getElem hlt
      refine consumes_stay (consumes_fetchComp hget) ?_
      by_cases heq : cc = c.comps[ci].componentId
      · exact consumes_pos heq (consumes_pure true)
      · refine consumes_neg heq (ih ?_ (by omega) (by omega))
        have hne : ci ≠ i := by
          rintro rfl
          exact heq (hcomp _ hget).symm
        omega

theorem consumes_sosComponent (h : ThreeIds c) {i : ℕ} (dcAc : UInt8) (hi : i < 3) :
    Consumes src (sosComponent i) [.ofNat (i + 1), dcAc] c () (c.scanComponent i dcAc hi) := by
  have hid : (UInt8.ofNat (i + 1)).toNat = i + 1 := by
    rw [UInt8.toNat_ofNat', Nat.mod_eq_of_lt (by omega)]
  refine consumes_bind (d := [.ofNat (i + 1)]) (consumes_getChar _) ?_
  refine consumes_last (consumes_getChar dcAc) (consumes_stay (consumes_check _ hid) ?_)
  refine consumes_stay (consumes_updateTblMap _ hi) (consumes_get fun s hs _ => ?_)
  have hcodec := codec_of_rest hs
  have hmap : s.codec.numComponents = 3 := by rw [hcodec]; exact h.num
  have hids : s.codec.compIdMap = c.codec.compIdMap := by rw [hcodec]; rfl
  rw [hmap, hids]
  refine consumes_stay (consumes_findComp (i := i) (Nat.zero_le i) (by omega) ?_ (h.id i)) ?_
  · exact Nat.le_of_eq h.length.symm
  refine consumes_pos rfl (consumes_stay (consumes_store _ _ hi) ?_)
  exact consumes_codec fun codec =>
    { codec with compIdMap := c.codec.compIdMap.set i (.ofNat (i + 1)) hi }

def State.sos (s : State) (t0 t1 t2 : UInt8) : State :=
  let t := s.setCodec { s.codec with compsInScan := 3 }
  let t := ((t.scanComponent 0 t0 first_lt).scanComponent 1 t1 second_lt).scanComponent 2 t2 third_lt
  t.setCodec
    { t.codec with
      ss := 0
      se := 63
      ah := 0
      al := 0
      nextRestartNum := 0
      inputScanNumber := (t.codec.inputScanNumber + 1) % 256 }

theorem consumes_getSOS (h : ThreeIds c) (t0 t1 t2 : UInt8) :
    Consumes src getSOS ([0, 12] ++ ([3] ++ (([.ofNat 1, t0] ++ ([.ofNat 2, t1] ++
      [.ofNat 3, t2])) ++ ([0] ++ ([63] ++ [0]))))) c () (c.sos t0 t1 t2) := by
  refine consumes_bind (consumes_getShortWord 0 12) (consumes_stay (consumes_check _ (by decide)) ?_)
  refine consumes_bind (consumes_getChar 3) (consumes_stay (consumes_check _ (by decide)) ?_)
  refine consumes_stay (consumes_codec fun codec => { codec with compsInScan := 3 }) ?_
  have h0 : ThreeIds (c.setCodec { c.codec with compsInScan := 3 }) := ⟨h.num, h.length, h.id⟩
  have h1 := h0.scanComponent t0 first_lt
  have h2 := h1.scanComponent t1 second_lt
  refine consumes_bind (consumes_bind (consumes_sosComponent h0 t0 (by decide))
    (consumes_bind (consumes_sosComponent h1 t1 (by decide))
      (consumes_last (consumes_sosComponent h2 t2 (by decide)) (consumes_pure ())))) ?_
  refine consumes_bind (consumes_getChar 0) (consumes_bind (consumes_getChar 63) ?_)
  refine consumes_stay (consumes_codec fun codec => { codec with ss := 0, se := 63 }) ?_
  refine consumes_last (consumes_getChar 0) ?_
  exact consumes_codec fun codec =>
    { codec with
      ah := 0
      al := 0
      nextRestartNum := 0
      inputScanNumber := (codec.inputScanNumber + 1) % 256 }

/-! ## What a table leaves alone -/

theorem huffTbl_tabled_of_ne {ac ac' : Bool} {index index' : ℕ} {h : index < NUM_HUFF_TBLS}
    (h' : index' < NUM_HUFF_TBLS) (l vals : List UInt8) (hne : ac = ac' → index ≠ index') :
    (c.tabled ac index h l vals).huffTbl ac' index' h' = c.huffTbl ac' index' h' := by
  cases ac with
  | false =>
      cases ac' with
      | false => exact Vector.getElem_set_ne h h' (hne rfl)
      | true => rfl
  | true =>
      cases ac' with
      | false => rfl
      | true => exact Vector.getElem_set_ne h h' (hne rfl)

theorem huffTbl_tabled {ac : Bool} {index : ℕ} {h : index < NUM_HUFF_TBLS} (l vals : List UInt8) :
    (c.tabled ac index h l vals).huffTbl ac index h =
      ⟨some (fill (Vector.replicate (MAX_BITS_SIZE + 1) 0) 1 l),
        some (fill (Vector.replicate (AC_SYMBOL_NUM + 1) 0) 0 vals)⟩ := huffTbl_withTbl

def Pool.taken (p : Pool) (memSize : ℕ) : Pool := { p with used := p.used + aligned memSize }

theorem pool_quantized {n : ℕ} (quant : List UInt8) (h : n < 3) :
    (s.quantized n quant h).pool = s.pool.taken 64 := rfl

theorem pool_sof {height width : ℕ} {hv0 hv1 hv2 q0 q1 q2 : UInt8} {info : McuInfo} :
    (s.sof height width hv0 hv1 hv2 q0 q1 q2 info).pool = s.pool.taken 48 := rfl

/-- Nothing but the frame and the quantization tables differs. -/
structure SameHuff (s t : State) : Prop where
  dcHuffTbl : t.codec.dcHuffTbl = s.codec.dcHuffTbl
  acHuffTbl : t.codec.acHuffTbl = s.codec.acHuffTbl
  restartInterval : t.codec.restartInterval = s.codec.restartInterval
  usingDefaultHuffTab : t.codec.usingDefaultHuffTab = s.codec.usingDefaultHuffTab
  huffTblMalloced : t.codec.huffTblMalloced = s.codec.huffTblMalloced

theorem SameHuff.trans {t u : State} (h : SameHuff s t) (h' : SameHuff t u) : SameHuff s u :=
  ⟨h'.dcHuffTbl.trans h.dcHuffTbl, h'.acHuffTbl.trans h.acHuffTbl,
    h'.restartInterval.trans h.restartInterval,
    h'.usingDefaultHuffTab.trans h.usingDefaultHuffTab,
    h'.huffTblMalloced.trans h.huffTblMalloced⟩

theorem sameHuff_quantized {n : ℕ} (quant : List UInt8) (h : n < 3) :
    SameHuff s (s.quantized n quant h) := ⟨rfl, rfl, rfl, rfl, rfl⟩

theorem sameHuff_withComponent {ci : ℕ} (hv q : UInt8) (h : ci < 3) :
    SameHuff s (s.withComponent ci hv q h) := ⟨rfl, rfl, rfl, rfl, rfl⟩

theorem sameHuff_sof (height width : ℕ) (hv0 hv1 hv2 q0 q1 q2 : UInt8) (info : McuInfo) :
    SameHuff s (s.sof height width hv0 hv1 hv2 q0 q1 q2 info) := by
  have hframed : SameHuff s (s.framed height width) := ⟨rfl, rfl, rfl, rfl, rfl⟩
  have hcomps := ((hframed.trans (sameHuff_withComponent hv0 q0 first_lt)).trans
    (sameHuff_withComponent hv1 q1 second_lt)).trans
      (sameHuff_withComponent hv2 q2 third_lt)
  exact ⟨hcomps.dcHuffTbl, hcomps.acHuffTbl, hcomps.restartInterval, hcomps.usingDefaultHuffTab,
    hcomps.huffTblMalloced⟩

/-- Nothing but the scan differs. -/
structure SameTables (s t : State) : Prop where
  num : t.codec.numComponents = s.codec.numComponents
  comps : t.comps = s.comps
  quantTbl : t.codec.quantTbl = s.codec.quantTbl
  input : t.input = s.input
  dcHuffTbl : t.codec.dcHuffTbl = s.codec.dcHuffTbl
  acHuffTbl : t.codec.acHuffTbl = s.codec.acHuffTbl
  restartInterval : t.codec.restartInterval = s.codec.restartInterval
  usingDefaultHuffTab : t.codec.usingDefaultHuffTab = s.codec.usingDefaultHuffTab

theorem SameTables.trans {t u : State} (h : SameTables s t) (h' : SameTables t u) :
    SameTables s u :=
  ⟨h'.num.trans h.num, h'.comps.trans h.comps, h'.quantTbl.trans h.quantTbl,
    h'.input.trans h.input, h'.dcHuffTbl.trans h.dcHuffTbl, h'.acHuffTbl.trans h.acHuffTbl,
    h'.restartInterval.trans h.restartInterval,
    h'.usingDefaultHuffTab.trans h.usingDefaultHuffTab⟩

theorem sameTables_scanComponent {i : ℕ} (dcAc : UInt8) (h : i < 3) :
    SameTables s (s.scanComponent i dcAc h) := ⟨rfl, rfl, rfl, rfl, rfl, rfl, rfl, rfl⟩

theorem sameTables_sos (t0 t1 t2 : UInt8) : SameTables s (s.sos t0 t1 t2) := by
  have hstart : SameTables s (s.setCodec { s.codec with compsInScan := 3 }) :=
    ⟨rfl, rfl, rfl, rfl, rfl, rfl, rfl, rfl⟩
  have hcomps := ((hstart.trans (sameTables_scanComponent t0 first_lt)).trans
    (sameTables_scanComponent t1 second_lt)).trans
      (sameTables_scanComponent t2 third_lt)
  exact ⟨hcomps.num, hcomps.comps, hcomps.quantTbl, hcomps.input, hcomps.dcHuffTbl,
    hcomps.acHuffTbl, hcomps.restartInterval, hcomps.usingDefaultHuffTab⟩

def scanned (entry : TblMap) (dcAc : UInt8) : TblMap :=
  { entry with dcHuffTblId := dcAc.toNat / 16, acHuffTblId := dcAc.toNat % 16 }

theorem tblMap_sos (t0 t1 t2 : UInt8) : (s.sos t0 t1 t2).codec.tblMap =
    let v0 := s.codec.tblMap.set 0 (scanned (first s.codec.tblMap) t0) first_lt
    let v1 := v0.set 1 (scanned (second v0) t1) second_lt
    v1.set 2 (scanned (third v1) t2) third_lt := rfl

theorem getElem_tblMap_sos (t0 t1 t2 : UInt8) :
    first (s.sos t0 t1 t2).codec.tblMap = scanned (first s.codec.tblMap) t0 ∧
      second (s.sos t0 t1 t2).codec.tblMap = scanned (second s.codec.tblMap) t1 ∧
      third (s.sos t0 t1 t2).codec.tblMap = scanned (third s.codec.tblMap) t2 := by
  rw [tblMap_sos]
  simp

theorem getElem_tblMap_sof (height width : ℕ) (hv0 hv1 hv2 q0 q1 q2 : UInt8) (info : McuInfo) :
    (first (s.sof height width hv0 hv1 hv2 q0 q1 q2 info).codec.tblMap).quantTblId = q0.toNat ∧
      (second (s.sof height width hv0 hv1 hv2 q0 q1 q2 info).codec.tblMap).quantTblId = q1.toNat ∧
      (third (s.sof height width hv0 hv1 hv2 q0 q1 q2 info).codec.tblMap).quantTblId =
        q2.toNat := by
  have hmap : (s.sof height width hv0 hv1 hv2 q0 q1 q2 info).codec.tblMap =
      ((s.codec.tblMap.set 0 { s.codec.tblMap[0] with quantTblId := q0.toNat }).set 1
        { (s.codec.tblMap.set 0 { s.codec.tblMap[0] with quantTblId := q0.toNat })[1] with
          quantTblId := q1.toNat }).set 2
        { ((s.codec.tblMap.set 0 { s.codec.tblMap[0] with quantTblId := q0.toNat }).set 1
          { (s.codec.tblMap.set 0 { s.codec.tblMap[0] with quantTblId := q0.toNat })[1] with
            quantTblId := q1.toNat })[2] with quantTblId := q2.toNat } := rfl
  rw [hmap]
  simp

/-- The frame that a state has told the decoder is the same. -/
structure SameFrame (s t : State) : Prop where
  num : t.codec.numComponents = s.codec.numComponents
  comps : t.comps = s.comps
  tblMap : t.codec.tblMap = s.codec.tblMap
  quantTbl : t.codec.quantTbl = s.codec.quantTbl
  input : t.input = s.input

theorem SameFrame.trans {t u : State} (h : SameFrame s t) (h' : SameFrame t u) : SameFrame s u :=
  ⟨h'.num.trans h.num, h'.comps.trans h.comps, h'.tblMap.trans h.tblMap,
    h'.quantTbl.trans h.quantTbl, h'.input.trans h.input⟩

theorem sameFrame_tabled (ac : Bool) (index : ℕ) (h : index < NUM_HUFF_TBLS)
    (l vals : List UInt8) : SameFrame s (s.tabled ac index h l vals) := by
  cases ac with
  | false => exact ⟨rfl, rfl, rfl, rfl, rfl⟩
  | true => exact ⟨rfl, rfl, rfl, rfl, rfl⟩

theorem sameFrame_tablesAllocated (s : State) : SameFrame s s.tablesAllocated :=
  ⟨rfl, rfl, rfl, rfl, rfl⟩

theorem sameFrame_withRestart (s : State) (n : ℕ) : SameFrame s (s.withRestart n) :=
  ⟨rfl, rfl, rfl, rfl, rfl⟩

theorem ThreeIds.of_sameFrame {t : State} (h : ThreeIds s) (hst : SameFrame s t) : ThreeIds t := by
  refine ⟨hst.num.trans h.num, ?_, ?_⟩
  · rw [hst.comps]
    exact h.length
  · rw [hst.comps]
    exact h.id

theorem huffTbl_tablesAllocated (ac : Bool) {index : ℕ} (h : index < NUM_HUFF_TBLS) :
    c.tablesAllocated.huffTbl ac index h = emptyHuffTbl := by
  cases ac with
  | false => exact Vector.getElem_replicate h
  | true => exact Vector.getElem_replicate h

end Reads

end JpegParse

end Tarako
