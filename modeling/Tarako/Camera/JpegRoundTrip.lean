import Tarako.Camera.JpegHeadRead

/-!
# What the encoder writes is what the parser reads

`parseHead_writeHead`: the bytes that `JPEG_HWWriteHead` has put out, however the read callback
of the decoder cuts them, are parsed by `ParseHead` up to the first byte behind them, and the
decoder then has the size, the sampling, the tables and the restart interval that the encoder
had. `startEncode_reads` is this for the pictures of a camera that is running.
-/

namespace Tarako

namespace JpegEnc

open Prog JpegParse

/-! ## The whole header -/

/-- The decoder can take the codec's parameters: the sampling is one that it knows, the numbers
of the tables are ones that it has, and the tables have no more symbols than its own. -/
structure Encodable (c : Codec) (t : Tables) (info : McuInfo) : Prop where
  has : c.Has t
  hRatio : (first c.ratio).hRatio.toNat < 16
  vRatio : (first c.ratio).vRatio.toNat < 16
  info : mcuInfoOf ((first c.ratio).hRatio.toNat * 16 + (first c.ratio).vRatio.toNat) = some info
  ratio1 : second c.ratio = ⟨1, 1⟩
  ratio2 : third c.ratio = ⟨1, 1⟩
  quantTblId : ∀ (i : ℕ) (h : i < 3), c.tblMap[i].quantTblId.toNat ≤ 2
  dcHuffTblId : ∀ (i : ℕ) (h : i < 3), c.tblMap[i].dcHuffTblId.toNat < 16
  acHuffTblId : ∀ (i : ℕ) (h : i < 3), c.tblMap[i].acHuffTblId.toNat < 16
  dc0 : symbolsOf t.dcBits0 ≤ 12
  ac0 : symbolsOf t.acBits0 ≤ AC_SYMBOL_NUM
  dc1 : symbolsOf t.dcBits1 ≤ 12
  ac1 : symbolsOf t.acBits1 ≤ AC_SYMBOL_NUM

theorem toNat_nibbles {a b : UInt8} (ha : a.toNat < 16) (hb : b.toNat < 16) :
    (a <<< 4 ||| b).toNat = a.toNat * 16 + b.toNat := by
  have hall : ∀ a b : Fin 16, (UInt8.ofNat a.1 <<< 4 ||| UInt8.ofNat b.1).toNat = a.1 * 16 + b.1 :=
    by decide +kernel
  have h := hall ⟨a.toNat, ha⟩ ⟨b.toNat, hb⟩
  rwa [UInt8.ofNat_toNat, UInt8.ofNat_toNat] at h

def ratioByte (r : Ratio) : UInt8 := r.hRatio <<< 4 ||| r.vRatio

def huffByte (m : TblMap) : UInt8 := m.dcHuffTblId <<< 4 ||| m.acHuffTblId

def framed (c : Codec) (t : Tables) (info : McuInfo) (s : State) : State :=
  ((s.quantized 0 t.quant0 first_lt).quantized 1 t.quant1 second_lt).sof c.height.toNat
    c.width.toNat (ratioByte (first c.ratio)) (ratioByte (second c.ratio)) (ratioByte (third c.ratio))
    (first c.tblMap).quantTblId.toUInt8 (second c.tblMap).quantTblId.toUInt8 (third c.tblMap).quantTblId.toUInt8
    info

def tabled (t : Tables) (s : State) : State :=
  (((s.tablesAllocated.tabled false 0 (by decide) (counts t.dcBits0)
    (t.dcHuffval0.take (symbolsOf t.dcBits0))).tabled true 0 (by decide) (counts t.acBits0)
      (t.acHuffval0.take (symbolsOf t.acBits0))).tabled false 1 (by decide) (counts t.dcBits1)
        (t.dcHuffval1.take (symbolsOf t.dcBits1))).tabled true 1 (by decide) (counts t.acBits1)
          (t.acHuffval1.take (symbolsOf t.acBits1))

def restarted (restartInterval : UInt32) (s : State) : State :=
  if restartInterval ≠ 0 then s.withRestart restartInterval.toUInt16.toNat else s

def decoded (c : Codec) (t : Tables) (info : McuInfo) (s : State) : State :=
  (restarted c.restartInterval (tabled t (framed c t info s))).sos (huffByte (first c.tblMap))
    (huffByte (second c.tblMap)) (huffByte (third c.tblMap))

section Parse

variable {c : Codec} {t : Tables} {info : McuInfo} {s : State}

theorem consumes_quantSegment {i : ℕ} (hi : i < 2) (quant : List UInt8) (hfits : s.pool.Fits 64) :
    Consumes src (tablesTurn ()) (quantSegment i quant) s (.inl ())
      (s.quantized i quant (Nat.lt_succ_of_lt hi)) := by
  have hget : Consumes src getQuantTbl (wordBytes 67 ++ ([.ofNat i] ++ zigzagged quant)) s ()
      (s.quantized i quant (Nat.lt_succ_of_lt hi)) := consumes_getQuantTbl hi hfits
  have h := consumes_segment (m := M_DQT) (by decide) (by decide) (h := .quantTbl) (by decide)
    (by decide) hget
  rw [quantSegment, List.append_assoc, List.append_assoc]
  exact h

theorem length_counts {bits huffval : List UInt8} (h : Complete bits huffval) :
    (counts bits).length = 16 := by
  rw [counts, List.length_take, List.length_drop, h.counted]
  decide

theorem consumes_huffSegment {s₀ : State} (halloc : Consumes src allocHuffTbls [] s₀ () s)
    (ac : Bool) {index : ℕ} (h : index < NUM_HUFF_TBLS) {bits huffval : List UInt8}
    (hempty : s.huffTbl ac index h = emptyHuffTbl) (hcomplete : Complete bits huffval)
    (hfit : symbolsOf bits ≤ (defaultHuffval ac index).length) :
    Consumes src (tablesTurn ()) (huffSegment (tblByte ac index) bits huffval) s₀ (.inl ())
      (s.tabled ac index h (counts bits) (huffval.take (symbolsOf bits))) := by
  have hlen : (huffval.take (symbolsOf bits)).length = symbolsOf bits :=
    List.length_take_of_le hcomplete.enough
  have hget := consumes_getHuffTbl halloc h hempty (length_counts hcomplete) hlen
    (by rw [hlen]; exact hfit)
  have hseg := consumes_segment (m := M_DHT) (by decide) (by decide) (h := .huffTbl) (by decide)
    (by decide) hget
  rw [hlen] at hseg
  rw [huffSegment]
  simp only [List.append_assoc] at hseg ⊢
  exact hseg

theorem consumes_sofSegment (h : Encodable c t info) (hfits : s.pool.Fits 48) :
    Consumes src (tablesTurn ()) (sofSegment c) s (.inl ())
      (s.sof c.height.toNat c.width.toNat (ratioByte (first c.ratio)) (ratioByte (second c.ratio))
        (ratioByte (third c.ratio)) (first c.tblMap).quantTblId.toUInt8 (second c.tblMap).quantTblId.toUInt8
        (third c.tblMap).quantTblId.toUInt8 info) := by
  have hquant : ∀ (i : ℕ) (hi : i < 3), c.tblMap[i].quantTblId.toUInt8.toNat ≤ 2 := by
    intro i hi
    have hle := h.quantTblId i hi
    rw [UInt16.toNat_toUInt8]
    omega
  have hinfo : mcuInfoOf ((ratioByte (first c.ratio)).toNat / 16 * 16 +
      (ratioByte (first c.ratio)).toNat % 16) = some info := by
    rw [Nat.div_add_mod', ratioByte, toNat_nibbles h.hRatio h.vRatio]
    exact h.info
  have hone : ratioByte (second c.ratio) = 0x11 := by rw [h.ratio1]; decide
  have htwo : ratioByte (third c.ratio) = 0x11 := by rw [h.ratio2]; decide
  have hget := consumes_getSOF (c.height >>> 8).toUInt8 c.height.toUInt8 (c.width >>> 8).toUInt8
    c.width.toUInt8 hfits (hquant 0 (by decide)) (hquant 1 (by decide)) (hquant 2 (by decide))
    hinfo hone htwo
  rw [word_wordBytes, word_wordBytes] at hget
  have hseg := consumes_segment (m := M_SOF0) (by decide) (by decide) (h := .sof false) (by decide)
    (by decide) hget
  exact hseg

theorem loops_driSegment (restartInterval : UInt32) {d : List UInt8} {r : UInt8} {s' : State}
    (h : Loops src tablesTurn .failed () d (restarted restartInterval s) r s') :
    Loops src tablesTurn .failed () (driSegment restartInterval ++ d) s r s' := by
  unfold restarted at h
  unfold driSegment
  split_ifs with hrestart
  · rw [if_pos hrestart] at h
    have hget := consumes_getDRI (c := s) (restartInterval.toUInt16 >>> 8).toUInt8
      restartInterval.toUInt16.toUInt8
    rw [word_wordBytes] at hget
    exact Loops.turn (consumes_segment (m := M_DRI) (by decide) (by decide) (h := .dri)
      (by decide) (by decide) hget) nofun h
  · rw [if_neg hrestart] at h
    exact h

theorem consumes_app0Segment : Consumes src (tablesTurn ()) app0Segment s (.inl ()) s :=
  consumes_segment (m := M_APP0) (by decide) (by decide) (h := .app0) (by decide) (by decide)
    (consumes_getAPP0 rfl)

theorem threeIds_framed (c : Codec) (t : Tables) (info : McuInfo) (s : State) :
    ThreeIds (framed c t info s) := by
  refine ⟨rfl, rfl, fun i comp hcomp => ?_⟩
  have hcomps : (framed c t info s).comps = [readComponent 0 (ratioByte (first c.ratio)),
      readComponent 1 (ratioByte (second c.ratio)), readComponent 2 (ratioByte (third c.ratio))] := rfl
  rw [hcomps] at hcomp
  match i, hcomp with
  | 0, hcomp => rw [← Option.some.inj hcomp]; rfl
  | 1, hcomp => rw [← Option.some.inj hcomp]; rfl
  | 2, hcomp => rw [← Option.some.inj hcomp]; rfl

theorem sameHuff_framed (c : Codec) (t : Tables) (info : McuInfo) (s : State) :
    SameHuff s (framed c t info s) :=
  ((sameHuff_quantized t.quant0 _).trans (sameHuff_quantized t.quant1 _)).trans
    (sameHuff_sof _ _ _ _ _ _ _ _ _)

theorem sameFrame_tables (t : Tables) (s : State) : SameFrame s (tabled t s) :=
  ((((sameFrame_tablesAllocated s).trans (sameFrame_tabled false 0 _ _ _)).trans
    (sameFrame_tabled true 0 _ _ _)).trans (sameFrame_tabled false 1 _ _ _)).trans
      (sameFrame_tabled true 1 _ _ _)

theorem sameFrame_restarted (restartInterval : UInt32) (s : State) :
    SameFrame s (restarted restartInterval s) := by
  unfold restarted
  split_ifs
  · exact sameFrame_withRestart s _
  · exact ⟨rfl, rfl, rfl, rfl, rfl⟩

theorem sameFrame_header (c : Codec) (t : Tables) (s : State) :
    SameFrame s (restarted c.restartInterval (tabled t s)) :=
  (sameFrame_tables t s).trans (sameFrame_restarted c.restartInterval _)

theorem loops_huffSegments (h : Encodable c t info) (hmalloced : s.codec.huffTblMalloced = false)
    (hpool : s.pool.used + 2240 ≤ s.pool.size) {d : List UInt8} {r : UInt8} {s' : State}
    (hrest : Loops src tablesTurn .failed () d (tabled t s) r s') :
    Loops src tablesTurn .failed () (huffSegment 0x00 t.dcBits0 t.dcHuffval0 ++
      (huffSegment 0x10 t.acBits0 t.acHuffval0 ++ (huffSegment 0x01 t.dcBits1 t.dcHuffval1 ++
        (huffSegment 0x11 t.acBits1 t.acHuffval1 ++ d)))) s r s' := by
  have hdc : ∀ index, (defaultHuffval false index).length = 12 := length_defaultHuffval false
  have hac : ∀ index, (defaultHuffval true index).length = AC_SYMBOL_NUM :=
    length_defaultHuffval true
  have hfirst := consumes_huffSegment (consumes_allocHuffTbls hmalloced hpool) false
    (by decide : 0 < NUM_HUFF_TBLS) (huffTbl_tablesAllocated false _)
    h.has.dc0 (by rw [hdc]; exact h.dc0)
  refine Loops.turn hfirst nofun ?_
  have hsecond := consumes_huffSegment
    (consumes_allocHuffTbls_again (c := s.tablesAllocated.tabled false 0 (by decide)
      (counts t.dcBits0) (t.dcHuffval0.take (symbolsOf t.dcBits0))) rfl) true
    (by decide : 0 < NUM_HUFF_TBLS)
    ((huffTbl_tabled_of_ne (by decide) _ _ (by decide)).trans (huffTbl_tablesAllocated true _))
    h.has.ac0 (by rw [hac]; exact h.ac0)
  refine Loops.turn hsecond nofun ?_
  have hthird := consumes_huffSegment
    (consumes_allocHuffTbls_again (c := (s.tablesAllocated.tabled false 0 (by decide)
      (counts t.dcBits0) (t.dcHuffval0.take (symbolsOf t.dcBits0))).tabled true 0 (by decide)
        (counts t.acBits0) (t.acHuffval0.take (symbolsOf t.acBits0))) rfl) false
    (by decide : 1 < NUM_HUFF_TBLS)
    ((huffTbl_tabled_of_ne (by decide) _ _ (by decide)).trans
      ((huffTbl_tabled_of_ne (by decide) _ _ (by decide)).trans
        (huffTbl_tablesAllocated false _)))
    h.has.dc1 (by rw [hdc]; exact h.dc1)
  refine Loops.turn hthird nofun ?_
  have hfourth := consumes_huffSegment
    (consumes_allocHuffTbls_again (c := ((s.tablesAllocated.tabled false 0 (by decide)
      (counts t.dcBits0) (t.dcHuffval0.take (symbolsOf t.dcBits0))).tabled true 0 (by decide)
        (counts t.acBits0) (t.acHuffval0.take (symbolsOf t.acBits0))).tabled false 1 (by decide)
          (counts t.dcBits1) (t.dcHuffval1.take (symbolsOf t.dcBits1))) rfl) true
    (by decide : 1 < NUM_HUFF_TBLS)
    ((huffTbl_tabled_of_ne (by decide) _ _ (by decide)).trans
      ((huffTbl_tabled_of_ne (by decide) _ _ (by decide)).trans
        ((huffTbl_tabled_of_ne (by decide) _ _ (by decide)).trans
          (huffTbl_tablesAllocated true _))))
    h.has.ac1 (by rw [hac]; exact h.ac1)
  exact Loops.turn hfourth nofun hrest

/-- The parser takes exactly the header, and is then in the state `decoded`. -/
theorem consumes_parseHead (h : Encodable c t info) (hmalloced : s.codec.huffTblMalloced = false)
    (hpool : s.pool.used + 2416 ≤ s.pool.size) :
    Consumes src parseHead (header c t) s () (decoded c t info s) := by
  have hquant : aligned 64 = 64 := rfl
  have hframe : aligned 48 = 48 := rfl
  have hfits0 : s.pool.Fits 64 := fits_of_le (by decide) (by omega)
  have hfits1 : (s.quantized 0 t.quant0 first_lt).pool.Fits 64 := by
    refine fits_of_le (by decide) ?_
    rw [pool_quantized]
    change s.pool.used + aligned 64 + aligned 64 ≤ s.pool.size
    omega
  have hfits2 : ((s.quantized 0 t.quant0 first_lt).quantized 1 t.quant1
      (by decide)).pool.Fits 48 := by
    refine fits_of_le (by decide) ?_
    rw [pool_quantized, pool_quantized]
    change s.pool.used + aligned 64 + aligned 64 + aligned 48 ≤ s.pool.size
    omega
  have hroom : (framed c t info s).pool.used + 2240 ≤ (framed c t info s).pool.size := by
    rw [framed, pool_sof, pool_quantized, pool_quantized]
    change s.pool.used + aligned 64 + aligned 64 + aligned 48 + 2240 ≤ s.pool.size
    omega
  have hfresh : (framed c t info s).codec.huffTblMalloced = false := by
    rw [(sameHuff_framed c t info s).huffTblMalloced, hmalloced]
  have hleave : Consumes src (tablesTurn ()) [0xFF, M_SOS]
      (restarted c.restartInterval (tabled t (framed c t info s))) (.inr M_SOS)
      (restarted c.restartInterval (tabled t (framed c t info s))) :=
    consumes_last (consumes_nextMarker (by decide) (by decide)) (consumes_pure _)
  have htables := Loops.turn (consumes_app0Segment (s := s)) nofun
    (Loops.turn (consumes_quantSegment (i := 0) (by decide) t.quant0 hfits0) nofun
      (Loops.turn (consumes_quantSegment (i := 1) (by decide) t.quant1 hfits1) nofun
        (Loops.turn (consumes_sofSegment h hfits2) nofun
          (loops_huffSegments h hfresh hroom
            (loops_driSegment c.restartInterval (Loops.leave hleave))))))
  have hprocess : Consumes src processTables _ s M_SOS
      (restarted c.restartInterval (tabled t (framed c t info s))) :=
    Loops.consumes_get (fun s : State => s.bytes.length) htables fun _ => rfl
  have hsos : Consumes src (afterTables M_SOS) _
      (restarted c.restartInterval (tabled t (framed c t info s))) () (decoded c t info s) :=
    consumes_getSOS ((threeIds_framed c t info s).of_sameFrame (sameFrame_header c t _))
      (huffByte (first c.tblMap)) (huffByte (second c.tblMap)) (huffByte (third c.tblMap))
  have hparse : Consumes src parseHead _ s () (decoded c t info s) :=
    consumes_bind consumes_findSOI (consumes_bind hprocess hsos)
  have hheader : header c t = [0xFF, M_SOI] ++ (app0Segment ++ (quantSegment 0 t.quant0 ++
      (quantSegment 1 t.quant1 ++ (sofSegment c ++ (huffSegment 0x00 t.dcBits0 t.dcHuffval0 ++
        (huffSegment 0x10 t.acBits0 t.acHuffval0 ++ (huffSegment 0x01 t.dcBits1 t.dcHuffval1 ++
          (huffSegment 0x11 t.acBits1 t.acHuffval1 ++ (driSegment c.restartInterval ++
            sosSegment c))))))))) := by
    simp only [header, List.append_assoc]
  rw [hheader]
  simp only [List.append_assoc] at hparse
  exact hparse

end Parse

/-! ## What the decoder has then -/

/-- A Huffman table of the decoder has the counts and the symbols of the encoder's. -/
def HuffReads (tbl : JpegParse.HuffTbl) (bits huffval : List UInt8) : Prop :=
  ∃ b v, tbl = ⟨some b, some v⟩ ∧ (b.toList.drop 1).take MAX_BITS_SIZE = counts bits ∧
    v.toList.take (symbolsOf bits) = huffval.take (symbolsOf bits)

/-- The counts and the symbols are those of the decoder's default table. -/
def IsDefault (ac : Bool) (index : ℕ) (bits huffval : List UInt8) : Prop :=
  ((defaultBits ac index).drop 1).take MAX_BITS_SIZE = counts bits ∧
    (defaultHuffval ac index).take (symbolsOf bits) = huffval.take (symbolsOf bits)

/-- The decoder has what the header of a codec says. -/
structure Reads (c : Codec) (t : Tables) (info : McuInfo) (u : State) : Prop where
  progressiveMode : u.input.progressiveMode = false
  width : u.input.inputWidth = c.width.toNat
  height : u.input.inputHeight = c.height.toNat
  mcuInfo : u.input.inputMcuInfo = info
  numComponents : u.codec.numComponents = 3
  comps : ∀ (i : ℕ) (h : i < 3), ∃ comp, u.comps[i]? = some comp ∧
    comp.componentId.toNat = i + 1 ∧ comp.hSampFactor = c.ratio[i].hRatio.toNat ∧
      comp.vSampFactor = c.ratio[i].vRatio.toNat
  tblMap : ∀ (i : ℕ) (h : i < 3), u.codec.tblMap[i] = ⟨c.tblMap[i].dcHuffTblId.toNat,
    c.tblMap[i].acHuffTblId.toNat, c.tblMap[i].quantTblId.toNat⟩
  quant0 : ∃ v, first u.codec.quantTbl = some v ∧ v.toList = t.quant0
  quant1 : ∃ v, second u.codec.quantTbl = some v ∧ v.toList = t.quant1
  dc0 : HuffReads (u.huffTbl false 0 (by decide)) t.dcBits0 t.dcHuffval0
  ac0 : HuffReads (u.huffTbl true 0 (by decide)) t.acBits0 t.acHuffval0
  dc1 : HuffReads (u.huffTbl false 1 (by decide)) t.dcBits1 t.dcHuffval1
  ac1 : HuffReads (u.huffTbl true 1 (by decide)) t.acBits1 t.acHuffval1
  default : u.codec.usingDefaultHuffTab = true ↔
    IsDefault false 0 t.dcBits0 t.dcHuffval0 ∧ IsDefault true 0 t.acBits0 t.acHuffval0 ∧
      IsDefault false 1 t.dcBits1 t.dcHuffval1 ∧ IsDefault true 1 t.acBits1 t.acHuffval1
  restartInterval : u.codec.restartInterval =
    if c.restartInterval = 0 then 0x3ffff else c.restartInterval.toNat % 2 ^ 16
  compsInScan : u.codec.compsInScan = 3
  compIdMap : u.codec.compIdMap = #v[1, 2, 3]
  spectrum : u.codec.ss = 0 ∧ u.codec.se = 63 ∧ u.codec.ah = 0 ∧ u.codec.al = 0

section Decoded

variable {c : Codec} {t : Tables} {info : McuInfo} {s : State}

theorem huffReads_fill {bits huffval : List UInt8} (h : Complete bits huffval)
    (hle : symbolsOf bits ≤ AC_SYMBOL_NUM) :
    HuffReads ⟨some (fill (Vector.replicate (MAX_BITS_SIZE + 1) 0) 1 (counts bits)),
      some (fill (Vector.replicate (AC_SYMBOL_NUM + 1) 0) 0 (huffval.take (symbolsOf bits)))⟩
      bits huffval := by
  refine ⟨_, _, rfl, ?_, ?_⟩
  · have hlen := length_counts h
    refine List.ext_getElem ?_ fun i hi hi' => ?_
    · simp [hlen, MAX_BITS_SIZE]
    · have hin : 1 + i < MAX_BITS_SIZE + 1 := by
        rw [hlen] at hi'
        unfold MAX_BITS_SIZE
        omega
      rw [List.getElem_take, List.getElem_drop, Vector.getElem_toList, getElem_fill _ _ _ hin,
        if_pos (by omega), Nat.add_sub_cancel_left, List.getD_eq_getElem?_getD,
        List.getElem?_eq_getElem hi', Option.getD_some]
  · have hlen : (huffval.take (symbolsOf bits)).length = symbolsOf bits :=
      List.length_take_of_le h.enough
    refine List.ext_getElem ?_ fun i hi hi' => ?_
    · rw [hlen, List.length_take, Vector.length_toList]
      omega
    · have hin : i < AC_SYMBOL_NUM + 1 := by omega
      rw [List.getElem_take, Vector.getElem_toList, getElem_fill _ _ _ hin, if_pos (by omega),
        Nat.sub_zero, List.getD_eq_getElem?_getD, List.getElem?_eq_getElem hi', Option.getD_some]

theorem isDefault_iff {ac : Bool} {index : ℕ} {bits huffval : List UInt8}
    (h : Complete bits huffval) (hle : symbolsOf bits ≤ (defaultHuffval ac index).length) :
    (sameFrom (defaultBits ac index) 1 (counts bits) &&
      sameFrom (defaultHuffval ac index) 0 (huffval.take (symbolsOf bits))) = true ↔
        IsDefault ac index bits huffval := by
  have hlen : (huffval.take (symbolsOf bits)).length = symbolsOf bits :=
    List.length_take_of_le h.enough
  have hcounts := length_counts h
  rw [Bool.and_eq_true, sameFrom_iff (by rw [length_defaultBits, hcounts]; decide),
    sameFrom_iff (by rw [hlen]; omega), hlen, hcounts, List.drop_zero]
  exact Iff.rfl

theorem toList_quantAfter {quant : List UInt8} (h : quant.length = 64) :
    (quantAfter quant 64).toList = quant := by
  refine List.ext_getElem (by rw [Vector.length_toList, h]) fun i hi hi' => ?_
  rw [Vector.getElem_toList, getElem_quantAfter, List.getD_eq_getElem?_getD,
    List.getElem?_eq_getElem hi', Option.getD_some]

theorem toNat_div_nibbles {a b : UInt8} (ha : a.toNat < 16) (hb : b.toNat < 16) :
    (a <<< 4 ||| b).toNat / 16 = a.toNat ∧ (a <<< 4 ||| b).toNat % 16 = b.toNat := by
  rw [toNat_nibbles ha hb]
  omega

/-! ### The state behind a header, part by part -/

theorem huffTbl_congr {s u : State} {ac : Bool} {index : ℕ} (h : index < NUM_HUFF_TBLS)
    (hdc : u.codec.dcHuffTbl = s.codec.dcHuffTbl) (hac : u.codec.acHuffTbl = s.codec.acHuffTbl) :
    u.huffTbl ac index h = s.huffTbl ac index h := by
  unfold State.huffTbl huffTbls
  cases ac with
  | false => exact congrArg (fun v : Vector JpegParse.HuffTbl NUM_HUFF_TBLS => v[index]) hdc
  | true => exact congrArg (fun v : Vector JpegParse.HuffTbl NUM_HUFF_TBLS => v[index]) hac

theorem huffTbl_restarted (restartInterval : UInt32) (ac : Bool) {index : ℕ}
    (h : index < NUM_HUFF_TBLS) :
    (restarted restartInterval s).huffTbl ac index h = s.huffTbl ac index h := by
  unfold restarted
  split_ifs
  · exact huffTbl_congr h rfl rfl
  · rfl

theorem huffTbl_decoded (ac : Bool) {index : ℕ} (h : index < NUM_HUFF_TBLS) :
    (decoded c t info s).huffTbl ac index h =
      (tabled t (framed c t info s)).huffTbl ac index h := by
  rw [decoded, huffTbl_congr h (sameTables_sos _ _ _).dcHuffTbl (sameTables_sos _ _ _).acHuffTbl,
    huffTbl_restarted]

theorem usingDefaultHuffTab_tabled (ac : Bool) (index : ℕ) (h : index < NUM_HUFF_TBLS)
    (l vals : List UInt8) : (s.tabled ac index h l vals).codec.usingDefaultHuffTab =
      (s.codec.usingDefaultHuffTab &&
        (sameFrom (defaultBits ac index) 1 l && sameFrom (defaultHuffval ac index) 0 vals)) := rfl

theorem usingDefaultHuffTab_decoded : (decoded c t info s).codec.usingDefaultHuffTab =
    (tabled t (framed c t info s)).codec.usingDefaultHuffTab := by
  rw [decoded, (sameTables_sos _ _ _).usingDefaultHuffTab]
  unfold restarted
  split_ifs <;> rfl

theorem restartInterval_tabled (ac : Bool) (index : ℕ) (h : index < NUM_HUFF_TBLS)
    (l vals : List UInt8) :
    (s.tabled ac index h l vals).codec.restartInterval = s.codec.restartInterval := by
  cases ac with
  | false => rfl
  | true => rfl

theorem restartInterval_tables (t : Tables) (s : State) :
    (tabled t s).codec.restartInterval = s.codec.restartInterval := by
  rw [tabled, restartInterval_tabled, restartInterval_tabled, restartInterval_tabled,
    restartInterval_tabled]
  rfl

theorem restartInterval_decoded : (decoded c t info s).codec.restartInterval =
    if c.restartInterval = 0 then s.codec.restartInterval
    else c.restartInterval.toNat % 2 ^ 16 := by
  rw [decoded, (sameTables_sos _ _ _).restartInterval, restarted]
  by_cases hzero : c.restartInterval = 0
  · rw [if_neg (not_not.mpr hzero), if_pos hzero, restartInterval_tables,
      (sameHuff_framed c t info s).restartInterval]
  · rw [if_pos hzero, if_neg hzero]
    exact UInt32.toNat_toUInt16 c.restartInterval

theorem huffTbl_tables (t : Tables) (s : State) :
    (tabled t s).huffTbl false 0 (by decide) =
        ⟨some (fill (Vector.replicate (MAX_BITS_SIZE + 1) 0) 1 (counts t.dcBits0)),
          some (fill (Vector.replicate (AC_SYMBOL_NUM + 1) 0) 0
            (t.dcHuffval0.take (symbolsOf t.dcBits0)))⟩ ∧
      (tabled t s).huffTbl true 0 (by decide) =
        ⟨some (fill (Vector.replicate (MAX_BITS_SIZE + 1) 0) 1 (counts t.acBits0)),
          some (fill (Vector.replicate (AC_SYMBOL_NUM + 1) 0) 0
            (t.acHuffval0.take (symbolsOf t.acBits0)))⟩ ∧
      (tabled t s).huffTbl false 1 (by decide) =
        ⟨some (fill (Vector.replicate (MAX_BITS_SIZE + 1) 0) 1 (counts t.dcBits1)),
          some (fill (Vector.replicate (AC_SYMBOL_NUM + 1) 0) 0
            (t.dcHuffval1.take (symbolsOf t.dcBits1)))⟩ ∧
      (tabled t s).huffTbl true 1 (by decide) =
        ⟨some (fill (Vector.replicate (MAX_BITS_SIZE + 1) 0) 1 (counts t.acBits1)),
          some (fill (Vector.replicate (AC_SYMBOL_NUM + 1) 0) 0
            (t.acHuffval1.take (symbolsOf t.acBits1)))⟩ := by
  refine ⟨?_, ?_, ?_, ?_⟩
  · exact (huffTbl_tabled_of_ne (by decide) _ _ (by decide)).trans
      ((huffTbl_tabled_of_ne (by decide) _ _ (by decide)).trans
        ((huffTbl_tabled_of_ne (by decide) _ _ (by decide)).trans (huffTbl_tabled _ _)))
  · exact (huffTbl_tabled_of_ne (by decide) _ _ (by decide)).trans
      ((huffTbl_tabled_of_ne (by decide) _ _ (by decide)).trans (huffTbl_tabled _ _))
  · exact (huffTbl_tabled_of_ne (by decide) _ _ (by decide)).trans (huffTbl_tabled _ _)
  · exact huffTbl_tabled _ _

theorem quantTbl_framed (c : Codec) (t : Tables) (info : McuInfo) (s : State) :
    first (framed c t info s).codec.quantTbl = some (quantAfter t.quant0 64) ∧
      second (framed c t info s).codec.quantTbl = some (quantAfter t.quant1 64) := by
  have htbl : (framed c t info s).codec.quantTbl =
      (s.codec.quantTbl.set 0 (some (quantAfter t.quant0 64))).set 1
        (some (quantAfter t.quant1 64)) := rfl
  rw [htbl]
  simp

theorem comps_framed (c : Codec) (t : Tables) (info : McuInfo) (s : State) :
    (framed c t info s).comps = [readComponent 0 (ratioByte (first c.ratio)),
      readComponent 1 (ratioByte (second c.ratio)), readComponent 2 (ratioByte (third c.ratio))] := rfl

theorem ratio_lt (h : Encodable c t info) (i : ℕ) (hi : i < 3) :
    c.ratio[i].hRatio.toNat < 16 ∧ c.ratio[i].vRatio.toNat < 16 := by
  match i, hi with
  | 0, _ => exact ⟨h.hRatio, h.vRatio⟩
  | 1, _ =>
      have hone : c.ratio[1] = ⟨1, 1⟩ := h.ratio1
      rw [hone]
      decide
  | 2, _ =>
      have htwo : c.ratio[2] = ⟨1, 1⟩ := h.ratio2
      rw [htwo]
      decide

theorem comps_decoded (i : ℕ) (hi : i < 3) : (decoded c t info s).comps[i]? =
    some (readComponent i (ratioByte c.ratio[i])) := by
  rw [decoded, (sameTables_sos _ _ _).comps, (sameFrame_header c t _).comps, comps_framed]
  match i, hi with
  | 0, _ => rfl
  | 1, _ => rfl
  | 2, _ => rfl

theorem tblMap_decoded (h : Encodable c t info) (i : ℕ) (hi : i < 3) :
    (decoded c t info s).codec.tblMap[i] = ⟨c.tblMap[i].dcHuffTblId.toNat,
      c.tblMap[i].acHuffTblId.toNat, c.tblMap[i].quantTblId.toNat⟩ := by
  have hscan := getElem_tblMap_sos (s := restarted c.restartInterval (tabled t
    (framed c t info s))) (huffByte (first c.tblMap)) (huffByte (second c.tblMap)) (huffByte (third c.tblMap))
  have hquant := getElem_tblMap_sof (s := (s.quantized 0 t.quant0 first_lt).quantized 1 t.quant1
    second_lt) c.height.toNat c.width.toNat (ratioByte (first c.ratio)) (ratioByte (second c.ratio))
    (ratioByte (third c.ratio)) (first c.tblMap).quantTblId.toUInt8 (second c.tblMap).quantTblId.toUInt8
    (third c.tblMap).quantTblId.toUInt8 info
  have hmap := (sameFrame_header c t (framed c t info s)).tblMap
  have hbyte : ∀ (i : ℕ) (hi : i < 3) (entry : JpegParse.TblMap),
      entry.quantTblId = c.tblMap[i].quantTblId.toUInt8.toNat →
      scanned entry (huffByte c.tblMap[i]) = ⟨c.tblMap[i].dcHuffTblId.toNat,
        c.tblMap[i].acHuffTblId.toNat, c.tblMap[i].quantTblId.toNat⟩ := by
    intro i hi entry hentry
    have hle := h.quantTblId i hi
    obtain ⟨hdiv, hmod⟩ := toNat_div_nibbles (h.dcHuffTblId i hi) (h.acHuffTblId i hi)
    unfold scanned huffByte
    rw [hdiv, hmod, hentry, UInt16.toNat_toUInt8, Nat.mod_eq_of_lt (by omega)]
  rw [hmap] at hscan
  match i, hi with
  | 0, _ => exact hscan.1.trans (hbyte 0 (by decide) _ hquant.1)
  | 1, _ => exact hscan.2.1.trans (hbyte 1 (by decide) _ hquant.2.1)
  | 2, _ => exact hscan.2.2.trans (hbyte 2 (by decide) _ hquant.2.2)

theorem reads_decoded (h : Encodable c t info) (hrestart : s.codec.restartInterval = 0x3ffff)
    (hdefault : s.codec.usingDefaultHuffTab = true) : Reads c t info (decoded c t info s) := by
  have hframe := sameFrame_header c t (framed c t info s)
  have hscan := sameTables_sos (s := restarted c.restartInterval (tabled t (framed c t info s)))
    (huffByte (first c.tblMap)) (huffByte (second c.tblMap)) (huffByte (third c.tblMap))
  have hinput : (decoded c t info s).input = (framed c t info s).input :=
    hscan.input.trans hframe.input
  have hquant : (decoded c t info s).codec.quantTbl = (framed c t info s).codec.quantTbl :=
    hscan.quantTbl.trans hframe.quantTbl
  have htbl := huffTbl_tables t (framed c t info s)
  have hdc : ∀ index, (defaultHuffval false index).length = 12 := length_defaultHuffval false
  have hac : ∀ index, (defaultHuffval true index).length = AC_SYMBOL_NUM :=
    length_defaultHuffval true
  have hdcle : ∀ {n : ℕ}, n ≤ 12 → n ≤ AC_SYMBOL_NUM := fun hn => Nat.le_trans hn (by decide)
  refine
    { progressiveMode := by rw [hinput]; rfl
      width := by rw [hinput]; rfl
      height := by rw [hinput]; rfl
      mcuInfo := by rw [hinput]; rfl
      numComponents := hscan.num.trans hframe.num
      comps := fun i hi => ?_
      tblMap := tblMap_decoded h
      quant0 := ?_
      quant1 := ?_
      dc0 := ?_
      ac0 := ?_
      dc1 := ?_
      ac1 := ?_
      default := ?_
      restartInterval := by rw [restartInterval_decoded, hrestart]
      compsInScan := rfl
      compIdMap := ?_
      spectrum := ⟨rfl, rfl, rfl, rfl⟩ }
  · obtain ⟨hh, hv⟩ := ratio_lt h i hi
    obtain ⟨hdiv, hmod⟩ := toNat_div_nibbles hh hv
    refine ⟨_, comps_decoded i hi, ?_, hdiv, hmod⟩
    exact Nat.mod_eq_of_lt (by omega)
  · exact ⟨_, by rw [hquant]; exact (quantTbl_framed c t info s).1, toList_quantAfter h.has.quant0⟩
  · exact ⟨_, by rw [hquant]; exact (quantTbl_framed c t info s).2, toList_quantAfter h.has.quant1⟩
  · rw [huffTbl_decoded, htbl.1]
    exact huffReads_fill h.has.dc0 (hdcle h.dc0)
  · rw [huffTbl_decoded, htbl.2.1]
    exact huffReads_fill h.has.ac0 h.ac0
  · rw [huffTbl_decoded, htbl.2.2.1]
    exact huffReads_fill h.has.dc1 (hdcle h.dc1)
  · rw [huffTbl_decoded, htbl.2.2.2]
    exact huffReads_fill h.has.ac1 h.ac1
  · have hstart : (framed c t info s).tablesAllocated.codec.usingDefaultHuffTab = true :=
      (sameHuff_framed c t info s).usingDefaultHuffTab.trans hdefault
    rw [usingDefaultHuffTab_decoded, tabled, usingDefaultHuffTab_tabled,
      usingDefaultHuffTab_tabled, usingDefaultHuffTab_tabled, usingDefaultHuffTab_tabled, hstart,
      Bool.true_and]
    rw [Bool.and_eq_true, Bool.and_eq_true, Bool.and_eq_true,
      isDefault_iff h.has.dc0 (by rw [hdc]; exact h.dc0),
      isDefault_iff h.has.ac0 (by rw [hac]; exact h.ac0),
      isDefault_iff h.has.dc1 (by rw [hdc]; exact h.dc1),
      isDefault_iff h.has.ac1 (by rw [hac]; exact h.ac1), and_assoc, and_assoc]
  · have hids : (decoded c t info s).codec.compIdMap =
        (((restarted c.restartInterval (tabled t (framed c t info s))).codec.compIdMap.set 0 1).set
          1 2).set 2 3 := rfl
    rw [hids]
    ext i hi
    match i, hi with
    | 0, _ => simp
    | 1, _ => simp
    | 2, _ => simp

theorem Reads.of_rest {u : State} (h : Reads c t info (src.rest u)) : Reads c t info u where
  progressiveMode := h.progressiveMode
  width := h.width
  height := h.height
  mcuInfo := h.mcuInfo
  numComponents := h.numComponents
  comps := h.comps
  tblMap := h.tblMap
  quant0 := h.quant0
  quant1 := h.quant1
  dc0 := h.dc0
  ac0 := h.ac0
  dc1 := h.dc1
  ac1 := h.ac1
  default := h.default
  restartInterval := h.restartInterval
  compsInScan := h.compsInScan
  compIdMap := h.compIdMap
  spectrum := h.spectrum

/-- The header of a codec is parsed to the byte behind it, and the decoder has then what the
codec has. -/
theorem parseHead_header (h : Encodable c t info) {rest : List UInt8} {stream : Stream}
    (hbytes : stream.bytes = header c t ++ rest) {poolSize : ℕ}
    (hpool : 3 * 1024 + 2416 ≤ poolSize) (asserts : Bool) :
    ∃ u, Yields parseHead (start stream poolSize asserts) () u ∧ u.bytes = rest ∧
      Reads c t info u := by
  have hused : (src.rest (start stream poolSize asserts)).pool.used + 2416 ≤
      (src.rest (start stream poolSize asserts)).pool.size := by
    change (if stream.read then 3 * 1024 else 0) + 2416 ≤ poolSize
    split_ifs
    · omega
    · omega
  obtain ⟨u, hu, hrest, hstate⟩ := consumes_parseHead h rfl hused (start stream poolSize asserts)
    rest hbytes rfl
  have hreads := reads_decoded h (s := src.rest (start stream poolSize asserts)) rfl rfl
  rw [← hstate] at hreads
  exact ⟨u, hu, hrest, hreads.of_rest⟩

end Decoded

/-! ## A camera that is running -/

def levelOf (p : Params) : UInt32 :=
  if JPEG_QUALITY_MAX ≤ p.quality then JPEG_QUALITY_HIGH else p.quality

/-- `JpegEnc_InitParam` takes the picture. -/
def Accepted (p : Params) : Prop :=
  (p.format = JPEG_FW_YUV420 ∨ p.format = JPEG_FW_YUV422) ∧ 1 ≤ p.width ∧ 1 ≤ p.height

instance (p : Params) : Decidable (Accepted p) := inferInstanceAs (Decidable (_ ∧ _))

def lumaRatio (p : Params) : Ratio := if p.format = JPEG_FW_YUV420 then ⟨2, 2⟩ else ⟨2, 1⟩

def infoOf (p : Params) : McuInfo := if p.format = JPEG_FW_YUV420 then .yuv420 else .yuv422

def quantOf (p : Params) : List UInt8 := quantTblDefault.getD (levelOf p).toNat []

def pictureCodec (p : Params) : Codec :=
  { loadParam (initFwParam p) with
    ratio := #v[lumaRatio p, ⟨1, 1⟩, ⟨1, 1⟩]
    tblMap := defaultTblMap
    quantTbl := #v[some (quantOf p), some (quantOf p), none] }

def pictureTables (p : Params) : Tables where
  quant0 := quantOf p
  quant1 := quantOf p
  dcBits0 := lumDcBitsDefault
  dcHuffval0 := lumDcHuffvalueDefault
  acBits0 := lumAcBitsDefault
  acHuffval0 := lumAcHuffvalueDefault
  dcBits1 := chrDcBitsDefault
  dcHuffval1 := chrDcHuffvalueDefault
  acBits1 := chrAcBitsDefault
  acHuffval1 := chrAcHuffvalueDefault

theorem levelOf_lt (p : Params) : (levelOf p).toNat < 5 := by
  unfold levelOf
  split_ifs with hmax
  · decide
  · rw [UInt32.not_le, UInt32.lt_iff_toNat_lt] at hmax
    exact hmax

theorem getElem?_quantTblDefault (p : Params) :
    quantTblDefault[(levelOf p).toNat]? = some (quantOf p) := by
  have hlt : (levelOf p).toNat < quantTblDefault.length := levelOf_lt p
  rw [quantOf, List.getD_eq_getElem?_getD, List.getElem?_eq_getElem hlt, Option.getD_some]

theorem length_quantOf (p : Params) : (quantOf p).length = 64 := by
  have hall : ∀ l ∈ quantTblDefault, l.length = 64 := by decide
  exact hall _ (List.mem_of_getElem? (getElem?_quantTblDefault p))

theorem complete_lumDc : Complete lumDcBitsDefault lumDcHuffvalueDefault :=
  ⟨by decide, by decide⟩

theorem complete_lumAc : Complete lumAcBitsDefault lumAcHuffvalueDefault :=
  ⟨by decide, by decide +kernel⟩

theorem complete_chrDc : Complete chrDcBitsDefault chrDcHuffvalueDefault :=
  ⟨by decide, by decide⟩

theorem complete_chrAc : Complete chrAcBitsDefault chrAcHuffvalueDefault :=
  ⟨by decide, by decide +kernel⟩

theorem isDefault_lumDc : IsDefault false 0 lumDcBitsDefault lumDcHuffvalueDefault :=
  ⟨by decide, by decide⟩

theorem isDefault_lumAc : IsDefault true 0 lumAcBitsDefault lumAcHuffvalueDefault :=
  ⟨by decide, by decide +kernel⟩

theorem isDefault_chrDc : IsDefault false 1 chrDcBitsDefault chrDcHuffvalueDefault :=
  ⟨by decide, by decide⟩

theorem isDefault_chrAc : IsDefault true 1 chrAcBitsDefault chrAcHuffvalueDefault :=
  ⟨by decide, by decide +kernel⟩

theorem has_pictureCodec (p : Params) : (pictureCodec p).Has (pictureTables p) where
  quantTbl0 := rfl
  quantTbl1 := rfl
  dcHuffTbl0 := rfl
  acHuffTbl0 := rfl
  dcHuffTbl1 := rfl
  acHuffTbl1 := rfl
  quant0 := length_quantOf p
  quant1 := length_quantOf p
  dc0 := complete_lumDc
  ac0 := complete_lumAc
  dc1 := complete_chrDc
  ac1 := complete_chrAc

theorem encodable_pictureCodec (p : Params) :
    Encodable (pictureCodec p) (pictureTables p) (infoOf p) := by
  have hratio : first (pictureCodec p).ratio = lumaRatio p := rfl
  have hall : ∀ i : Fin 3, defaultTblMap[i].quantTblId.toNat ≤ 2 ∧
      defaultTblMap[i].dcHuffTblId.toNat < 16 ∧ defaultTblMap[i].acHuffTblId.toNat < 16 := by
    decide
  have hmap : ∀ (i : ℕ) (h : i < 3), defaultTblMap[i].quantTblId.toNat ≤ 2 ∧
      defaultTblMap[i].dcHuffTblId.toNat < 16 ∧ defaultTblMap[i].acHuffTblId.toNat < 16 :=
    fun i hi => hall ⟨i, hi⟩
  refine
    { has := has_pictureCodec p
      hRatio := ?_
      vRatio := ?_
      info := ?_
      ratio1 := rfl
      ratio2 := rfl
      quantTblId := fun i hi => (hmap i hi).1
      dcHuffTblId := fun i hi => (hmap i hi).2.1
      acHuffTblId := fun i hi => (hmap i hi).2.2
      dc0 := (by decide : symbolsOf lumDcBitsDefault ≤ 12)
      ac0 := (by decide : symbolsOf lumAcBitsDefault ≤ AC_SYMBOL_NUM)
      dc1 := (by decide : symbolsOf chrDcBitsDefault ≤ 12)
      ac1 := (by decide : symbolsOf chrAcBitsDefault ≤ AC_SYMBOL_NUM) }
  · rw [hratio]
    unfold lumaRatio
    split_ifs <;> decide
  · rw [hratio]
    unfold lumaRatio
    split_ifs <;> decide
  · rw [hratio]
    unfold lumaRatio infoOf
    split_ifs <;> rfl

/-- What `JPEG_HWWriteHead` has put out is parsed to the byte behind it, and the decoder has
then what the encoder had. -/
theorem parseHead_writeHead {c : Codec} {t : Tables} {info : McuInfo} (h : Encodable c t info)
    {w w' : Writer} (hcodec : w.codec = c) (hyields : Yields writeHead w true w')
    {d rest : List UInt8} (hout : w'.out = w.out ++ d) {stream : Stream} (hbytes : stream.bytes = d ++ rest)
    {poolSize : ℕ} (hpool : 3 * 1024 + 2416 ≤ poolSize) (asserts : Bool) :
    ∃ u, Yields parseHead (start stream poolSize asserts) () u ∧ u.bytes = rest ∧
      Reads c t info u := by
  have hhas : w.codec.Has t := by
    rw [hcodec]
    exact h.has
  have hemits : Emits writeHead (header c t) w := by
    rw [← hcodec]
    exact emits_writeHead hhas
  have hheader := ((wp_of_yields hyields).mp hemits).2.2
  rw [if_pos rfl, hout] at hheader
  have hd : d = header c t := List.append_cancel_left hheader
  rw [hd] at hbytes
  exact parseHead_header h hbytes hpool asserts

def firstWriter : Writer := ⟨fun _ => true, 0, [], Codec.zero⟩

def vgaParams : Params := ⟨JPEG_FW_YUV420, 640, 480, 0, JPEG_QUALITY_MAX⟩

theorem bytes_chunk (l : List UInt8) : Stream.bytes ⟨l, false, []⟩ = l := List.append_nil l

theorem parseHead_writeHead_vga :
    ∃ w', Yields writeHead (firstWriter.setCodec (pictureCodec vgaParams)) true w' ∧
      ∃ u, Yields parseHead
          (start ⟨header (pictureCodec vgaParams) (pictureTables vgaParams) ++ [0xFF, 0xD9], false,
            []⟩ 8192 false) () u ∧
        u.bytes = [0xFF, 0xD9] ∧
        Reads (pictureCodec vgaParams) (pictureTables vgaParams) (infoOf vgaParams) u := by
  have hencodable := encodable_pictureCodec vgaParams
  -- the bytes of the header are never computed
  generalize pictureCodec vgaParams = c at *
  generalize pictureTables vgaParams = t at *
  have hemits : Emits writeHead (header c t) (firstWriter.setCodec c) :=
    emits_writeHead (w := firstWriter.setCodec c) hencodable.has
  obtain ⟨b, w', hyields, -, hready, hout⟩ := exists_yields_of_wp hemits
  have hb : b = true := hready fun _ => rfl
  subst hb
  rw [if_pos rfl] at hout
  exact ⟨w', hyields, parseHead_writeHead hencodable rfl hyields hout (bytes_chunk _) (by omega)
    false⟩

/-- What holds between two pictures: the quality of the last one is a quality. -/
def Settled (w : Writer) : Prop := w.codec.compressLevel ≤ JPEG_QUALITY_MAX

theorem ratioOf_accepted {p : Params} (h : Accepted p) :
    ratioOf p.format.toUInt8 = some (lumaRatio p) := by
  obtain ⟨hformat, -⟩ := h
  unfold lumaRatio
  rcases hformat with hformat | hformat
  · rw [hformat]
    rfl
  · rw [hformat]
    rfl

/-- The codec behind `JpegEnc_InitParam`. -/
def initCodec (p : Params) : Codec :=
  { loadParam (initFwParam p) with ratio := #v[lumaRatio p, ⟨1, 1⟩, ⟨1, 1⟩] }

theorem wp_initParam (p : Params) {w : Writer} (hw : Settled w) :
    wp (fun _ => False) (initParam (initFwParam p)) (fun b u =>
      (b = true ∧ Accepted p ∧ u = w.setCodec (initCodec p)) ∨ (b = false ∧ ¬ Accepted p ∧ u = w))
      w := by
  have hsettled : ¬ JPEG_QUALITY_MAX < w.codec.compressLevel := UInt32.not_lt.mpr hw
  have hone : ∀ x : UInt32, ¬ x < 1 ↔ 1 ≤ x := fun x => UInt32.not_lt
  rw [initParam, wp_bind, wp_get, if_neg hsettled]
  by_cases hformat : p.format = JPEG_FW_YUV420 ∨ p.format = JPEG_FW_YUV422
  · have hmcu : ¬ ((initFwParam p).mcuInfo0 ≠ JPEG_FW_YUV422 ∧
        (initFwParam p).mcuInfo0 ≠ JPEG_FW_YUV420 ∧ (initFwParam p).mcuInfo1 ≠ JPEG_FW_YUV422 ∧
          (initFwParam p).mcuInfo1 ≠ JPEG_FW_YUV420) := by
      rintro ⟨hne, hne', -⟩
      exact hformat.elim hne' hne
    rw [if_neg hmcu]
    by_cases hsize : 1 ≤ p.width ∧ 1 ≤ p.height
    · have haccepted : Accepted p := ⟨hformat, hsize⟩
      have hlarge : ¬ ((initFwParam p).width < 1 ∨ (initFwParam p).height < 1) := by
        rintro (hlt | hlt)
        · exact (hone _).mpr hsize.1 hlt
        · exact (hone _).mpr hsize.2 hlt
      have hratio : ratioOf (initFwParam p).mcuInfo0.toUInt8 = some (lumaRatio p) :=
        ratioOf_accepted haccepted
      rw [if_neg hlarge, wp_bind, wp_modify, hratio]
      exact Or.inl ⟨rfl, haccepted, rfl⟩
    · have hsmall : (initFwParam p).width < 1 ∨ (initFwParam p).height < 1 := by
        by_contra hboth
        rw [not_or, hone, hone] at hboth
        exact hsize hboth
      rw [if_pos hsmall]
      exact Or.inr ⟨rfl, fun h => hsize h.2, rfl⟩
  · have hmcu : (initFwParam p).mcuInfo0 ≠ JPEG_FW_YUV422 ∧
        (initFwParam p).mcuInfo0 ≠ JPEG_FW_YUV420 ∧ (initFwParam p).mcuInfo1 ≠ JPEG_FW_YUV422 ∧
          (initFwParam p).mcuInfo1 ≠ JPEG_FW_YUV420 := by
      rw [not_or] at hformat
      exact ⟨hformat.2, hformat.1, hformat.2, hformat.1⟩
    rw [if_pos hmcu]
    exact Or.inr ⟨rfl, fun h => hformat h.1, rfl⟩

/-- `JpegEnc_QTableCfg` finds the tables of every quality that `JPEGENC_init_fw_param` passes
on. -/
theorem yields_qTableCfg (p : Params) (w : Writer) :
    Yields qTableCfg (w.setCodec (initCodec p)) () (w.setCodec (pictureCodec p)) := by
  have hlevel : (w.setCodec (initCodec p)).codec.compressLevel = levelOf p := rfl
  refine yields_bind.mpr ⟨_, _, rfl, yields_bind.mpr ⟨quantOf p, w.setCodec (initCodec p), ?_, ?_⟩⟩
  · rw [hlevel, entry, getElem?_quantTblDefault]
    rfl
  · exact congrArg (fun q => Except.ok ((), w.setCodec { initCodec p with
      tblMap := defaultTblMap, quantTbl := q })) rfl

def headerOf (p : Params) : List UInt8 := header (pictureCodec p) (pictureTables p)

/-- The hardware takes the picture: its width is a multiple of 16 and the height of a slice one
of 8. -/
def Startable (p : Params) : Prop := p.width &&& 0xf = 0 ∧ sliceHeight p &&& 0x7 = 0

/-- What `JPEGENC_start_encode` does: an accepted picture has its header written, or the
beginning of it if it fails, and nothing is written for another one. -/
structure Starts (p : Params) (w : Writer) (b : Bool) (u : Writer) : Prop where
  settled : Settled u
  completed : Accepted p → w.Ready → Startable p → b = true
  whole : Accepted p → w.Ready → u.out = w.out ++ headerOf p
  ready : u.ready = w.ready
  accepted : b = true → Accepted p ∧ u.out = w.out ++ headerOf p
  failed : ∃ d, d <+: headerOf p ∧ u.out = w.out ++ d
  refused : ¬ Accepted p → b = false ∧ u.out = w.out

theorem startable_iff {p : Params} :
    (p.width &&& 0xf == 0 && sliceHeight p &&& 0x7 == 0) = true ↔ Startable p := by
  rw [Bool.and_eq_true, beq_iff_eq, beq_iff_eq, Startable]

theorem wp_startEncode (p : Params) {w : Writer} (hw : Settled w) :
    wp (fun _ => False) (startEncode p) (Starts p w) w := by
  have hinit : hwEncInit (initFwParam p) =
      andThen (initParam (initFwParam p)) (do qTableCfg; pure true) := rfl
  have hlevel : (pictureCodec p).compressLevel ≤ JPEG_QUALITY_MAX := by
    rw [UInt32.le_iff_toNat_le]
    exact Nat.le_of_lt (levelOf_lt p)
  rw [startEncode, hinit, andThen, andThen, wp_bind, wp_bind]
  refine wp_mono (wp_initParam p hw) (fun _ he => he) fun b u hu => ?_
  rcases hu with ⟨rfl, haccepted, rfl⟩ | ⟨rfl, hrefused, rfl⟩
  · rw [if_pos rfl, wp_bind, wp_of_yields (yields_qTableCfg p w), wp_pure, if_pos rfl, andThen,
      wp_bind]
    have hhead := emits_writeHead (w := w.setCodec (pictureCodec p)) (has_pictureCodec p)
    refine wp_mono hhead (fun _ he => he) ?_
    rintro b u ⟨hsame, hready, hout⟩
    have hsettled : Settled u := by
      rw [Settled, hsame.codec]
      exact hlevel
    cases b with
    | false =>
        exact ⟨hsettled, fun _ h _ => hready h, fun _ h => absurd (hready h) Bool.false_ne_true,
          hsame.ready, fun h => absurd h Bool.false_ne_true, hout,
          fun h => absurd haccepted h⟩
    | true =>
        rw [if_pos rfl] at hout
        exact ⟨hsettled, fun _ _ h => startable_iff.mpr h, fun _ _ => hout, hsame.ready,
          fun _ => ⟨haccepted, hout⟩, ⟨headerOf p, List.prefix_rfl, hout⟩,
          fun h => absurd haccepted h⟩
  · exact ⟨hw, fun h => absurd h hrefused, fun h => absurd h hrefused, rfl,
      fun h => absurd h Bool.false_ne_true,
      ⟨[], List.nil_prefix, (List.append_nil _).symm⟩, fun _ => ⟨rfl, rfl⟩⟩

def Pictures (w u : Writer) : Prop := ∃ p b, Yields (startEncode p) w b u

/-- The camera has been switched on and has taken pictures. -/
def Running (w : Writer) : Prop :=
  ∃ w₀ : Writer, w₀.codec = Codec.zero ∧ Relation.ReflTransGen Pictures w₀ w

theorem Running.settled {w : Writer} (h : Running w) : Settled w := by
  obtain ⟨w₀, hzero, hrun⟩ := h
  induction hrun with
  | refl =>
      rw [Settled, hzero]
      decide
  | tail _ hstep ih =>
      obtain ⟨p, b, hyields⟩ := hstep
      exact ((wp_of_yields hyields).mp (wp_startEncode p ih)).settled

/-- What the decoder has of a picture. -/
structure Shows (p : Params) (u : State) : Prop where
  width : u.input.inputWidth = p.width.toNat % 2 ^ 16
  height : u.input.inputHeight = p.height.toNat % 2 ^ 16
  mcuInfo : u.input.inputMcuInfo = if p.format = JPEG_FW_YUV420 then .yuv420 else .yuv422
  quant : ∀ (i : ℕ) (h : i < 2), ∃ v, u.codec.quantTbl[i] = some v ∧ v.toList = quantOf p
  default : u.codec.usingDefaultHuffTab = true
  restartInterval : u.codec.restartInterval = 0x3ffff
  tblMap : ∀ (i : ℕ) (h : i < 3), u.codec.tblMap[i] =
    if i = 0 then ⟨0, 0, 0⟩ else ⟨1, 1, 1⟩

theorem shows_of_reads {p : Params} {u : State}
    (h : JpegEnc.Reads (pictureCodec p) (pictureTables p) (infoOf p) u) : Shows p u where
  width := h.width.trans (UInt32.toNat_toUInt16 p.width)
  height := h.height.trans (UInt32.toNat_toUInt16 p.height)
  mcuInfo := h.mcuInfo
  quant := fun i hi => by
    match i, hi with
    | 0, _ => exact h.quant0
    | 1, _ => exact h.quant1
  default := h.default.mpr ⟨isDefault_lumDc, isDefault_lumAc, isDefault_chrDc, isDefault_chrAc⟩
  restartInterval := h.restartInterval
  tblMap := fun i hi => by
    rw [h.tblMap i hi]
    match i, hi with
    | 0, _ => rfl
    | 1, _ => rfl
    | 2, _ => rfl

/-- Every picture of a running camera is either refused, without a byte, or has the beginning of
its header written. The hardware is only started behind a whole header. When it is always ready
the header is whole, and every picture that it takes is started. -/
theorem startEncode_header {w : Writer} (h : Settled w) (p : Params) :
    ∃ b u d, Yields (startEncode p) w b u ∧ u.out = w.out ++ d ∧
      (¬ Accepted p → b = false ∧ d = []) ∧
      (Accepted p → d <+: headerOf p ∧ (w.Ready → d = headerOf p) ∧
        (w.Ready → Startable p → b = true)) ∧
      (b = true → Accepted p ∧ d = headerOf p) := by
  obtain ⟨b, u, hyields, hstarts⟩ := exists_yields_of_wp (wp_startEncode p h)
  obtain ⟨d, hbegun, hout⟩ := hstarts.failed
  have hd : ∀ {l}, u.out = w.out ++ l → d = l := fun hl =>
    List.append_cancel_left (hout.symm.trans hl)
  refine ⟨b, u, d, hyields, hout, fun hno => ?_, fun haccepted => ?_, fun hb => ?_⟩
  · obtain ⟨hb, hnothing⟩ := hstarts.refused hno
    exact ⟨hb, hd (hnothing.trans (List.append_nil _).symm)⟩
  · exact ⟨hbegun, fun hready => hd (hstarts.whole haccepted hready),
      hstarts.completed haccepted⟩
  · obtain ⟨haccepted, hheader⟩ := hstarts.accepted hb
    exact ⟨haccepted, hd hheader⟩

/-- The bytes of every header that is written to its end show the decoder the picture, also when
the hardware is not started. -/
theorem startEncode_reads {w : Writer} (h : Running w) (p : Params) :
    ∃ b u d, Yields (startEncode p) w b u ∧ Running u ∧ u.out = w.out ++ d ∧
      (¬ Accepted p → b = false ∧ d = []) ∧
      (Accepted p → d <+: headerOf p ∧ (w.Ready → d = headerOf p) ∧
        (w.Ready → Startable p → b = true)) ∧
      (b = true → Accepted p ∧ d = headerOf p) ∧
      (Accepted p → d = headerOf p → ∀ (stream : Stream) (rest : List UInt8) (poolSize : ℕ)
        (asserts : Bool), stream.bytes = d ++ rest → 3 * 1024 + 2416 ≤ poolSize →
          ∃ x, Yields parseHead (start stream poolSize asserts) () x ∧ x.bytes = rest ∧
            Shows p x) := by
  obtain ⟨b, u, d, hyields, hout, hrefused, haccepted, hstarted⟩ :=
    startEncode_header h.settled p
  have hrunning : Running u := by
    obtain ⟨w₀, hzero, hrun⟩ := h
    exact ⟨w₀, hzero, hrun.tail ⟨p, b, hyields⟩⟩
  refine ⟨b, u, d, hyields, hrunning, hout, hrefused, haccepted, hstarted, ?_⟩
  intro _ hd stream rest poolSize asserts hbytes hpool
  rw [hd] at hbytes
  obtain ⟨x, hx, hrest, hreads⟩ :=
    parseHead_header (encodable_pictureCodec p) hbytes hpool asserts
  exact ⟨x, hx, hrest, shows_of_reads hreads⟩

theorem startEncode_reads_vga : ∃ b u d, Yields (startEncode vgaParams) firstWriter b u ∧
    Running u ∧ u.out = firstWriter.out ++ d ∧ (¬ Accepted vgaParams → b = false ∧ d = []) ∧
    (Accepted vgaParams → d <+: headerOf vgaParams ∧ (firstWriter.Ready → d = headerOf vgaParams) ∧
      (firstWriter.Ready → Startable vgaParams → b = true)) ∧
    (b = true → Accepted vgaParams ∧ d = headerOf vgaParams) ∧
    (Accepted vgaParams → d = headerOf vgaParams → ∀ (stream : Stream) (rest : List UInt8)
      (poolSize : ℕ) (asserts : Bool), stream.bytes = d ++ rest → 3 * 1024 + 2416 ≤ poolSize →
        ∃ x, Yields parseHead (start stream poolSize asserts) () x ∧ x.bytes = rest ∧
          Shows vgaParams x) :=
  startEncode_reads ⟨firstWriter, rfl, .refl⟩ vgaParams

end JpegEnc

end Tarako
