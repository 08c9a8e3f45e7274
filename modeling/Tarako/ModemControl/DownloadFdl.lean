import Tarako.Lib.Blocks
import Tarako.ModemControl.DownloadImage
import Tarako.ModemControl.UartPacket

/-!
# Downloading the first loader

`download_fdl` loads the file of the first image of the table into memory and sends it over
the UART in pieces of `FDL_PACKET_SIZE` bytes. Both of its loops count down what is left: the
one that loads repeats calls of `read` that deliver nothing, also at the end of the file, and
the one that sends waits for a size that is exactly zero.
-/

namespace Tarako

namespace ModemControl

open Splice Words

def FDL_PACKET_SIZE : ℕ := 256

def SEND_BUFFER_SIZE : ℕ := 1000 * 4

/-- The loop of `load_fdl2memory`, with `size` bytes missing from `offset` on. -/
def loadLoop : ℕ → ℕ → ℕ → List (List UInt8) → List UInt8 → Option (List UInt8)
  | 0, _, _, _, _ => none
  | fuel + 1, size, offset, reads, memory => do
      let (bytes, rest) := Pieces.read size reads
      let memory ← store? memory offset bytes
      if size - bytes.length = 0 then return memory
      else loadLoop fuel (size - bytes.length) (offset + bytes.length) rest memory

/-- `load_fdl2memory`: its result, where `none` is `NULL`. The memory that `malloc` gives
holds anything. -/
def loadFdl2memory (fuel : ℕ) (openFile : List UInt8 → Option (List (List UInt8)))
    (malloc : Option (ℕ → UInt8)) (info : ImageInfo) : Option (Option (List UInt8)) :=
  match info.imagePath.bind openFile, malloc with
  | some reads, some held =>
      (loadLoop fuel info.imageSize.toNatClampNeg 0 reads
        ((List.range (info.imageSize.toNatClampNeg + 4)).map held)).map some
  | _, _ => some none

/-- The loop `while(size)` of `download_fdl`. -/
def fdlLoop : ℕ → ℤ → List UInt8 → Boot → Option (Boot × Int)
  | 0, _, _, _ => none
  | fuel + 1, size, buffer, b =>
      if size = 0 then some (b, 0)
      else do
        let (b, ret) ← b.send (sendDataMessage buffer FDL_PACKET_SIZE .uart)
        if ret = -1 then return (b, -1)
        fdlLoop fuel (size - FDL_PACKET_SIZE) (buffer.drop FDL_PACKET_SIZE) b

def downloadFdl (fuel : ℕ) (openFile : List UInt8 → Option (List (List UInt8)))
    (malloc : Option (ℕ → UInt8)) (info : ImageInfo) (b : Boot) : Option (Boot × Int) := do
  match ← loadFdl2memory fuel openFile malloc info with
  | none => return (b, -1)
  | some buffer =>
      let (b, ret) ← b.send (sendStartMessage info.imageSize info.address .uart)
      if ret = -1 then return (b, -1)
      let (b, ret) ← fdlLoop fuel info.imageSize.toInt buffer b
      if ret = -1 then return (b, -1)
      let (b, ret) ← b.send (sendEndMessage .uart)
      if ret = -1 then return (b, -1)
      b.send (sendExecMessage info.address .uart)

/-! ## Loading -/

theorem loadLoop_succ {fuel size offset : ℕ} {reads rest : List (List UInt8)}
    {memory bytes : List UInt8} (hread : Pieces.read size reads = (bytes, rest))
    (hbytes : offset + bytes.length ≤ memory.length) :
    loadLoop (fuel + 1) size offset reads memory =
      if size - bytes.length = 0 then some (splice memory offset bytes)
      else loadLoop fuel (size - bytes.length) (offset + bytes.length) rest
        (splice memory offset bytes) := by
  have hstore : store? memory offset bytes = some (splice memory offset bytes) := if_pos hbytes
  rw [loadLoop, hread]
  simp only [hstore, Option.bind_eq_bind, Option.bind_some, Option.pure_def]

/-- A file that is long enough is loaded, however its reads deliver it. -/
theorem loadLoop_of_le (reads : List (List UInt8)) :
    ∀ {fuel size offset : ℕ} {memory : List UInt8}, 0 < size → size ≤ reads.flatten.length →
      reads.length ≤ fuel → offset + size ≤ memory.length →
      ∃ loaded, loadLoop fuel size offset reads memory = some loaded ∧
        loaded.length = memory.length ∧
        loaded.take (offset + size) = memory.take offset ++ reads.flatten.take size := by
  induction reads with
  | nil =>
      intro fuel size offset memory hpos hle
      exact absurd hle (Nat.not_le.mpr hpos)
  | cons piece rest ih =>
      intro fuel size offset memory hpos hle hfuel hmemory
      obtain ⟨fuel, rfl⟩ := Nat.exists_eq_add_one_of_ne_zero (Nat.ne_zero_of_lt hfuel)
      by_cases hpiece : size ≤ piece.length
      · obtain ⟨left, hread⟩ : ∃ left,
            Pieces.read size (piece :: rest) = (piece.take size, left) := by
          rw [Pieces.read]
          split_ifs with hall
          · exact ⟨rest, by rw [List.take_of_length_le hall]⟩
          · exact ⟨_, rfl⟩
        have hlength : (piece.take size).length = size := List.length_take_of_le hpiece
        have hloaded := take_splice (d := piece.take size) (show offset ≤ memory.length by omega)
        refine ⟨splice memory offset (piece.take size), ?_, length_splice (by omega), ?_⟩
        · rw [loadLoop_succ hread (by omega), if_pos (by omega)]
        · rw [hlength] at hloaded
          rw [hloaded, List.flatten_cons, List.take_append_of_le_length hpiece]
      · have hread : Pieces.read size (piece :: rest) = (piece, rest) := if_pos (by omega)
        have hlength : (splice memory offset piece).length = memory.length :=
          length_splice (by omega)
        rw [List.flatten_cons, List.length_append] at hle
        obtain ⟨loaded, hrun, hloaded, htake⟩ :=
          @ih fuel (size - piece.length) (offset + piece.length) (splice memory offset piece)
            (by omega) (by omega) (Nat.le_of_succ_le_succ hfuel) (by omega)
        refine ⟨loaded, ?_, hloaded.trans hlength, ?_⟩
        · rw [loadLoop_succ hread (by omega), if_neg (by omega)]
          exact hrun
        · have hsize : offset + piece.length + (size - piece.length) = offset + size := by omega
          rw [hsize, take_splice (by omega), List.append_assoc] at htake
          have hpieces : (piece ++ rest.flatten).take size =
              piece ++ rest.flatten.take (size - piece.length) := by
            rw [List.take_append, List.take_of_length_le (by omega)]
          rw [htake, List.flatten_cons, hpieces]

theorem loadLoop_eq_none (fuel : ℕ) :
    ∀ {size offset : ℕ} {reads : List (List UInt8)} {memory : List UInt8},
      reads.flatten.length < size → loadLoop fuel size offset reads memory = none := by
  induction fuel with
  | zero => exact fun _ => rfl
  | succ fuel ih =>
      intro size offset reads memory hshort
      obtain ⟨⟨bytes, rest⟩, hread⟩ : ∃ r, Pieces.read size reads = r := ⟨_, rfl⟩
      have hflatten := congrArg List.length (Pieces.read_flatten size reads)
      rw [hread, List.length_append] at hflatten
      change bytes.length + rest.flatten.length = _ at hflatten
      by_cases hbytes : offset + bytes.length ≤ memory.length
      · rw [loadLoop_succ hread hbytes, if_neg (by omega)]
        exact ih (by omega)
      · have hstore : store? memory offset bytes = none := if_neg hbytes
        rw [loadLoop, hread]
        simp only [hstore, Option.bind_eq_bind, Option.bind_none]

/-! ## The messages of a download -/

def uartFrame (msg : CmdType) (data : List UInt8) : List UInt8 :=
  translatePacket (uartHead msg data.length data ++
    bytes16 (cpu2be16 (crc16LCalc (uartHead msg data.length data))))

/-- The frames of a download: the start, the pieces of the image, the end and the jump. -/
def fdlFrames (info : ImageInfo) (payloads : List (List UInt8)) : List (List UInt8) :=
  uartFrame .startData (bytes32 (cpu2be32 info.address) ++ bytes32 (cpu2be32Int info.imageSize)) ::
    (payloads.map (uartFrame .midstData) ++
      [uartFrame .endData [], uartFrame .execData (bytes32 (cpu2be32 info.address))])

theorem length_of_readLoop {reads rest : List (List UInt8)} :
    ∀ {size : ℕ} {raw answer : List UInt8}, readLoop size reads raw = some (answer, rest) →
      answer.length = raw.length + size := by
  induction reads with
  | nil =>
      intro size raw answer h
      cases h
  | cons bytes reads ih =>
      intro size raw answer h
      have hgot : (bytes.take size).length ≤ size := List.length_take_le _ _
      rw [readLoop] at h
      split_ifs at h with hzero
      · obtain ⟨rfl, -⟩ := Prod.mk.inj (Option.some.inj h)
        rw [List.length_append]
        omega
      · have hlength := ih h
        rw [List.length_append] at hlength
        omega

theorem uartExchange_of_acknowledges {packet : List UInt8} {sizes : List ℕ} {link : Link}
    (h : Acknowledges .uart ((translatePacket packet).length :: sizes) link)
    (sendBuffer : List UInt8) (hfits : (translatePacket packet).length ≤ sendBuffer.length)
    (hanswer : 8 ≤ sendBuffer.length) :
    ∃ left link', left.length = sendBuffer.length ∧ Acknowledges .uart sizes link' ∧
      uartExchange ackOrZero (some packet) sendBuffer link =
        some ⟨translatePacket packet, 0, left, link'⟩ := by
  obtain ⟨writes, reads⟩ := link
  cases writes with
  | nil => exact h.elim
  | cons retval writes =>
      obtain ⟨hretval, raw, rest, hread, ⟨body, hbody, hlong, hescape, hack⟩, hlink⟩ := h
      obtain ⟨frame, hframe⟩ : ∃ l, translatePacket packet = l := ⟨_, rfl⟩
      rw [hframe] at hretval hfits ⊢
      have hread' : readLoop 8 reads [] = some (raw, rest) := hread
      have hraw : raw.length = 0 + 8 := length_of_readLoop hread'
      have hstuff := hdlc.length_le_length_stuff body
      have hlength : (translatePacket body).length = (hdlc.stuff body).length + 2 := by
        rw [translatePacket_eq_frame, Stuffing.Code.frame, List.length_cons, List.length_append]
        rfl
      rw [← hbody] at hlength
      have hne : body ≠ [] := List.ne_nil_of_length_pos (by omega)
      obtain ⟨filled, hfilled⟩ : ∃ l, splice sendBuffer 0 frame = l := ⟨_, rfl⟩
      have hstore : store? sendBuffer 0 frame = some filled := by
        rw [← hfilled]
        exact if_pos (by omega)
      have hsize : filled.length = sendBuffer.length := by
        rw [← hfilled]
        exact length_splice (by omega)
      have htake : filled.take frame.length = frame := by
        have hsplice := take_splice (d := frame) (Nat.zero_le sendBuffer.length)
        rw [Nat.zero_add, hfilled] at hsplice
        exact hsplice
      have hwrite : writeLoop filled frame.length (retval :: writes) [] =
          some ⟨frame, writes⟩ := by
        have hmin : min retval.toNat frame.length = frame.length := by omega
        rw [writeLoop, hmin, Nat.sub_self, htake]
        rfl
      have hdecode : untranslatePacket filled raw =
          some (body ++ filled.drop body.length, body.length) := by
        rw [hbody, untranslatePacket_translatePacket hne, decode_stuff_of_not_mem hne hescape,
          if_pos (by omega), finishPacket_eq_some_iff hne]
        exact ⟨.inl hlong, rfl⟩
      have hhead : headType (body ++ filled.drop body.length) = headType body := by
        rw [headType, headType, List.getElem?_append_left (by omega),
          List.getElem?_append_left (by omega)]
      obtain ⟨type, htype, hack⟩ := (Option.any_eq_true _ _).mp hack
      refine ⟨body ++ filled.drop body.length, ⟨writes, rest⟩, ?_, hlink, ?_⟩
      · rw [List.length_append, List.length_drop]
        omega
      · simp [uartExchange, uartWrite, hframe, hstore, hwrite, hread', hdecode, hhead, htype, hack]

/-- The packet of a sender that takes its data from `raw_buffer`. -/
theorem uartPacket_eq {msg : CmdType}
    (hmsg : msg ∈ [CmdType.startData, .midstData, .endData, .execData]) {raw data : List UInt8}
    (hroom : data.length + 10 ≤ raw.length) (hdata : (raw.drop 8).take data.length = data) :
    uartPacket msg raw data.length = some (uartHead msg data.length data ++
      bytes16 (cpu2be16 (crc16LCalc (uartHead msg data.length data)))) := by
  obtain ⟨laid, hsetup, hpacket⟩ :=
    setupUart_eq msg (fun head => cpu2be16 (crc16LCalc head)) hroom
  have hbranch : setupPacket msg raw 8 data.length .uart =
      setupUart msg (fun head => cpu2be16 (crc16LCalc head)) raw data.length := by
    simp only [List.mem_cons, List.not_mem_nil, or_false] at hmsg
    obtain rfl | rfl | rfl | rfl := hmsg
    · rfl
    · rfl
    · rfl
    · rfl
  rw [hdata] at hpacket
  rw [uartPacket, hbranch, hsetup]
  exact hpacket

theorem length_uartFrame_le (msg : CmdType) (data : List UInt8) :
    (uartFrame msg data).length ≤ 2 * data.length + 14 := by
  have hstuff := hdlc.length_stuff_le (uartHead msg data.length data ++
    bytes16 (cpu2be16 (crc16LCalc (uartHead msg data.length data))))
  have hhead : (uartHead msg data.length data).length = data.length + 4 := by
    rw [uartHead, List.length_append]
    exact Nat.add_comm 4 _
  rw [List.length_append, hhead, length_bytes16] at hstuff
  rw [uartFrame, translatePacket_eq_frame, Stuffing.Code.frame, List.length_cons,
    List.length_append, List.length_singleton]
  omega

theorem Boot.send_of_acknowledges {b : Boot} {msg : CmdType}
    (hmsg : msg ∈ [CmdType.startData, .midstData, .endData, .execData]) (raw data : List UInt8)
    (hroom : data.length + 10 ≤ raw.length) (hdata : (raw.drop 8).take data.length = data)
    (hsmall : data.length ≤ FDL_PACKET_SIZE) (hbuffer : b.sendBuffer.length = SEND_BUFFER_SIZE)
    {sizes : List ℕ}
    (h : Acknowledges .uart ((uartFrame msg data).length :: sizes) b.link) :
    ∃ b', b.send (uartExchange ackOrZero (uartPacket msg raw data.length)) = some (b', 0) ∧
      b'.sent = b.sent ++ [uartFrame msg data] ∧ b'.sendBuffer.length = SEND_BUFFER_SIZE ∧
      Acknowledges .uart sizes b'.link := by
  have hlength := length_uartFrame_le msg data
  have hvalue : FDL_PACKET_SIZE = 256 := rfl
  have hvalue' : SEND_BUFFER_SIZE = 4000 := rfl
  obtain ⟨left, link', hleft, hlink, hexchange⟩ :=
    uartExchange_of_acknowledges h b.sendBuffer (by rw [← uartFrame]; omega) (by omega)
  refine ⟨{ b with sendBuffer := left, link := link', sent := b.sent ++ [uartFrame msg data] },
    ?_, rfl, hleft.trans hbuffer, hlink⟩
  rw [Boot.send, uartPacket_eq hmsg hroom hdata, hexchange]
  rfl

/-! ## The pieces of the image -/

/-- The first `count` pieces of what has been loaded. -/
def pieces (count : ℕ) (buffer : List UInt8) : List (List UInt8) :=
  (List.range count).map (Blocks.block FDL_PACKET_SIZE buffer)

theorem pieces_succ (count : ℕ) (buffer : List UInt8) :
    pieces (count + 1) buffer =
      buffer.take FDL_PACKET_SIZE :: pieces count (buffer.drop FDL_PACKET_SIZE) := by
  have hshift : Blocks.block FDL_PACKET_SIZE buffer ∘ Nat.succ =
      Blocks.block FDL_PACKET_SIZE (buffer.drop FDL_PACKET_SIZE) := by
    funext k
    rw [Function.comp_apply, Blocks.block, Blocks.block, List.drop_drop, Nat.succ_mul,
      Nat.add_comm]
  rw [pieces, List.range_succ_eq_map, List.map_cons, List.map_map, hshift, Blocks.block,
    Nat.zero_mul, List.drop_zero]
  rfl

theorem flatten_pieces (count : ℕ) (buffer : List UInt8) :
    (pieces count buffer).flatten = buffer.take (count * FDL_PACKET_SIZE) := by
  have hflat := Blocks.flatMap_block FDL_PACKET_SIZE buffer 0 count
  rw [Nat.zero_mul, List.drop_zero, ← List.range_eq_range'] at hflat
  exact hflat

theorem pieces_append {count : ℕ} {image : List UInt8}
    (h : count * FDL_PACKET_SIZE ≤ image.length) (behind : List UInt8) :
    pieces count (image ++ behind) = pieces count image := by
  refine List.map_congr_left fun k hk => Blocks.block_append_of_le ?_ behind
  exact Nat.le_trans (Nat.mul_le_mul_right _ (List.mem_range.mp hk)) h

/-- The loop sends the pieces of an image whose size is a multiple of `FDL_PACKET_SIZE`. -/
theorem fdlLoop_spec (count : ℕ) :
    ∀ {fuel : ℕ} {buffer : List UInt8} {b : Boot} {sizes : List ℕ}, count < fuel →
      count * FDL_PACKET_SIZE ≤ buffer.length → b.sendBuffer.length = SEND_BUFFER_SIZE →
      Acknowledges .uart
        (((pieces count buffer).map (uartFrame .midstData)).map List.length ++ sizes) b.link →
      ∃ b', fdlLoop fuel (count * FDL_PACKET_SIZE : ℕ) buffer b = some (b', 0) ∧
        b'.sent = b.sent ++ (pieces count buffer).map (uartFrame .midstData) ∧
        b'.sendBuffer.length = SEND_BUFFER_SIZE ∧ Acknowledges .uart sizes b'.link := by
  have hvalue : FDL_PACKET_SIZE = 256 := rfl
  induction count with
  | zero =>
      intro fuel buffer b sizes hfuel hbuffer hsend hlink
      obtain ⟨fuel, rfl⟩ := Nat.exists_eq_add_one_of_ne_zero (Nat.ne_zero_of_lt hfuel)
      refine ⟨b, ?_, (List.append_nil _).symm, hsend, hlink⟩
      rw [fdlLoop, if_pos (by rw [Nat.zero_mul]; rfl)]
  | succ count ih =>
      intro fuel buffer b sizes hfuel hbuffer hsend hlink
      obtain ⟨fuel, rfl⟩ := Nat.exists_eq_add_one_of_ne_zero (Nat.ne_zero_of_lt hfuel)
      rw [Nat.succ_mul] at hbuffer
      rw [pieces_succ] at hlink ⊢
      have hlength : (buffer.take FDL_PACKET_SIZE).length = FDL_PACKET_SIZE :=
        List.length_take_of_le (by omega)
      have hslice : slice buffer 0 FDL_PACKET_SIZE = some (buffer.take FDL_PACKET_SIZE) := by
        rw [slice, if_pos (by omega), List.drop_zero]
      have hraw : dataRaw? (buffer.take FDL_PACKET_SIZE) =
          some (splice (List.replicate 300 0) 8 (buffer.take FDL_PACKET_SIZE)) := by
        rw [dataRaw?, store?, if_pos]
        rw [hlength, List.length_replicate]
        decide
      have hroom : (splice (List.replicate 300 (0 : UInt8)) 8
          (buffer.take FDL_PACKET_SIZE)).length = 300 := by
        rw [length_splice, List.length_replicate]
        rw [hlength, List.length_replicate]
        decide
      obtain ⟨b₁, hfirst, hsent₁, hbuffer₁, hlink₁⟩ := Boot.send_of_acknowledges (by simp)
        (splice (List.replicate 300 0) 8 (buffer.take FDL_PACKET_SIZE))
        (buffer.take FDL_PACKET_SIZE) (by rw [hlength, hroom]; decide)
        (take_drop_splice (by rw [List.length_replicate]; decide)) (Nat.le_of_eq hlength) hsend
        hlink
      obtain ⟨b', hrest, hsent, hbuffer', hlink'⟩ :=
        @ih fuel (buffer.drop FDL_PACKET_SIZE) b₁ sizes (Nat.lt_of_succ_lt_succ hfuel)
          (by rw [List.length_drop]; omega) hbuffer₁ hlink₁
      refine ⟨b', ?_, ?_, hbuffer', hlink'⟩
      · have hsender : sendDataMessage buffer FDL_PACKET_SIZE .uart =
            uartExchange ackOrZero (uartPacket .midstData (splice (List.replicate 300 0) 8
              (buffer.take FDL_PACKET_SIZE)) (buffer.take FDL_PACKET_SIZE).length) := by
          funext sendBuffer link
          rw [sendDataMessage, hslice, Option.bind_eq_bind, Option.bind_some, hraw,
            Option.bind_some, hlength]
        have hne : ¬ (((count + 1) * FDL_PACKET_SIZE : ℕ) : ℤ) = 0 := by
          rw [Nat.succ_mul]
          omega
        have hleft : (((count + 1) * FDL_PACKET_SIZE : ℕ) : ℤ) - FDL_PACKET_SIZE =
            (count * FDL_PACKET_SIZE : ℕ) := by
          rw [Nat.succ_mul]
          omega
        rw [fdlLoop, if_neg hne, hsender, hfirst, hleft]
        exact hrest
      · rw [hsent, hsent₁, List.append_assoc]
        rfl

theorem fdlLoop_result (fuel : ℕ) :
    ∀ {size : ℤ} {buffer : List UInt8} {b b' : Boot} {ret : Int},
      fdlLoop fuel size buffer b = some (b', ret) → ret = 0 ∨ ret = -1 := by
  induction fuel with
  | zero =>
      intro size buffer b b' ret hrun
      exact absurd hrun.symm (Option.some_ne_none _)
  | succ fuel ih =>
      intro size buffer b b' ret hrun
      rw [fdlLoop] at hrun
      split_ifs at hrun with hzero
      · exact .inl (Prod.mk.inj (Option.some.inj hrun)).2.symm
      · obtain ⟨⟨b₁, ret₁⟩, -, hrun⟩ := Option.bind_eq_some_iff.mp hrun
        simp only at hrun
        split_ifs at hrun with hret
        · exact .inr (Prod.mk.inj (Option.some.inj hrun)).2.symm
        · exact ih hrun

theorem fdlLoop_ne_of_not_dvd (fuel : ℕ) :
    ∀ {size : ℤ} {buffer : List UInt8} {b : Boot}, ¬ (FDL_PACKET_SIZE : ℤ) ∣ size →
      ∀ b', fdlLoop fuel size buffer b ≠ some (b', 0) := by
  induction fuel with
  | zero => exact fun _ _ => Option.some_ne_none _ ∘ Eq.symm
  | succ fuel ih =>
      intro size buffer b hsize b' hrun
      have hne : size ≠ 0 := by
        rintro rfl
        exact hsize (Int.dvd_zero _)
      rw [fdlLoop, if_neg hne] at hrun
      obtain ⟨⟨b₁, ret⟩, -, hrun⟩ := Option.bind_eq_some_iff.mp hrun
      simp only at hrun
      split_ifs at hrun with hret
      · exact absurd (Prod.mk.inj (Option.some.inj hrun)).2 (by decide)
      · refine ih (fun hleft => hsize ?_) b' hrun
        have hadd := Int.dvd_add hleft (Int.dvd_refl _)
        rwa [Int.sub_add_cancel] at hadd

/-! ## The download -/

/-- The image of a file is downloaded: the messages are sent, with as many pieces as the image
takes, and the pieces are the image, with padding at most behind it. -/
def Covers (openFile : List UInt8 → Option (List (List UInt8))) (malloc : Option (ℕ → UInt8))
    (info : ImageInfo) (image : List UInt8) (b : Boot) : Prop :=
  ∃ fuel b', ∃ payloads : List (List UInt8), ∃ n x,
    downloadFdl fuel openFile malloc info b = some (b', 0) ∧
    b'.sent = b.sent ++ fdlFrames info payloads ∧
    payloads.length = (info.imageSize.toNatClampNeg + (FDL_PACKET_SIZE - 1)) / FDL_PACKET_SIZE ∧
    payloads.flatten = image ++ List.replicate n x

section Download

variable {openFile : List UInt8 → Option (List (List UInt8))} {malloc : Option (ℕ → UInt8)}
  {info : ImageInfo} {reads : List (List UInt8)} {b : Boot}

theorem loadFdl2memory_none (fuel : ℕ) : loadFdl2memory fuel openFile none info = some none := by
  unfold loadFdl2memory
  cases info.imagePath.bind openFile <;> rfl

theorem loadFdl2memory_some (hopen : info.imagePath.bind openFile = some reads) (fuel : ℕ)
    (held : ℕ → UInt8) :
    loadFdl2memory fuel openFile (some held) info =
      (loadLoop fuel info.imageSize.toNatClampNeg 0 reads
        ((List.range (info.imageSize.toNatClampNeg + 4)).map held)).map some := by
  unfold loadFdl2memory
  rw [hopen]

theorem exists_of_downloadFdl {fuel : ℕ} {b' : Boot}
    (hopen : info.imagePath.bind openFile = some reads)
    (h : downloadFdl fuel openFile malloc info b = some (b', 0)) :
    ∃ held loaded b₁ b₂, malloc = some held ∧
      loadLoop fuel info.imageSize.toNatClampNeg 0 reads
        ((List.range (info.imageSize.toNatClampNeg + 4)).map held) = some loaded ∧
      fdlLoop fuel info.imageSize.toInt loaded b₁ = some (b₂, 0) := by
  rw [downloadFdl] at h
  cases malloc with
  | none =>
      rw [loadFdl2memory_none] at h
      have hpair : (b, (-1 : Int)) = (b', 0) := Option.some.inj h
      exact absurd (Prod.mk.inj hpair).2 (by decide)
  | some held =>
      refine ⟨held, ?_⟩
      rw [loadFdl2memory_some hopen] at h
      cases hload : loadLoop fuel info.imageSize.toNatClampNeg 0 reads
          ((List.range (info.imageSize.toNatClampNeg + 4)).map held) with
      | none =>
          rw [hload] at h
          exact absurd h.symm (Option.some_ne_none _)
      | some loaded =>
          rw [hload] at h
          simp only [Option.map_some, Option.bind_eq_bind, Option.bind_some] at h
          obtain ⟨⟨b₁, ret₁⟩, -, h⟩ := Option.bind_eq_some_iff.mp h
          simp only at h
          split_ifs at h with hret₁
          · exact absurd (Prod.mk.inj (Option.some.inj h)).2 (by decide)
          obtain ⟨⟨b₂, ret₂⟩, hloop, h⟩ := Option.bind_eq_some_iff.mp h
          simp only at h
          split_ifs at h with hret₂
          · exact absurd (Prod.mk.inj (Option.some.inj h)).2 (by decide)
          refine ⟨loaded, b₁, b₂, rfl, rfl, ?_⟩
          rw [hloop, (fdlLoop_result fuel hloop).resolve_right hret₂]

theorem toInt_eq_toNatClampNeg (hpos : 0 < info.imageSize.toInt) :
    info.imageSize.toInt = info.imageSize.toNatClampNeg := by
  rw [Int32.toNatClampNeg]
  omega

theorem Covers.dvd_and_le {image : List UInt8} (h : Covers openFile malloc info image b)
    (hopen : info.imagePath.bind openFile = some reads) (hpos : 0 < info.imageSize.toInt) :
    malloc.isSome ∧ FDL_PACKET_SIZE ∣ info.imageSize.toNatClampNeg ∧
      info.imageSize.toNatClampNeg ≤ reads.flatten.length := by
  obtain ⟨fuel, b', payloads, n, x, hrun, -⟩ := h
  obtain ⟨held, loaded, b₁, b₂, hmalloc, hload, hloop⟩ := exists_of_downloadFdl hopen hrun
  refine ⟨by rw [hmalloc]; rfl, ?_, ?_⟩
  · by_contra hdvd
    rw [toInt_eq_toNatClampNeg hpos] at hloop
    exact fdlLoop_ne_of_not_dvd fuel (fun h => hdvd (Int.natCast_dvd_natCast.mp h)) b₂ hloop
  · by_contra hshort
    rw [loadLoop_eq_none fuel (Nat.lt_of_not_le hshort)] at hload
    exact absurd hload.symm (Option.some_ne_none loaded)

/-- The image is downloaded just when there is memory for it, its size is a multiple of
`FDL_PACKET_SIZE` and the file is as long. -/
theorem covers_iff (hopen : info.imagePath.bind openFile = some reads)
    (hpos : 0 < info.imageSize.toInt) (hbuffer : b.sendBuffer.length = SEND_BUFFER_SIZE)
    (hlink : Acknowledges .uart
      ((fdlFrames info (pieces
        ((info.imageSize.toNatClampNeg + (FDL_PACKET_SIZE - 1)) / FDL_PACKET_SIZE)
        (reads.flatten.take info.imageSize.toNatClampNeg))).map List.length) b.link) :
    Covers openFile malloc info (reads.flatten.take info.imageSize.toNatClampNeg) b ↔
      malloc.isSome ∧ FDL_PACKET_SIZE ∣ info.imageSize.toNatClampNeg ∧
        info.imageSize.toNatClampNeg ≤ reads.flatten.length := by
  have hsize := toInt_eq_toNatClampNeg hpos
  have hpos' : 0 < info.imageSize.toNatClampNeg := by omega
  constructor
  · intro h
    exact h.dvd_and_le hopen hpos
  · rintro ⟨hmalloc, ⟨count, hcount⟩, hfile⟩
    obtain ⟨held, rfl⟩ := Option.isSome_iff_exists.mp hmalloc
    rw [Nat.mul_comm] at hcount
    have hceil : (info.imageSize.toNatClampNeg + (FDL_PACKET_SIZE - 1)) / FDL_PACKET_SIZE =
        count := by
      have hvalue : FDL_PACKET_SIZE = 256 := rfl
      rw [hcount, hvalue]
      omega
    rw [hceil] at hlink
    obtain ⟨fuel, hreads, hcountFuel⟩ : ∃ fuel, reads.length ≤ fuel ∧ count < fuel :=
      ⟨reads.length + count + 1, by omega, by omega⟩
    have hroom : 0 + info.imageSize.toNatClampNeg ≤
        ((List.range (info.imageSize.toNatClampNeg + 4)).map held).length := by
      rw [List.length_map, List.length_range]
      omega
    obtain ⟨loaded, hload, hlength, htake⟩ := loadLoop_of_le reads hpos' hfile hreads hroom
    rw [Nat.zero_add, List.take_zero, List.nil_append] at htake
    -- the pieces of what has been loaded are those of the image
    have hpieces : pieces count loaded =
        pieces count (reads.flatten.take info.imageSize.toNatClampNeg) := by
      rw [← htake, ← List.take_append_drop info.imageSize.toNatClampNeg loaded,
        pieces_append, List.take_left']
      all_goals rw [List.length_take, hlength]; omega
    rw [← hpieces] at hlink
    rw [fdlFrames, List.map_cons, List.map_append] at hlink
    obtain ⟨b₁, hstart, hsent₁, hbuffer₁, hlink₁⟩ := Boot.send_of_acknowledges (by simp)
      (startRaw info.imageSize info.address)
      (bytes32 (cpu2be32 info.address) ++ bytes32 (cpu2be32Int info.imageSize))
      (show 8 + 10 ≤ 32 by decide) rfl (show 8 ≤ FDL_PACKET_SIZE by decide) hbuffer hlink
    obtain ⟨b₂, hloop, hsent₂, hbuffer₂, hlink₂⟩ := fdlLoop_spec count hcountFuel
      (by rw [hlength, List.length_map, List.length_range]; omega) hbuffer₁ hlink₁
    obtain ⟨b₃, hend, hsent₃, hbuffer₃, hlink₃⟩ := Boot.send_of_acknowledges (by simp)
      endRaw [] (by decide) rfl (by decide) hbuffer₂ hlink₂
    obtain ⟨b₄, hexec, hsent₄, -, -⟩ := Boot.send_of_acknowledges (by simp)
      (execRaw info.address) (bytes32 (cpu2be32 info.address)) (show 4 + 10 ≤ 32 by decide) rfl
      (show 4 ≤ FDL_PACKET_SIZE by decide) hbuffer₃ hlink₃
    refine ⟨fuel, b₄, pieces count loaded, 0, 0, ?_, ?_, ?_, ?_⟩
    · have hstart' : b.send (sendStartMessage info.imageSize info.address .uart) = some (b₁, 0) :=
        hstart
      have hend' : b₂.send (sendEndMessage .uart) = some (b₃, 0) := hend
      have hexec' : b₃.send (sendExecMessage info.address .uart) = some (b₄, 0) := hexec
      rw [← hcount, ← hsize] at hloop
      have hok : ¬ (0 : ℤ) = -1 := by decide
      rw [downloadFdl, loadFdl2memory_some hopen, hload]
      simp only [Option.map_some, Option.bind_eq_bind, Option.bind_some, hstart', hloop, hend',
        hexec', if_neg hok]
    · rw [hsent₄, hsent₃, hsent₂, hsent₁, fdlFrames]
      simp only [List.append_assoc]
      rfl
    · rw [hceil, pieces, List.length_map, List.length_range]
    · rw [hpieces, flatten_pieces, ← hcount, List.take_take, Nat.min_self, List.replicate_zero,
        List.append_nil]

/-- A modem that takes messages of these sizes and acknowledges them. -/
def fdlAcks (sizes : List ℕ) : Link :=
  ⟨sizes.map Int.ofNat, sizes.map fun _ => translatePacket [0, 0x80, 0, 0, 0, 0]⟩

theorem acknowledges_fdlAcks (sizes : List ℕ) : Acknowledges .uart sizes (fdlAcks sizes) := by
  induction sizes with
  | nil => trivial
  | cons size sizes ih =>
      have hack : IsAck .uart (translatePacket [0, 0x80, 0, 0, 0, 0]) :=
        ⟨_, rfl, by decide, by decide, by decide⟩
      exact ⟨Int.le_refl _, _, _, rfl, hack, ih⟩

/-- A boot with a modem that acknowledges the messages for `image`. -/
def fdlBoot (info : ImageInfo) (image : List UInt8) (count : ℕ) : Boot where
  testBuffer := .fill _ 0
  sendBuffer := List.replicate SEND_BUFFER_SIZE 0
  link := fdlAcks ((fdlFrames info (pieces count image)).map List.length)
  sent := []

def packetInfo : ImageInfo := ⟨some [], 256, 0x50000000⟩

theorem covers_iff_packet :
    Covers (fun _ => some [List.replicate 256 1]) (some fun _ => 0) packetInfo
        ([List.replicate 256 1].flatten.take packetInfo.imageSize.toNatClampNeg)
        (fdlBoot packetInfo ([List.replicate 256 1].flatten.take 256) 1) ↔
      (some fun _ => (0 : UInt8) : Option (ℕ → UInt8)).isSome ∧
        FDL_PACKET_SIZE ∣ packetInfo.imageSize.toNatClampNeg ∧
        packetInfo.imageSize.toNatClampNeg ≤ [List.replicate 256 (1 : UInt8)].flatten.length :=
  covers_iff rfl (by decide) (List.length_replicate ..) (acknowledges_fdlAcks _)

theorem not_covers_byte :
    Acknowledges .uart ((fdlFrames byteInfo (pieces 1 [0xAB])).map List.length)
        (fdlBoot byteInfo [0xAB] 1).link ∧
      ¬ Covers (fun _ => some [[0xAB]]) (some fun _ => 0) byteInfo [0xAB]
        (fdlBoot byteInfo [0xAB] 1) := by
  refine ⟨acknowledges_fdlAcks _, fun h => ?_⟩
  obtain ⟨-, hdvd, -⟩ := h.dvd_and_le rfl (by decide)
  exact absurd hdvd (by decide)

end Download

end ModemControl

end Tarako
