import Tarako.Lib.Pieces
import Tarako.ModemControl.Send
import Tarako.ModemControl.SpiPacket

/-!
# Downloading the images of the modem

`download_image` announces an image to the loader of the modem, sends it in packets of
`HS_PACKET_SIZE` bytes and ends it with a message. The packets are laid out in the static
`test_buffer`, behind the eight bytes of their header. Only the last one is filled up with
`0xFF`, and only behind `image_size`: where a file is shorter than that, a packet keeps what
an earlier one has left there.
-/

namespace Tarako

namespace ModemControl

open Splice Words

def HS_PACKET_SIZE : ℕ := 60 * 1024

def TEST_BUFFER_SIZE : ℕ := HS_PACKET_SIZE + 64

structure ImageInfo where
  imagePath : Option (List UInt8)
  imageSize : Int32
  address : UInt32
  deriving DecidableEq

/-- The statics of a boot, the connection to the modem, and the packets that it has taken. -/
structure Boot where
  testBuffer : Buffer UInt8 TEST_BUFFER_SIZE
  sendBuffer : List UInt8
  link : Link
  sent : List (List UInt8)

def Boot.send (b : Boot) (sender : List UInt8 → Link → Option Exchange) : Option (Boot × Int) :=
  (sender b.sendBuffer b.link).map fun ex =>
    ({ b with sendBuffer := ex.sendBuffer, link := ex.link, sent := b.sent ++ [ex.accepted] },
      ex.result)

/-- The loop of `download_image` over the packets. -/
structure Download extends Boot where
  i : ℕ
  imageSize : ℕ
  reads : List (List UInt8)

namespace Download

/-- What the calls of `read` have stored, and the bytes that fill up the last packet. -/
def fill (s : Download) : Option Download := do
  let (bytes, reads) := Pieces.fill HS_PACKET_SIZE HS_PACKET_SIZE s.reads
  let testBuffer ← s.testBuffer.write? 8 bytes
  if s.imageSize < HS_PACKET_SIZE then
    let testBuffer ← testBuffer.write? (s.imageSize + 8)
      (List.replicate (HS_PACKET_SIZE - s.imageSize) 0xFF)
    -- the counter of the packets has been used to count these bytes
    return { s with testBuffer, i := HS_PACKET_SIZE, imageSize := 0, reads }
  else
    return { s with testBuffer, imageSize := s.imageSize - HS_PACKET_SIZE, reads }

def payload (s : Download) : Option (List UInt8) :=
  s.fill.map fun s => (s.testBuffer.bytes.drop 8).take HS_PACKET_SIZE

/-- One turn of the loop: a packet is filled, laid out where it is, and sent. -/
def turn (s : Download) : Option (Download × Int) := do
  let s ← s.fill
  let (laid, _) ← setupPacket .midstData s.testBuffer.bytes 8 HS_PACKET_SIZE .spi
  let (boot, ret) ← s.toBoot.send (sendDataMessage s.testBuffer.bytes HS_PACKET_SIZE .spi)
  return ({ s with toBoot := { boot with testBuffer := s.testBuffer.load laid }, i := s.i + 1 },
    ret)

def start (b : Boot) (imageSize : Int32) (reads : List (List UInt8)) : Download :=
  { b with i := 0, imageSize := imageSize.toNatClampNeg, reads }

/-- The loop; every turn makes `i` greater. -/
def packets (count : ℕ) : ℕ → Download → Option (Download × Int)
  | 0, _ => none
  | fuel + 1, s =>
      if s.i < count then
        s.turn.bind fun r => if r.2 = 0 then packets count fuel r.1 else some (r.1, -1)
      else some (s, 0)

end Download

/-- `count` of `download_image`. -/
def packetCount (imageSize : Int32) : Int32 :=
  (imageSize + Int32.ofNat HS_PACKET_SIZE - 1) / Int32.ofNat HS_PACKET_SIZE

/-- `download_image`; the reads of a file are what `openFile` gives. -/
def downloadImage (openFile : List UInt8 → Option (List (List UInt8))) (info : ImageInfo)
    (b : Boot) : Option (Boot × Int) :=
  match info.imagePath.bind openFile with
  -- a path that is missing or cannot be opened counts as done
  | none => some (b, 0)
  | some reads => do
      let count := packetCount info.imageSize
      let (b, ret) ← b.send
        (sendStartMessage (count * Int32.ofNat HS_PACKET_SIZE) info.address .spi)
      if ret ≠ 0 then return (b, -1)
      let (s, ret) ← Download.packets count.toNatClampNeg (count.toNatClampNeg + 1)
        (.start b info.imageSize reads)
      if ret ≠ 0 then return (s.toBoot, -1)
      s.toBoot.send (sendEndMessage .spi)

/-! ## The messages of a download -/

def spiPacket (msg : CmdType) (data : List UInt8) : List UInt8 :=
  spiLaid msg (UInt16.ofNat data.length) data [] data

/-- What `send_start_message` writes. -/
def startPacket (size : Int32) (addr : UInt32) : List UInt8 :=
  spiPacket .startData (bytes32 (cpu2be32 addr) ++ bytes32 (cpu2be32Int size))

/-- What `send_end_message` writes. -/
def endPacket : List UInt8 := spiLaid .endData 4 [] [0, 0, 0, 0] []

/-- An answer that is taken for success; in UART mode it comes in a frame. -/
def IsAck : PacketFlag → List UInt8 → Prop
  | .uart, raw => ∃ body, raw = translatePacket body ∧ 2 ≤ body.length ∧ 0x7D ∉ body.dropLast ∧
      (headType body).any ackOrZero = true
  | .spi, raw => (headType raw).any ackOrZero = true

def answerSize : PacketFlag → ℕ
  | .uart => 8
  | .spi => 6

/-- The modem takes the next messages, of these sizes, whole and acknowledges each of them. -/
def Acknowledges (flag : PacketFlag) : List ℕ → Link → Prop
  | [], _ => True
  | _ :: _, ⟨[], _⟩ => False
  | size :: sizes, ⟨retval :: writes, reads⟩ =>
      size ≤ retval ∧ ∃ raw rest, readLoop (answerSize flag) reads [] = some (raw, rest) ∧
        IsAck flag raw ∧ Acknowledges flag sizes ⟨writes, rest⟩

theorem spiExchange_of_acknowledges {size : ℕ} {sizes : List ℕ} {link : Link}
    (h : Acknowledges .spi (size :: sizes) link) (hpos : 0 < size)
    {packet : Option (List UInt8 × ℕ)} {laid : List UInt8} (hpacket : packet = some (laid, size))
    (sendBuffer : List UInt8) :
    ∃ link', Acknowledges .spi sizes link' ∧
      spiExchange ackOrZero packet sendBuffer link =
        some ⟨laid.take size, 0, sendBuffer, link'⟩ := by
  obtain ⟨writes, reads⟩ := link
  cases writes with
  | nil => exact h.elim
  | cons retval writes =>
      obtain ⟨hretval, raw, rest, hread, hack, hlink⟩ := h
      have hread' : readLoop 6 reads [] = some (raw, rest) := hread
      obtain ⟨type, htype, hack⟩ := (Option.any_eq_true _ _).mp hack
      refine ⟨⟨writes, rest⟩, hlink, ?_⟩
      have hmin : min retval.toNat size = size := by omega
      have hretval' : ¬ retval ≤ 0 := by omega
      simp [spiExchange, hpacket, hmin, hretval', hread', htype, hack]

theorem sendStartMessage_of_acknowledges {sizes : List ℕ} {link : Link}
    (h : Acknowledges .spi (16 :: sizes) link) (size : Int32) (addr : UInt32)
    (sendBuffer : List UInt8) :
    ∃ link', Acknowledges .spi sizes link' ∧ sendStartMessage size addr .spi sendBuffer link =
      some ⟨startPacket size addr, 0, sendBuffer, link'⟩ := by
  have hlength : (startRaw size addr).length = 32 := rfl
  have hsetup : setupPacket .startData (startRaw size addr) 8 8 .spi = _ :=
    setupSpi_eq .startData 8 [] 16 (hlength ▸ by decide) (hlength ▸ by decide)
  exact spiExchange_of_acknowledges h (by decide) hsetup sendBuffer

theorem sendEndMessage_of_acknowledges {sizes : List ℕ} {link : Link}
    (h : Acknowledges .spi (12 :: sizes) link) (sendBuffer : List UInt8) :
    ∃ link', Acknowledges .spi sizes link' ∧ sendEndMessage .spi sendBuffer link =
      some ⟨endPacket, 0, sendBuffer, link'⟩ := by
  have hlength : endRaw.length = 32 := rfl
  have hsetup : setupPacket .endData endRaw 8 0 .spi = _ :=
    setupSpi_eq .endData 4 [0, 0, 0, 0] 12 (hlength ▸ by decide) (hlength ▸ by decide)
  exact spiExchange_of_acknowledges h (by decide) hsetup sendBuffer

theorem take_spiLaid (msg : CmdType) (lengthField : UInt16) (data behind : List UInt8) (n : ℕ) :
    (spiLaid msg lengthField data [] behind).take (n + 8) =
      spiLaid msg lengthField data [] (behind.take n) := by
  have hlength : (spiHead msg lengthField data ++
      bytes16 (bootChecksum (spiHead msg lengthField data))).length = 8 := rfl
  rw [spiLaid, List.nil_append, Nat.add_comm, ← hlength, List.take_length_add_append]
  rfl

theorem sendDataMessage_of_acknowledges {sizes : List ℕ} {link : Link}
    (h : Acknowledges .spi ((HS_PACKET_SIZE + 8) :: sizes) link)
    (buffer : Buffer UInt8 TEST_BUFFER_SIZE) (sendBuffer : List UInt8) :
    ∃ laid link', Acknowledges .spi sizes link' ∧
      setupPacket .midstData buffer.bytes 8 HS_PACKET_SIZE .spi =
        some (laid, HS_PACKET_SIZE + 8) ∧
      sendDataMessage buffer.bytes HS_PACKET_SIZE .spi sendBuffer link =
        some ⟨spiPacket .midstData ((buffer.bytes.drop 8).take HS_PACKET_SIZE), 0, sendBuffer,
          link'⟩ := by
  have hsize : 8 + HS_PACKET_SIZE ≤ buffer.bytes.length := by
    rw [buffer.size_eq, TEST_BUFFER_SIZE]
    omega
  have hsetup : setupPacket .midstData buffer.bytes 8 HS_PACKET_SIZE .spi = _ :=
    setupSpi_eq .midstData (UInt16.ofNat HS_PACKET_SIZE) [] (HS_PACKET_SIZE + 8) hsize
      (Nat.le_trans (Nat.le_add_right 8 _) hsize)
  obtain ⟨link', hlink, hsend⟩ := spiExchange_of_acknowledges h (by decide) hsetup sendBuffer
  refine ⟨_, link', hlink, hsetup, ?_⟩
  have hdata : ((buffer.bytes.drop 8).take HS_PACKET_SIZE).length = HS_PACKET_SIZE := by
    rw [List.length_take, List.length_drop]
    omega
  rw [sendDataMessage, hsend, spiPacket, hdata, take_spiLaid]
  rfl

/-! ## A packet -/

/-- The data of a packet: what the file has, what has been there behind it, and `0xFF` behind
the `n` bytes that are left of the image. -/
def packetData (n : ℕ) (stale bytes : List UInt8) : List UInt8 :=
  ((bytes ++ stale.drop bytes.length).take (min n HS_PACKET_SIZE)) ++
    List.replicate (HS_PACKET_SIZE - n) 0xFF

/-- What is in `test_buffer` where the data of a packet are put. -/
def Boot.stale (b : Boot) : List UInt8 := (b.testBuffer.bytes.drop 8).take HS_PACKET_SIZE

theorem Boot.length_stale (b : Boot) : b.stale.length = HS_PACKET_SIZE := by
  rw [stale, List.length_take, List.length_drop, b.testBuffer.size_eq, TEST_BUFFER_SIZE]
  omega

theorem exists_write? (b : Buffer UInt8 TEST_BUFFER_SIZE) (off : ℕ) (d : List UInt8)
    (h : off + d.length ≤ HS_PACKET_SIZE) :
    ∃ b', b.write? (off + 8) d = some b' ∧
      (b'.bytes.drop 8).take HS_PACKET_SIZE =
        splice ((b.bytes.drop 8).take HS_PACKET_SIZE) off d := by
  have hfits : off + 8 + d.length ≤ TEST_BUFFER_SIZE := by
    rw [TEST_BUFFER_SIZE]
    omega
  refine ⟨b.write (off + 8) d hfits, dif_pos hfits, take_drop_splice_add h ?_⟩
  rw [b.size_eq, TEST_BUFFER_SIZE]
  omega

namespace Download

theorem fill_spec (s : Download) :
    ∃ s', s.fill = some s' ∧ s'.stale =
        packetData s.imageSize s.stale ((Pieces.readable s.reads).take HS_PACKET_SIZE) ∧
      s'.i = (if s.imageSize < HS_PACKET_SIZE then HS_PACKET_SIZE else s.i) ∧
      s'.imageSize = s.imageSize - HS_PACKET_SIZE ∧
      s'.reads = (Pieces.fill HS_PACKET_SIZE HS_PACKET_SIZE s.reads).2 ∧
      s'.sendBuffer = s.sendBuffer ∧ s'.link = s.link ∧ s'.sent = s.sent := by
  obtain ⟨hbytes, -⟩ := Pieces.fill_spec (show 0 < HS_PACKET_SIZE by decide) (Nat.le_refl _)
    s.reads
  obtain ⟨bytes, hfill⟩ : ∃ l, (Pieces.readable s.reads).take HS_PACKET_SIZE = l := ⟨_, rfl⟩
  rw [hfill] at hbytes ⊢
  have hlength : bytes.length ≤ HS_PACKET_SIZE := by
    rw [← hfill]
    exact List.length_take_le _ _
  obtain ⟨filled, hwrite, hdata⟩ := exists_write? s.testBuffer 0 bytes (by omega)
  rw [Nat.zero_add] at hwrite
  have hsplice : splice s.stale 0 bytes = bytes ++ s.stale.drop bytes.length := by
    rw [splice, List.take_zero, List.nil_append, Nat.zero_add]
  have hstale : (bytes ++ s.stale.drop bytes.length).length = HS_PACKET_SIZE := by
    rw [List.length_append, List.length_drop, s.length_stale]
    omega
  change _ = splice s.stale 0 bytes at hdata
  rw [hsplice] at hdata
  obtain ⟨⟨got, reads⟩, hread⟩ : ∃ r, Pieces.fill HS_PACKET_SIZE HS_PACKET_SIZE s.reads = r :=
    ⟨_, rfl⟩
  rw [hread] at hbytes
  obtain rfl : got = bytes := hbytes
  rw [fill, hread]
  simp only [hwrite, Option.bind_eq_bind, Option.bind_some, Option.pure_def]
  by_cases hlast : s.imageSize < HS_PACKET_SIZE
  · obtain ⟨padded, hpad, hdata'⟩ := exists_write? filled s.imageSize
      (List.replicate (HS_PACKET_SIZE - s.imageSize) 0xFF) (by
        rw [List.length_replicate]
        omega)
    rw [if_pos hlast, if_pos hlast, hpad]
    refine ⟨_, rfl, ?_, rfl, ?_, rfl, rfl, rfl, rfl⟩
    · change (padded.bytes.drop 8).take HS_PACKET_SIZE = _
      have hbehind : (got ++ s.stale.drop got.length).drop
          (s.imageSize + (HS_PACKET_SIZE - s.imageSize)) = [] := by
        apply List.drop_of_length_le
        rw [hstale]
        omega
      rw [hdata', hdata, packetData, splice, Nat.min_eq_left (Nat.le_of_lt hlast),
        List.length_replicate, hbehind, List.append_nil]
    · exact (Nat.sub_eq_zero_of_le (Nat.le_of_lt hlast)).symm
  · rw [if_neg hlast, if_neg hlast]
    refine ⟨_, rfl, ?_, rfl, rfl, rfl, rfl, rfl, rfl⟩
    change (filled.bytes.drop 8).take HS_PACKET_SIZE = _
    have hzero : HS_PACKET_SIZE - s.imageSize = 0 := by omega
    rw [hdata, packetData, Nat.min_eq_right (by omega), List.take_of_length_le (by omega), hzero,
      List.replicate_zero, List.append_nil]

theorem turn_of_acknowledges {sizes : List ℕ} {s : Download}
    (h : Acknowledges .spi ((HS_PACKET_SIZE + 8) :: sizes) s.link) :
    ∃ s' data, s.turn = some (s', 0) ∧ s.payload = some data ∧
      data = packetData s.imageSize s.stale ((Pieces.readable s.reads).take HS_PACKET_SIZE) ∧
      s'.sent = s.sent ++ [spiPacket .midstData data] ∧
      s'.i = (if s.imageSize < HS_PACKET_SIZE then HS_PACKET_SIZE else s.i) + 1 ∧
      s'.imageSize = s.imageSize - HS_PACKET_SIZE ∧
      s'.reads = (Pieces.fill HS_PACKET_SIZE HS_PACKET_SIZE s.reads).2 ∧
      Acknowledges .spi sizes s'.link := by
  obtain ⟨t, hfill, hdata, hi, hsize, hreads, hbuffer, hlink, hsent⟩ := s.fill_spec
  rw [← hlink] at h
  obtain ⟨laid, link', hlink', hsetup, hsend⟩ :=
    sendDataMessage_of_acknowledges h t.testBuffer t.sendBuffer
  have hturn : s.turn = some ({ t with
      testBuffer := t.testBuffer.load laid
      link := link'
      sent := t.sent ++ [spiPacket .midstData t.stale]
      i := t.i + 1 }, 0) := by
    rw [turn, hfill]
    simp only [Option.bind_eq_bind, Option.bind_some, hsetup, Boot.send, hsend, Option.map_some,
      Option.pure_def]
    rfl
  have hpayload : s.payload = some t.stale := by
    rw [payload, hfill]
    rfl
  exact ⟨_, _, hturn, hpayload, hdata, congrArg (· ++ _) hsent, congrArg (· + 1) hi, hsize,
    hreads, hlink'⟩

end Download

/-! ## The packets of an image -/

theorem packetData_of_le {n : ℕ} {file : List UInt8} (h : min n HS_PACKET_SIZE ≤ file.length)
    (stale : List UInt8) :
    packetData n stale (file.take HS_PACKET_SIZE) =
      file.take (min n HS_PACKET_SIZE) ++ List.replicate (HS_PACKET_SIZE - n) 0xFF := by
  have hle : min n HS_PACKET_SIZE ≤ (file.take HS_PACKET_SIZE).length := by
    rw [List.length_take]
    omega
  rw [packetData, List.take_append_of_le_length hle, List.take_take,
    Nat.min_eq_left (Nat.min_le_right _ _)]

/-- A packet of an image of `n` bytes and those behind it are the image up to its end, filled up
to `m + 1` packets. -/
theorem packet_append_rest {n m : ℕ} {file rest : List UInt8}
    (hm : (n + (HS_PACKET_SIZE - 1)) / HS_PACKET_SIZE = m + 1)
    (hrest : HS_PACKET_SIZE ≤ n → rest = file.drop HS_PACKET_SIZE) :
    (file.take (min n HS_PACKET_SIZE) ++ List.replicate (HS_PACKET_SIZE - n) 0xFF) ++
        (rest.take (n - HS_PACKET_SIZE) ++
          List.replicate (m * HS_PACKET_SIZE - (n - HS_PACKET_SIZE)) 0xFF) =
      file.take n ++ List.replicate ((m + 1) * HS_PACKET_SIZE - n) 0xFF := by
  have hvalue : HS_PACKET_SIZE = 61440 := rfl
  by_cases hlast : n < HS_PACKET_SIZE
  · have hone : m = 0 := by
      rw [hvalue] at hm hlast
      omega
    rw [hone, Nat.min_eq_left (Nat.le_of_lt hlast), Nat.sub_eq_zero_of_le (Nat.le_of_lt hlast),
      List.take_zero, Nat.zero_mul, Nat.zero_add, Nat.one_mul, Nat.zero_sub,
      List.replicate_zero, List.append_nil, List.append_nil]
  · have hle := Nat.le_of_not_lt hlast
    have htake : file.take n = file.take HS_PACKET_SIZE ++
        (file.drop HS_PACKET_SIZE).take (n - HS_PACKET_SIZE) := by
      rw [← List.take_add, Nat.add_sub_cancel' hle]
    have hpad : m * HS_PACKET_SIZE - (n - HS_PACKET_SIZE) = (m + 1) * HS_PACKET_SIZE - n := by
      rw [Nat.succ_mul]
      omega
    rw [hrest hle, htake, hpad, Nat.min_eq_right hle, Nat.sub_eq_zero_of_le hle,
      List.replicate_zero, List.append_nil, List.append_assoc]

namespace Download

/-- The loop sends the `m` packets that are left, when the file goes on far enough. -/
theorem packets_spec {count : ℕ} {sizes : List ℕ} (hcount : count ≤ HS_PACKET_SIZE) (m : ℕ) :
    ∀ fuel s, m < fuel → (s.i + m = count ∨ m = 0 ∧ count ≤ s.i) →
      (s.imageSize + (HS_PACKET_SIZE - 1)) / HS_PACKET_SIZE = m →
      s.imageSize ≤ (Pieces.readable s.reads).length →
      Acknowledges .spi (List.replicate m (HS_PACKET_SIZE + 8) ++ sizes) s.link →
      ∃ s', ∃ payloads : List (List UInt8), packets count fuel s = some (s', 0) ∧
        s'.sent = s.sent ++ payloads.map (spiPacket .midstData) ∧ payloads.length = m ∧
        payloads.flatten = (Pieces.readable s.reads).take s.imageSize ++
          List.replicate (m * HS_PACKET_SIZE - s.imageSize) 0xFF ∧
        Acknowledges .spi sizes s'.link := by
  have hpos : 0 < HS_PACKET_SIZE := by decide
  induction m with
  | zero =>
      intro fuel s hfuel hi hm hfile hlink
      obtain ⟨fuel, rfl⟩ := Nat.exists_eq_add_one_of_ne_zero (Nat.ne_of_gt hfuel)
      have hzero : s.imageSize = 0 := by
        rw [Nat.div_eq_zero_iff] at hm
        omega
      refine ⟨s, [], ?_, (List.append_nil _).symm, rfl, ?_, hlink⟩
      · rw [packets, if_neg (by omega)]
      · rw [hzero, List.take_zero, Nat.zero_mul]
        rfl
  | succ m ih =>
      intro fuel s hfuel hi hm hfile hlink
      obtain ⟨fuel, rfl⟩ := Nat.exists_eq_add_one_of_ne_zero (Nat.ne_zero_of_lt hfuel)
      obtain ⟨s₁, data, hturn, -, hdata, hsent, hi₁, hsize₁, hreads₁, hlink₁⟩ :=
        turn_of_acknowledges hlink
      rw [packetData_of_le (Nat.le_trans (Nat.min_le_left _ _) hfile)] at hdata
      have hloop : packets count (fuel + 1) s = packets count fuel s₁ := by
        rw [packets, if_pos (by omega), hturn]
        rfl
      have hvalue : HS_PACKET_SIZE = 61440 := rfl
      have hrest : HS_PACKET_SIZE ≤ s.imageSize →
          Pieces.readable s₁.reads = (Pieces.readable s.reads).drop HS_PACKET_SIZE := by
        intro hle
        rw [hreads₁]
        exact (Pieces.fill_spec hpos (Nat.le_refl _) s.reads).2 (Nat.le_trans hle hfile)
      have hm₁ : (s₁.imageSize + (HS_PACKET_SIZE - 1)) / HS_PACKET_SIZE = m := by
        rw [hvalue] at hm hsize₁ ⊢
        omega
      have hfile₁ : s₁.imageSize ≤ (Pieces.readable s₁.reads).length := by
        by_cases hlast : s.imageSize < HS_PACKET_SIZE
        · omega
        · rw [hrest (Nat.le_of_not_lt hlast), List.length_drop, hsize₁]
          omega
      have hi' : s₁.i + m = count ∨ m = 0 ∧ count ≤ s₁.i := by
        split_ifs at hi₁ with hlast
        · rw [hvalue] at hm hlast
          omega
        · omega
      obtain ⟨s', payloads, hrun, hsent', hlength, hflatten, hlink'⟩ :=
        ih fuel s₁ (Nat.lt_of_succ_lt_succ hfuel) hi' hm₁ hfile₁ hlink₁
      refine ⟨s', data :: payloads, hloop.trans hrun, ?_, congrArg (· + 1) hlength, ?_, hlink'⟩
      · rw [hsent', hsent, List.append_assoc]
        rfl
      · rw [List.flatten_cons, hflatten, hdata, hsize₁]
        exact packet_append_rest hm hrest

end Download

/-! ## The transfer of an image -/

theorem toInt_packetCount (imageSize : Int32) :
    (packetCount imageSize).toInt = ((imageSize.toInt + 61439).bmod (2 ^ 32)).tdiv 61440 := by
  have hsize : (Int32.ofNat HS_PACKET_SIZE).toInt = 61440 := rfl
  have hone : (1 : Int32).toInt = 1 := rfl
  have hne : Int32.ofNat HS_PACKET_SIZE ≠ -1 := by decide
  rw [packetCount, Int32.toInt_div_of_ne_right _ _ hne, Int32.toInt_sub, Int32.toInt_add, hsize,
    hone]
  simp only [Int.bmod]
  congr 1
  omega

/-- There are packets just when the size is positive and its rounding up does not overflow. -/
theorem toNatClampNeg_packetCount (imageSize : Int32) :
    (packetCount imageSize).toNatClampNeg =
      if 0 < imageSize.toInt ∧ imageSize.toInt + (HS_PACKET_SIZE - 1 : ℕ) < 2 ^ 31 then
        (imageSize.toNatClampNeg + (HS_PACKET_SIZE - 1)) / HS_PACKET_SIZE
      else 0 := by
  have hvalue : HS_PACKET_SIZE = 61440 := rfl
  have hlt := imageSize.toInt_lt
  have hle := imageSize.le_toInt
  rw [Int32.toNatClampNeg, Int32.toNatClampNeg, toInt_packetCount, hvalue]
  split_ifs with h
  · have hself : (imageSize.toInt + 61439).bmod (2 ^ 32) = imageSize.toInt + 61439 := by
      simp only [Int.bmod]
      omega
    rw [hself, Int.tdiv_eq_ediv_of_nonneg (by omega)]
    omega
  · by_cases hneg : (imageSize.toInt + 61439).bmod (2 ^ 32) < 0
    · have hsign : Int.sign 61440 = 1 := rfl
      rw [Int.tdiv_eq_ediv, hsign]
      split_ifs <;> omega
    · rw [Int.tdiv_eq_ediv_of_nonneg (by omega)]
      simp only [Int.bmod] at hneg ⊢
      omega

theorem toInt_announced {imageSize : Int32} {count : ℕ} (hpos : 0 < count)
    (hcount : (packetCount imageSize).toNatClampNeg = count)
    (hsmall : count * HS_PACKET_SIZE < 2 ^ 31) :
    (packetCount imageSize * Int32.ofNat HS_PACKET_SIZE).toInt = (count * HS_PACKET_SIZE : ℕ) := by
  have hpacket : (Int32.ofNat HS_PACKET_SIZE).toInt = (HS_PACKET_SIZE : ℕ) := rfl
  have htoInt : (packetCount imageSize).toInt = count := by
    rw [Int32.toNatClampNeg] at hcount
    omega
  obtain ⟨n, hn⟩ : ∃ n, count * HS_PACKET_SIZE = n := ⟨_, rfl⟩
  rw [hn] at hsmall
  rw [Int32.toInt_mul, htoInt, hpacket, ← Int.natCast_mul, hn]
  exact Int.bmod_eq_of_le (by omega) (by omega)

/-- An image is announced, sent and ended: its first `image_size` bytes and `0xFF` behind
them, in as many packets as it takes. -/
theorem downloadImage_transfers {openFile : List UInt8 → Option (List (List UInt8))}
    {info : ImageInfo} {reads : List (List UInt8)} {b : Boot}
    (hopen : info.imagePath.bind openFile = some reads) (hpos : 0 < info.imageSize.toInt)
    (hbound : info.imageSize.toInt + (HS_PACKET_SIZE - 1 : ℕ) < 2 ^ 31)
    (hreads : ∀ piece ∈ reads, piece ≠ [])
    (hfile : info.imageSize.toNatClampNeg ≤ reads.flatten.length) {count : ℕ}
    (hcount : (info.imageSize.toNatClampNeg + (HS_PACKET_SIZE - 1)) / HS_PACKET_SIZE = count)
    (hlink : Acknowledges .spi (16 :: (List.replicate count (HS_PACKET_SIZE + 8) ++ [12])) b.link) :
    ∃ b' announced, ∃ payloads : List (List UInt8),
      downloadImage openFile info b = some (b', 0) ∧
      b'.sent = b.sent ++ (startPacket announced info.address ::
        payloads.map (spiPacket .midstData) ++ [endPacket]) ∧
      announced.toInt = (count * HS_PACKET_SIZE : ℕ) ∧ payloads.length = count ∧
      payloads.flatten = reads.flatten.take info.imageSize.toNatClampNeg ++
        List.replicate (count * HS_PACKET_SIZE - info.imageSize.toNatClampNeg) 0xFF := by
  have hvalue : HS_PACKET_SIZE = 61440 := rfl
  have hpackets := toNatClampNeg_packetCount info.imageSize
  rw [if_pos ⟨hpos, hbound⟩, hcount] at hpackets
  have hlt := info.imageSize.toNatClampNeg_lt
  have hsmall : count ≤ HS_PACKET_SIZE := by
    rw [← hcount, hvalue]
    omega
  obtain ⟨announced, hannounced⟩ :
      ∃ n, packetCount info.imageSize * Int32.ofNat HS_PACKET_SIZE = n := ⟨_, rfl⟩
  have hsize : announced.toInt = (count * HS_PACKET_SIZE : ℕ) := by
    rw [← hannounced]
    have hround : info.imageSize.toNatClampNeg + (HS_PACKET_SIZE - 1) < 2 ^ 31 := by
      rw [Int32.toNatClampNeg]
      omega
    have hsome : 0 < info.imageSize.toNatClampNeg := Int.lt_toNat.mpr hpos
    refine toInt_announced ?_ hpackets (Nat.lt_of_le_of_lt ?_ hround)
    · rw [← hcount]
      exact Nat.div_pos (by omega) (by omega)
    · rw [← hcount]
      exact Nat.div_mul_le_self _ _
  rw [← Pieces.readable_of_forall_ne_nil hreads] at hfile ⊢
  obtain ⟨link₁, hlink₁, hstart⟩ :=
    sendStartMessage_of_acknowledges hlink announced info.address b.sendBuffer
  obtain ⟨s, payloads, hrun, hsent, hlength, hflatten, hlink₂⟩ :=
    Download.packets_spec hsmall count (count + 1)
      (.start { b with link := link₁, sent := b.sent ++ [startPacket announced info.address] }
        info.imageSize reads)
      (Nat.lt_succ_self _) (.inl (Nat.zero_add _)) hcount hfile hlink₁
  obtain ⟨link₃, -, hend⟩ := sendEndMessage_of_acknowledges hlink₂ s.sendBuffer
  refine ⟨{ s.toBoot with link := link₃, sent := s.sent ++ [endPacket] }, announced, payloads, ?_,
    ?_, hsize, hlength, hflatten⟩
  · rw [downloadImage, hopen]
    simp only [Boot.send, hannounced, hstart, Option.map_some, Option.bind_eq_bind,
      Option.bind_some, hpackets, hrun, hend, ne_eq, not_true_eq_false, if_false]
  · change s.sent ++ [endPacket] = _
    rw [hsent, Download.start, List.append_assoc, List.append_assoc]
    rfl

def byteInfo : ImageInfo := ⟨some [], 1, 0x400⟩

def threeAcks : Boot where
  testBuffer := .fill _ 0
  sendBuffer := []
  link := ⟨[16, 61448, 12], List.replicate 3 [0, 0x80, 0, 0, 0, 0]⟩
  sent := []

theorem acknowledges_threeAcks :
    Acknowledges .spi (16 :: (List.replicate 1 (HS_PACKET_SIZE + 8) ++ [12])) threeAcks.link :=
  ⟨by decide, _, _, rfl, rfl, by decide, _, _, rfl, rfl, by decide, _, _, rfl, rfl, trivial⟩

theorem downloadImage_transfers_byte : ∃ b' announced, ∃ payloads : List (List UInt8),
    downloadImage (fun _ => some [[0xAB, 0xCD]]) byteInfo threeAcks = some (b', 0) ∧
    b'.sent = threeAcks.sent ++ (startPacket announced byteInfo.address ::
      payloads.map (spiPacket .midstData) ++ [endPacket]) ∧
    announced.toInt = (1 * HS_PACKET_SIZE : ℕ) ∧ payloads.length = 1 ∧
    payloads.flatten = [[0xAB, 0xCD]].flatten.take byteInfo.imageSize.toNatClampNeg ++
      List.replicate (1 * HS_PACKET_SIZE - byteInfo.imageSize.toNatClampNeg) 0xFF :=
  downloadImage_transfers rfl (by decide) (by decide) (by decide) (by decide) rfl
    acknowledges_threeAcks

/-! ## What is left in `test_buffer` -/

namespace Download

/-- The states in which the loop begins a turn or ends. -/
inductive Reaches (count : ℕ) (s : Download) : Download → Prop
  | refl : Reaches count s s
  | turn {t u : Download} (h : Reaches count s t) (hi : t.i < count)
      (hturn : t.turn = some (u, 0)) : Reaches count s u

theorem payload_eq (s : Download) :
    s.payload =
      some (packetData s.imageSize s.stale ((Pieces.readable s.reads).take HS_PACKET_SIZE)) := by
  obtain ⟨t, hfill, hdata, -⟩ := s.fill_spec
  rw [payload, hfill, ← hdata]
  rfl

theorem of_turn {s u : Download} {ret : Int} (h : s.turn = some (u, ret)) :
    u.i = (if s.imageSize < HS_PACKET_SIZE then HS_PACKET_SIZE else s.i) + 1 ∧
      u.imageSize = s.imageSize - HS_PACKET_SIZE ∧
      u.reads = (Pieces.fill HS_PACKET_SIZE HS_PACKET_SIZE s.reads).2 := by
  obtain ⟨t, hfill, -, hi, hsize, hreads, -⟩ := s.fill_spec
  rw [turn, hfill] at h
  simp only [Option.bind_eq_bind, Option.bind_some, Option.bind_eq_some_iff, Option.pure_def,
    Option.some.injEq, Prod.mk.injEq] at h
  obtain ⟨_, _, _, _, rfl, -⟩ := h
  exact ⟨congrArg (· + 1) hi, hsize, hreads⟩

end Download

/-- Nothing that is sent of an image comes from what has been in `test_buffer` before, and
behind the end of the file there is `0xFF`. -/
structure NoStale (imageSize : Int32) (reads : List (List UInt8)) : Prop where
  independent : ∀ b s testBuffer,
    Download.Reaches (packetCount imageSize).toNatClampNeg (.start b imageSize reads) s →
    s.i < (packetCount imageSize).toNatClampNeg →
      Download.payload { s with testBuffer } = s.payload
  padded : ∀ b s data,
    Download.Reaches (packetCount imageSize).toNatClampNeg (.start b imageSize reads) s →
    s.i < (packetCount imageSize).toNatClampNeg → s.payload = some data →
      ∀ j x, reads.flatten.length ≤ s.i * HS_PACKET_SIZE + j → data[j]? = some x → x = 0xFF

section Stale

variable {imageSize : Int32} {reads : List (List UInt8)}

/-- How far a state of the loop is: the file goes on as far as the image does, and the packets
so far and what is left make up the image. -/
structure Download.OnTheWay (imageSize : Int32) (s : Download) : Prop where
  file : s.imageSize ≤ (Pieces.readable s.reads).length
  left : s.i < (packetCount imageSize).toNatClampNeg →
    s.i * HS_PACKET_SIZE + s.imageSize = imageSize.toNatClampNeg

theorem packetCount_le (imageSize : Int32) :
    (packetCount imageSize).toNatClampNeg ≤ HS_PACKET_SIZE := by
  have hvalue : HS_PACKET_SIZE = 61440 := rfl
  have hlt := imageSize.toNatClampNeg_lt
  rw [toNatClampNeg_packetCount]
  split_ifs
  · rw [hvalue]
    omega
  · exact Nat.zero_le _

theorem Download.Reaches.onTheWay {b : Boot} {s : Download}
    (h : Reaches (packetCount imageSize).toNatClampNeg (.start b imageSize reads) s)
    (hfile : imageSize.toNatClampNeg ≤ (Pieces.readable reads).length) :
    s.OnTheWay imageSize := by
  induction h with
  | refl => exact ⟨hfile, fun _ => by rw [start, Nat.zero_mul, Nat.zero_add]⟩
  | @turn t u ht hi hturn ih =>
      obtain ⟨hi', hsize, hreads⟩ := of_turn hturn
      have hleft := ih.left hi
      have hfile := ih.file
      have hcount := packetCount_le imageSize
      by_cases hlast : t.imageSize < HS_PACKET_SIZE
      · rw [if_pos hlast] at hi'
        exact ⟨by omega, fun hu => by omega⟩
      · have hle := Nat.le_of_not_lt hlast
        have hrest := (Pieces.fill_spec (by decide) (Nat.le_refl _) t.reads).2
          (Nat.le_trans hle hfile)
        rw [if_neg hlast] at hi'
        constructor
        · rw [hreads, hrest, List.length_drop]
          omega
        · intro _
          rw [hi', Nat.succ_mul]
          omega

theorem noStale_of_readable (hfile : imageSize.toNatClampNeg ≤ (Pieces.readable reads).length) :
    NoStale imageSize reads where
  independent b s testBuffer h hi := by
    have hway := (h.onTheWay hfile).file
    have hmin : min s.imageSize HS_PACKET_SIZE ≤ (Pieces.readable s.reads).length :=
      Nat.le_trans (Nat.min_le_left _ _) hway
    rw [Download.payload_eq, Download.payload_eq, packetData_of_le hmin, packetData_of_le hmin]
  padded b s data h hi hdata j x hj hx := by
    have hway := h.onTheWay hfile
    have hleft := hway.left hi
    have hflatten := (Pieces.readable_prefix_flatten reads).length_le
    rw [Download.payload_eq,
      packetData_of_le (Nat.le_trans (Nat.min_le_left _ _) hway.file)] at hdata
    rw [← Option.some.inj hdata, List.getElem?_append_right] at hx
    · exact List.eq_of_mem_replicate (List.mem_of_getElem? hx)
    · rw [List.length_take]
      omega

/-- A modem that acknowledges `n` packets. -/
def ackLink (n : ℕ) : Link :=
  ⟨List.replicate n (HS_PACKET_SIZE + 8 : ℕ), List.replicate n [0, 0x80, 0, 0, 0, 0]⟩

theorem acknowledges_ackLink (n : ℕ) :
    Acknowledges .spi (List.replicate n (HS_PACKET_SIZE + 8)) (ackLink n) := by
  induction n with
  | zero => trivial
  | succ n ih => exact ⟨Int.le_refl _, _, _, rfl, rfl, ih⟩

theorem exists_reaches {b : Boot} {n : ℕ}
    (hlink : Acknowledges .spi (List.replicate n (HS_PACKET_SIZE + 8)) b.link)
    (hshort : (Pieces.readable reads).length < imageSize.toNatClampNeg)
    (hcount : imageSize.toNatClampNeg ≤
      (packetCount imageSize).toNatClampNeg * HS_PACKET_SIZE) (k : ℕ)
    (hk : k * HS_PACKET_SIZE ≤ (Pieces.readable reads).length) (hn : k ≤ n) :
    ∃ s, Download.Reaches (packetCount imageSize).toNatClampNeg (.start b imageSize reads) s ∧
      s.i = k ∧ s.imageSize = imageSize.toNatClampNeg - k * HS_PACKET_SIZE ∧
      Pieces.readable s.reads = (Pieces.readable reads).drop (k * HS_PACKET_SIZE) ∧
      Acknowledges .spi (List.replicate (n - k) (HS_PACKET_SIZE + 8)) s.link := by
  induction k with
  | zero =>
      refine ⟨_, .refl, rfl, ?_, ?_, hlink⟩
      · rw [Nat.zero_mul, Nat.sub_zero, Download.start]
      · rw [Nat.zero_mul, List.drop_zero, Download.start]
  | succ k ih =>
      rw [Nat.succ_mul] at hk
      obtain ⟨s, hreaches, hi, hsize, hreads, hack⟩ := ih (by omega) (by omega)
      have hleft : n - k = n - (k + 1) + 1 := by omega
      rw [hleft, List.replicate_succ] at hack
      obtain ⟨u, data, hturn, -, -, -, hi', hsize', hreads', hack'⟩ :=
        Download.turn_of_acknowledges hack
      have hlast : ¬ s.imageSize < HS_PACKET_SIZE := by omega
      have hlt : k < (packetCount imageSize).toNatClampNeg :=
        Nat.lt_of_mul_lt_mul_right (a := HS_PACKET_SIZE) (by omega)
      have hrest := (Pieces.fill_spec (by decide) (Nat.le_refl HS_PACKET_SIZE) s.reads).2 (by
        rw [hreads, List.length_drop]
        omega)
      rw [if_neg hlast, hi] at hi'
      refine ⟨u, hreaches.turn (hi ▸ hlt) hturn, hi', ?_, ?_, hack'⟩
      · rw [hsize', hsize, Nat.succ_mul]
        omega
      · rw [hreads', hrest, hreads, List.drop_drop, Nat.succ_mul]

theorem getElem?_packetData {n : ℕ} {stale bytes : List UInt8} (hn : bytes.length < n)
    (hlt : bytes.length < HS_PACKET_SIZE) (hstale : bytes.length < stale.length) :
    (packetData n stale bytes)[bytes.length]? = stale[bytes.length]? := by
  have htake : bytes.length < ((bytes ++ stale.drop bytes.length).take
      (min n HS_PACKET_SIZE)).length := by
    rw [List.length_take, List.length_append, List.length_drop]
    omega
  rw [packetData, List.getElem?_append_left htake, List.getElem?_take_of_lt (by omega),
    List.getElem?_append_right (Nat.le_refl _), Nat.sub_self, List.getElem?_drop, Nat.add_zero]

/-- A file that cannot be read so far leaves a packet with what has been there. -/
theorem not_noStale_of_short
    (hcount : imageSize.toNatClampNeg ≤
      (packetCount imageSize).toNatClampNeg * HS_PACKET_SIZE)
    (hshort : (Pieces.readable reads).length < imageSize.toNatClampNeg) :
    ¬ NoStale imageSize reads := by
  intro h
  have hpos : 0 < HS_PACKET_SIZE := by decide
  obtain ⟨k, hk⟩ : ∃ k, (Pieces.readable reads).length / HS_PACKET_SIZE = k := ⟨_, rfl⟩
  have hdiv := Nat.div_add_mod (Pieces.readable reads).length HS_PACKET_SIZE
  have hmod := Nat.mod_lt (Pieces.readable reads).length hpos
  rw [hk, Nat.mul_comm] at hdiv
  have hwhole : k * HS_PACKET_SIZE ≤ (Pieces.readable reads).length := by omega
  obtain ⟨s, hreaches, hi, hsize, hreads, -⟩ := exists_reaches
    (b := ⟨.fill _ 0, [], ackLink k, []⟩) (acknowledges_ackLink k) hshort hcount k hwhole
    (Nat.le_refl k)
  have hlt : s.i < (packetCount imageSize).toNatClampNeg := by
    rw [hi]
    exact Nat.lt_of_mul_lt_mul_right
      (Nat.lt_of_lt_of_le (Nat.lt_of_le_of_lt hwhole hshort) hcount)
  obtain ⟨bytes, hbytes⟩ : ∃ l, (Pieces.readable s.reads).take HS_PACKET_SIZE = l := ⟨_, rfl⟩
  have hlength : bytes.length = (Pieces.readable reads).length - k * HS_PACKET_SIZE := by
    rw [← hbytes, List.length_take, hreads, List.length_drop]
    exact Nat.min_eq_right (Nat.sub_le_iff_le_add.mpr (by omega))
  have hdata : ∀ x : UInt8, ∃ data, s.payload = some data ∧ data[bytes.length]? = some x := by
    intro x
    have hindependent := h.independent _ s (.fill _ x) hreaches hlt
    rw [Download.payload_eq, hbytes] at hindependent
    refine ⟨_, hindependent.symm, ?_⟩
    have hstale : Boot.stale { s.toBoot with testBuffer := .fill _ x } =
        List.replicate HS_PACKET_SIZE x := by
      rw [Boot.stale, Buffer.fill, List.drop_replicate, List.take_replicate]
      rfl
    have hn : bytes.length < s.imageSize := by omega
    rw [getElem?_packetData hn (by omega) (by rw [Boot.length_stale]; omega), hstale,
      List.getElem?_replicate, if_pos (by omega)]
  obtain ⟨data, hpayload, hzero⟩ := hdata 0
  obtain ⟨data', hpayload', hone⟩ := hdata 1
  rw [hpayload, Option.some.injEq] at hpayload'
  rw [hpayload', hone] at hzero
  exact absurd hzero (by decide)

/-- Nothing stale is sent just when the file can be read as far as the image goes, or when the
number of packets overflows and there is none. -/
theorem noStale_iff (imageSize : Int32) (reads : List (List UInt8)) :
    NoStale imageSize reads ↔
      imageSize.toNatClampNeg ≤ (Pieces.readable reads).length ∨
        2 ^ 31 ≤ imageSize.toInt + (HS_PACKET_SIZE - 1 : ℕ) := by
  by_cases hfile : imageSize.toNatClampNeg ≤ (Pieces.readable reads).length
  · exact iff_of_true (noStale_of_readable hfile) (.inl hfile)
  · have hcount := toNatClampNeg_packetCount imageSize
    by_cases hbound : 2 ^ 31 ≤ imageSize.toInt + (HS_PACKET_SIZE - 1 : ℕ)
    · rw [if_neg (by omega)] at hcount
      refine iff_of_true ⟨fun b s testBuffer h hi => ?_, fun b s data h hi => ?_⟩ (.inr hbound)
      · exact absurd hi (by omega)
      · exact absurd hi (by omega)
    · have hvalue : HS_PACKET_SIZE = 61440 := rfl
      have hpos : 0 < imageSize.toInt := by
        rw [Int32.toNatClampNeg] at hfile
        omega
      rw [if_pos ⟨hpos, by omega⟩] at hcount
      refine iff_of_false (not_noStale_of_short ?_ (by omega)) (by omega)
      rw [hcount, hvalue]
      omega

theorem not_noStale_byte : ¬ NoStale 2 [[0xAB]] :=
  not_noStale_of_short (by decide) (by decide)

end Stale

end ModemControl

end Tarako
