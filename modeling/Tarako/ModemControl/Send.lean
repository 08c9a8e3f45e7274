import Mathlib.Data.List.Basic
import Tarako.ModemControl.Framing

/-!
# The senders of the modem loader

Every sender of `packet.c` lays its packet out, writes it to the modem and waits
for an answer of fixed length. In UART mode the frame is written in a loop that
counts the accepted bytes but always hands `write` the start of `send_buffer`
(`writeLoop`), so a short write is followed by the beginning of the frame again.
`accepted_eq_frame_iff` says for which results of `write` the modem still gets
the frame.

The results of the system calls are given by a `Link`: the values that `write`
returns and the bytes that the calls of `read` deliver, none of them for a call
that returns zero or an error.
-/

namespace Tarako

namespace ModemControl

open Words Splice

structure Link where
  writes : List Int
  reads : List (List UInt8)

/-- The state after the loop that writes a frame: what the modem has accepted, and
the results of `write` that are left. -/
structure Written where
  accepted : List UInt8
  writes : List Int
  deriving DecidableEq

/-- The loop `do … while (translated_size > 0)` of the senders, with `remaining`
for `translated_size`. -/
def writeLoop (buf : List UInt8) : ℕ → List Int → List UInt8 → Option Written
  | _, [], _ => none
  | remaining, retval :: writes, accepted =>
      -- a call accepts at most what it is asked for, and nothing when it fails
      let count := min retval.toNat remaining
      if remaining - count = 0 then some ⟨accepted ++ buf.take count, writes⟩
      else writeLoop buf (remaining - count) writes (accepted ++ buf.take count)

/-- The loop `do … while (size != 0)` that reads the answer. -/
def readLoop : ℕ → List (List UInt8) → List UInt8 → Option (List UInt8 × List (List UInt8))
  | _, [], _ => none
  | size, bytes :: reads, raw =>
      let got := bytes.take size
      if size - got.length = 0 then some (raw ++ got, reads)
      else readLoop (size - got.length) reads (raw ++ got)

def uartPacket (msg : CmdType) (raw : List UInt8) (dataSize : ℕ) : Option (List UInt8) := do
  let (raw, size) ← setupPacket msg raw 8 dataSize .uart
  slice raw 4 size

def headType (data : List UInt8) : Option UInt16 := do
  let a ← data[0]?
  let b ← data[1]?
  return word16 b a

/-- The answers taken for success: `BSL_REP_ACK`, and for most senders also 0. -/
def ackOnly (type : UInt16) : Bool := type = BSL_REP_ACK

def ackOrZero (type : UInt16) : Bool := type = BSL_REP_ACK || type = 0

/-- The result of a sender, with the static `send_buffer` it leaves. -/
structure Exchange where
  accepted : List UInt8
  result : Int
  sendBuffer : List UInt8
  link : Link

/-- The frame put into `send_buffer` and written to the modem. -/
def uartWrite (packet sendBuffer : List UInt8) (writes : List Int) :
    Option (List UInt8 × Written) := do
  let frame := translatePacket packet
  let sendBuffer ← store? sendBuffer 0 frame
  let written ← writeLoop sendBuffer frame.length writes []
  return (sendBuffer, written)

/-- The part of a sender after its packet is laid out, in UART mode. -/
def uartExchange (acks : UInt16 → Bool) (packet : Option (List UInt8))
    (sendBuffer : List UInt8) (link : Link) : Option Exchange := do
  let packet ← packet
  let (sendBuffer, written) ← uartWrite packet sendBuffer link.writes
  let (raw, reads) ← readLoop 8 link.reads []
  let (sendBuffer, _) ← untranslatePacket sendBuffer raw
  let type ← headType sendBuffer
  return ⟨written.accepted, if acks type then 0 else -1, sendBuffer, ⟨written.writes, reads⟩⟩

/-- The same in SPI mode: one `write`, then an answer of six bytes. -/
def spiExchange (acks : UInt16 → Bool) (packet : Option (List UInt8 × ℕ))
    (sendBuffer : List UInt8) : Link → Option Exchange
  | ⟨[], _⟩ => none
  | ⟨retval :: writes, reads⟩ => do
      let (buffer, size) ← packet
      let accepted := buffer.take (min retval.toNat size)
      if retval ≤ 0 then
        return ⟨accepted, -1, sendBuffer, ⟨writes, reads⟩⟩
      let (raw, reads) ← readLoop 6 reads []
      let type ← headType raw
      return ⟨accepted, if acks type then 0 else -1, sendBuffer, ⟨writes, reads⟩⟩

/-! ## The packets -/

def connectRaw : List UInt8 := List.replicate 32 0

/-- `raw_buffer` of `send_start_message`: the address and the size, big-endian. -/
def startRaw (size : Int32) (addr : UInt32) : List UInt8 :=
  splice (splice (List.replicate 32 0) 8 (bytes32 (cpu2be32 addr))) 12
    (bytes32 (cpu2be32Int size))

def endRaw : List UInt8 := List.replicate 32 0

/-- `uart_buffer` of `send_data_message`; `none` when the data does not fit. -/
def dataRaw? (data : List UInt8) : Option (List UInt8) :=
  store? (List.replicate 300 0) 8 data

def execRaw (addr : UInt32) : List UInt8 :=
  splice (List.replicate 32 0) 8 (bytes32 (cpu2be32 addr))

def switchModeRaw : List UInt8 := List.replicate 32 0

/-! ## The senders -/

def sendConnectMessage (flag : PacketFlag) (sendBuffer : List UInt8) (link : Link) :
    Option Exchange :=
  match flag with
  | .uart => uartExchange ackOnly (uartPacket .connect connectRaw 0) sendBuffer link
  | .spi => spiExchange ackOnly (setupPacket .connect connectRaw 8 0 .spi) sendBuffer link

def sendStartMessage (size : Int32) (addr : UInt32) (flag : PacketFlag)
    (sendBuffer : List UInt8) (link : Link) : Option Exchange :=
  match flag with
  | .uart =>
      uartExchange ackOrZero (uartPacket .startData (startRaw size addr) 8) sendBuffer link
  | .spi =>
      spiExchange ackOrZero (setupPacket .startData (startRaw size addr) 8 8 .spi)
        sendBuffer link

def sendEndMessage (flag : PacketFlag) (sendBuffer : List UInt8) (link : Link) :
    Option Exchange :=
  match flag with
  | .uart => uartExchange ackOrZero (uartPacket .endData endRaw 0) sendBuffer link
  | .spi => spiExchange ackOrZero (setupPacket .endData endRaw 8 0 .spi) sendBuffer link

/-- In UART mode the data is the first `data_size` bytes of the caller's buffer; in
SPI mode the packet is laid out in that buffer, with the data from byte 8 on. -/
def sendDataMessage (buffer : List UInt8) (dataSize : ℕ) (flag : PacketFlag)
    (sendBuffer : List UInt8) (link : Link) : Option Exchange :=
  match flag with
  | .uart =>
      uartExchange ackOrZero
        (do
          let data ← slice buffer 0 dataSize
          let raw ← dataRaw? data
          uartPacket .midstData raw dataSize)
        sendBuffer link
  | .spi =>
      spiExchange ackOrZero (setupPacket .midstData buffer 8 dataSize .spi) sendBuffer link

def sendExecMessage (addr : UInt32) (flag : PacketFlag) (sendBuffer : List UInt8)
    (link : Link) : Option Exchange :=
  match flag with
  | .uart => uartExchange ackOrZero (uartPacket .execData (execRaw addr) 4) sendBuffer link
  | .spi =>
      spiExchange ackOrZero (setupPacket .execData (execRaw addr) 8 4 .spi) sendBuffer link

def uartSendChangeSpiModeMessage (sendBuffer : List UInt8) (link : Link) :
    Option Exchange :=
  uartExchange ackOnly (uartPacket .switchMode switchModeRaw 0) sendBuffer link

inductive Message
  | connect
  | start (size : Int32) (addr : UInt32)
  | data (buffer : List UInt8) (dataSize : ℕ)
  | endData
  | exec (addr : UInt32)
  | switchMode

namespace Message

def send : Message → List UInt8 → Link → Option Exchange
  | .connect => sendConnectMessage .uart
  | .start size addr => sendStartMessage size addr .uart
  | .data buffer dataSize => sendDataMessage buffer dataSize .uart
  | .endData => sendEndMessage .uart
  | .exec addr => sendExecMessage addr .uart
  | .switchMode => uartSendChangeSpiModeMessage

/-- The packet that the sender lays out; `none` when it overruns its buffer. -/
def packet : Message → Option (List UInt8)
  | .connect => uartPacket .connect connectRaw 0
  | .start size addr => uartPacket .startData (startRaw size addr) 8
  | .data buffer dataSize => do
      let data ← slice buffer 0 dataSize
      let raw ← dataRaw? data
      uartPacket .midstData raw dataSize
  | .endData => uartPacket .endData endRaw 0
  | .exec addr => uartPacket .execData (execRaw addr) 4
  | .switchMode => uartPacket .switchMode switchModeRaw 0

def frame (m : Message) : Option (List UInt8) := m.packet.map translatePacket

/-- What the modem has accepted when the loop that writes the frame ends. -/
def accepted (m : Message) (sendBuffer : List UInt8) (writes : List Int) :
    Option (List UInt8) := do
  let packet ← m.packet
  let (_, written) ← uartWrite packet sendBuffer writes
  return written.accepted

theorem accepted_of_send {m : Message} {sendBuffer : List UInt8} {link : Link}
    {ex : Exchange} (h : m.send sendBuffer link = some ex) :
    m.accepted sendBuffer link.writes = some ex.accepted := by
  obtain ⟨acks, hsend⟩ : ∃ acks, m.send sendBuffer link =
      uartExchange acks m.packet sendBuffer link := by
    cases m <;> exact ⟨_, rfl⟩
  rw [hsend] at h
  simp only [uartExchange, Option.bind_eq_bind, Option.bind_eq_some_iff, Option.pure_def,
    Option.some.injEq] at h
  obtain ⟨packet, hpacket, ⟨buffer, written⟩, hwrite, _, _, _, _, _, _, rfl⟩ := h
  simp [accepted, hpacket, hwrite]

end Message

/-! ## The bytes on the wire -/

theorem writeLoop_cons_of_nonpos (buf : List UInt8) {remaining : ℕ} (h : 0 < remaining)
    {retval : Int} (hretval : retval ≤ 0) (writes : List Int) (accepted : List UInt8) :
    writeLoop buf remaining (retval :: writes) accepted =
      writeLoop buf remaining writes accepted := by
  have hcount : min retval.toNat remaining = 0 := by omega
  have hne : remaining ≠ 0 := by omega
  rw [writeLoop, hcount]
  simp [hne]

theorem length_accepted_of_writeLoop {buf : List UInt8} :
    ∀ {writes : List Int} {remaining : ℕ} {accepted : List UInt8} {w : Written},
      remaining ≤ buf.length → writeLoop buf remaining writes accepted = some w →
        w.accepted.length = accepted.length + remaining
  | [], _, _, _, _, h => by cases h
  | retval :: writes, remaining, accepted, w, hbuf, h => by
      rw [writeLoop] at h
      have hcount : (buf.take (min retval.toNat remaining)).length =
          min retval.toNat remaining := by
        rw [List.length_take]
        omega
      split_ifs at h with hend
      · cases h
        rw [List.length_append, hcount]
        omega
      · have ih := length_accepted_of_writeLoop (by omega) h
        rw [ih, List.length_append, hcount]
        omega

/-- The next byte that is accepted is the first one of the buffer, whatever has
been accepted before. -/
theorem accepted_of_writeLoop (b : UInt8) (buf : List UInt8) :
    ∀ {writes : List Int} {remaining : ℕ} {accepted : List UInt8} {w : Written},
      writeLoop (b :: buf) (remaining + 1) writes accepted = some w →
        ∃ rest, w.accepted = accepted ++ b :: rest
  | [], _, _, _, h => by cases h
  | retval :: writes, remaining, accepted, w, h => by
      by_cases hretval : retval ≤ 0
      · rw [writeLoop_cons_of_nonpos _ (Nat.succ_pos _) hretval] at h
        exact accepted_of_writeLoop b buf h
      · obtain ⟨k, hk⟩ : ∃ k, min retval.toNat (remaining + 1) = k + 1 :=
          ⟨min retval.toNat (remaining + 1) - 1, by omega⟩
        rw [writeLoop, hk, List.take_succ_cons] at h
        split_ifs at h with hend
        · cases h
          exact ⟨buf.take k, rfl⟩
        · obtain ⟨n, hn⟩ : ∃ n, remaining + 1 - (k + 1) = n + 1 :=
            ⟨remaining - k - 1, by omega⟩
          rw [hn] at h
          obtain ⟨rest, hrest⟩ := accepted_of_writeLoop b buf h
          exact ⟨buf.take k ++ b :: rest, by simp [hrest]⟩

theorem exists_find?_of_writeLoop {buf : List UInt8} {remaining : ℕ} (h : 0 < remaining) :
    ∀ {writes : List Int} {accepted : List UInt8} {w : Written},
      writeLoop buf remaining writes accepted = some w →
        ∃ retval rest, writes.find? (0 < ·) = some retval ∧ 0 < retval ∧
          writeLoop buf remaining (retval :: rest) accepted = some w
  | [], _, _, hrun => by cases hrun
  | retval :: writes, accepted, w, hrun => by
      by_cases hretval : 0 < retval
      · exact ⟨retval, writes, by simp [hretval], hretval, hrun⟩
      · rw [writeLoop_cons_of_nonpos _ h (by omega)] at hrun
        obtain ⟨r, rest, hfind, hr, hloop⟩ := exists_find?_of_writeLoop h hrun
        exact ⟨r, rest, by simpa [hretval] using hfind, hr, hloop⟩

/-- What the loop sends of a buffer that starts with a frame. The frame arrives
exactly when the first call that accepts anything leaves at most its last byte:
the flag at the start of the buffer then stands in for the flag at the end. -/
theorem accepted_eq_frame_of_writeLoop {flag : UInt8} {body room : List UInt8}
    (hflag : flag ∉ body) {writes : List Int} {w : Written}
    (h : writeLoop (flag :: (body ++ [flag]) ++ room) (body.length + 2) writes [] = some w)
    {retval : Int} (hfind : writes.find? (0 < ·) = some retval) :
    w.accepted = flag :: (body ++ [flag]) ↔ (body.length : Int) + 1 ≤ retval := by
  obtain ⟨r, rest, hr, hpos, hrun⟩ := exists_find?_of_writeLoop (by omega) h
  obtain rfl : r = retval := Option.some.inj (hr.symm.trans hfind)
  have hframe : (flag :: (body ++ [flag])).length = body.length + 2 := by simp
  rw [writeLoop, List.nil_append] at hrun
  split_ifs at hrun with hend
  · -- the first call takes the whole frame
    have hall : min r.toNat (body.length + 2) = (flag :: (body ++ [flag])).length := by
      rw [hframe]
      omega
    have htake : w.accepted = flag :: (body ++ [flag]) := by
      cases hrun
      rw [hall, List.take_left]
    constructor
    · intro _
      omega
    · intro _
      exact htake
  · obtain ⟨k, hk⟩ : ∃ k, min r.toNat (body.length + 2) = k + 1 :=
      ⟨min r.toNat (body.length + 2) - 1, by omega⟩
    obtain ⟨n, hn⟩ : ∃ n, body.length + 2 - (k + 1) = n + 1 := ⟨body.length - k, by omega⟩
    have hfirst : (flag :: (body ++ [flag]) ++ room).take (k + 1) =
        flag :: body.take k := by
      have hle : k ≤ body.length := by omega
      rw [List.cons_append, List.take_succ_cons, List.append_assoc,
        List.take_append_of_le_length hle]
    rw [hk, hn, hfirst] at hrun
    have hlen := length_accepted_of_writeLoop (by simp; omega) hrun
    obtain ⟨tail, htail⟩ := accepted_of_writeLoop flag (body ++ [flag] ++ room) hrun
    by_cases hlast : k = body.length
    · -- only the closing flag is left: the loop sends the opening flag for it
      subst hlast
      have hn0 : n = 0 := by omega
      subst hn0
      have htail0 : tail = [] := by
        rw [htail] at hlen
        simp only [List.length_append, List.length_cons, List.length_take] at hlen
        exact List.length_eq_zero_iff.mp (by omega)
      constructor
      · intro _
        omega
      · intro _
        rw [htail, htail0, List.take_length, List.cons_append]
    · constructor
      · intro heq
        -- the byte after the accepted prefix is a flag, in the frame it is not
        have hbody : (body ++ [flag])[k]? = some flag := by
          have hat : w.accepted[k + 1]? = some flag := by
            have hsize : (flag :: body.take k).length = k + 1 := by
              simp only [List.length_cons, List.length_take]
              omega
            rw [htail, ← hsize]
            simp
          rw [heq, List.getElem?_cons_succ] at hat
          exact hat
        rw [List.getElem?_append_left (by omega)] at hbody
        exact absurd (List.mem_of_getElem? hbody) hflag
      · intro _
        omega

namespace Message

/-- The wire law of the senders in UART mode. When the loop that writes a frame
ends, the modem has the frame, once and in order, if and only if the first `write`
that accepted anything accepted all of the frame or all but its last byte. -/
theorem accepted_eq_frame_iff (m : Message) (sendBuffer frame accepted : List UInt8)
    (writes : List Int) (hframe : m.frame = some frame)
    (hend : m.accepted sendBuffer writes = some accepted) :
    accepted = frame ↔
      ∀ retval, writes.find? (0 < ·) = some retval → (frame.length : Int) - 1 ≤ retval := by
  obtain ⟨packet, hpacket, rfl⟩ := Option.map_eq_some_iff.mp hframe
  simp only [Message.accepted, hpacket, uartWrite, Option.bind_eq_bind, Option.bind_some,
    Option.bind_eq_some_iff, Option.pure_def, Option.some.injEq] at hend
  obtain ⟨⟨buffer, w⟩, ⟨stored, hstore, w', hloop, hpair⟩, rfl⟩ := hend
  obtain ⟨rfl, rfl⟩ := Prod.mk.inj hpair
  obtain ⟨hfits, rfl⟩ := store?_eq_some_iff.mp hstore
  -- `send_buffer` now starts with the frame
  have hbuffer : splice sendBuffer 0 (translatePacket packet) =
      hdlc.flag :: (hdlc.stuff packet ++ [hdlc.flag]) ++
        sendBuffer.drop (translatePacket packet).length := by
    simp [splice, translatePacket_eq_frame, Stuffing.Code.frame]
  have hlength : (translatePacket packet).length = (hdlc.stuff packet).length + 2 := by
    simp [translatePacket_eq_frame, Stuffing.Code.frame]
  rw [hlength] at hloop ⊢
  rw [← hlength, hbuffer, hlength] at hloop
  obtain ⟨retval, rest, hfind, hpos, -⟩ := exists_find?_of_writeLoop (by omega) hloop
  have hiff := accepted_eq_frame_of_writeLoop (hdlc.flag_not_mem_stuff packet) hloop hfind
  rw [translatePacket_eq_frame, Stuffing.Code.frame, hiff]
  constructor
  · intro hle r hr
    obtain rfl : retval = r := Option.some.inj (hfind.symm.trans hr)
    push_cast
    omega
  · intro hall
    have hle := hall retval hfind
    push_cast at hle
    omega

theorem accepted_eq_frame_connect :
    [0x7E, 0, 0, 0, 0, 0, 0, 0x7E] = ([0x7E, 0, 0, 0, 0, 0, 0, 0x7E] : List UInt8) ↔
      ∀ retval, [-1, 7, 1].find? (0 < ·) = some retval → (8 : Int) - 1 ≤ retval :=
  accepted_eq_frame_iff .connect (List.replicate 8 0) [0x7E, 0, 0, 0, 0, 0, 0, 0x7E]
    [0x7E, 0, 0, 0, 0, 0, 0, 0x7E] [-1, 7, 1] (by decide) (by decide)

/-- A connect frame of which the first call takes three bytes: the loop starts again
at the opening flag and the modem never sees the closing one. -/
theorem accepted_ne_frame_connect :
    ¬ ∀ (m : Message) (sendBuffer frame accepted : List UInt8) (writes : List Int),
      m.frame = some frame → m.accepted sendBuffer writes = some accepted →
        accepted = frame := by
  intro h
  have heq := h .connect (List.replicate 8 0) [0x7E, 0, 0, 0, 0, 0, 0, 0x7E]
    [0x7E, 0, 0, 0x7E, 0, 0, 0, 0] [3, 5] (by decide) (by decide)
  exact absurd heq (by decide)

end Message

end ModemControl

end Tarako
