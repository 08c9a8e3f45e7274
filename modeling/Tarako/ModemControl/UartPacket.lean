import Mathlib.Data.LawfulXor.Basic
import Tarako.Lib.Crc
import Tarako.ModemControl.Packet

/-!
# The packets of the loader in UART mode

A packet is its head of four bytes, the data and a check. With `crc_16_l_calc` for the
check, which is the CRC of polynomial `CRC_16_POLYNOMIAL` bit by bit, the check of the
whole packet is zero.
-/

namespace Tarako

namespace ModemControl

open Words Splice

/-! ### The check -/

theorem and_polynomial_ne_zero_iff (crc : UInt16) :
    crc &&& CRC_16_L_POLYNOMIAL ≠ 0 ↔ crc.toBitVec.msb = true := by
  have hand : (crc &&& CRC_16_L_POLYNOMIAL).toBitVec =
      if crc.toBitVec.getLsbD 15 then BitVec.twoPow 16 15 else 0#16 :=
    BitVec.and_twoPow crc.toBitVec 15
  have hzero : (0 : UInt16).toBitVec = 0#16 := rfl
  have hpow : BitVec.twoPow 16 15 ≠ 0#16 := by decide
  rw [BitVec.msb_eq_getLsbD_last, ne_eq, ← UInt16.toBitVec_inj, hand, hzero]
  cases crc.toBitVec.getLsbD 15 with
  | false => simp
  | true => simp [hpow]

/-- The two conditional additions of a turn are one addition or none. -/
theorem crc16LBit_toBitVec (byte : UInt8) (crc : UInt16) (i : UInt8) :
    (crc16LBit byte crc i).toBitVec =
      Crc.bit CRC_16_POLYNOMIAL.toBitVec crc.toBitVec (decide (byte &&& i ≠ 0)) := by
  unfold crc16LBit Crc.bit
  simp only [and_polynomial_ne_zero_iff]
  by_cases hmsb : crc.toBitVec.msb = true
  · by_cases hbit : byte &&& i = 0
    · simp [hmsb, hbit]
    · simp [hmsb, hbit]
  · by_cases hbit : byte &&& i = 0
    · simp [hmsb, hbit]
    · simp [hmsb, hbit]

/-- The masks of the inner loop take the bits of a byte from the highest one down. -/
theorem map_crc16LBits : ∀ n : Fin 256,
    (crc16LBits.map fun i => decide (UInt8.ofNat n.val &&& i ≠ 0)) =
      Crc.msbFirst (UInt8.ofNat n.val).toBitVec := by
  decide +kernel

theorem crc16LByte_toBitVec (crc : UInt16) (byte : UInt8) :
    (crc16LByte crc byte).toBitVec =
      Crc.bits CRC_16_POLYNOMIAL.toBitVec crc.toBitVec (Crc.msbFirst byte.toBitVec) := by
  have hfold : ∀ (is : List UInt8) (crc : UInt16),
      (is.foldl (crc16LBit byte) crc).toBitVec =
        Crc.bits CRC_16_POLYNOMIAL.toBitVec crc.toBitVec
          (is.map fun i => decide (byte &&& i ≠ 0)) := by
    intro is
    induction is with
    | nil => exact fun _ => rfl
    | cons i is ih =>
        intro crc
        rw [List.foldl_cons, ih, crc16LBit_toBitVec]
        rfl
  have hbits := map_crc16LBits ⟨byte.toNat, byte.toNat_lt⟩
  rw [UInt8.ofNat_toNat] at hbits
  rw [crc16LByte, hfold, hbits]

theorem crc16LCalc_toBitVec (buf : List UInt8) :
    (crc16LCalc buf).toBitVec = Crc.bytes CRC_16_POLYNOMIAL.toBitVec 0 buf := by
  have hfold : ∀ crc : UInt16, (buf.foldl crc16LByte crc).toBitVec =
      Crc.bytes CRC_16_POLYNOMIAL.toBitVec crc.toBitVec buf := by
    induction buf with
    | nil => exact fun _ => rfl
    | cons b buf ih =>
        intro crc
        rw [List.foldl_cons, ih, crc16LByte_toBitVec]
        rfl
  exact hfold 0

def bytes16be (v : UInt16) : List UInt8 := [(v >>> 8).toUInt8, v.toUInt8]

theorem toNat_cpu2be16 (v : UInt16) :
    (cpu2be16 v).toNat = v.toNat % 256 * 256 + v.toNat / 256 := by
  have hv := v.toNat_lt
  have hlow : (v &&& 0xFF).toNat = v.toNat % 256 := by
    rw [UInt16.toNat_and]
    exact Nat.and_two_pow_sub_one_eq_mod v.toNat 8
  have hshl : ((v &&& 0xFF) <<< 8).toNat = (v.toNat % 256) <<< 8 := by
    rw [UInt16.toNat_shiftLeft, hlow]
    refine Nat.mod_eq_of_lt ?_
    rw [Nat.shiftLeft_eq]
    change v.toNat % 256 * 256 < 65536
    omega
  have hshr : ((v >>> 8) &&& 0xFF).toNat = v.toNat / 256 := by
    rw [UInt16.toNat_and, UInt16.toNat_shiftRight, Nat.shiftRight_eq_div_pow]
    refine (Nat.and_two_pow_sub_one_eq_mod _ 8).trans (Nat.mod_eq_of_lt ?_)
    change v.toNat / 256 < 256
    omega
  have hbound : v.toNat / 256 < 2 ^ 8 := by omega
  rw [cpu2be16, UInt16.toNat_or, hshl, hshr, ← Nat.shiftLeft_add_eq_or_of_lt hbound,
    Nat.shiftLeft_eq]

/-- `cpu2be16` makes a word big-endian in the memory of the machine. -/
theorem bytes16_cpu2be16 (v : UInt16) : bytes16 (cpu2be16 v) = bytes16be v := by
  have hbound : v.toNat / 256 < 256 := Nat.div_lt_of_lt_mul v.toNat_lt
  have hdiv : (v.toNat % 256 * 256 + v.toNat / 256) / 256 = v.toNat % 256 := by
    rw [Nat.mul_comm, Nat.mul_add_div (by decide), Nat.div_eq_of_lt hbound, Nat.add_zero]
  simp only [bytes16, bytes16be, toNat_cpu2be16, List.cons.injEq, and_true]
  constructor
  · apply UInt8.toNat_inj.mp
    simp [Nat.shiftRight_eq_div_pow]
  · apply UInt8.toNat_inj.mp
    rw [hdiv]
    simp

theorem bytes16be_eq_of_toNat {v : UInt16} {n : ℕ} (h : v.toNat = n) :
    bytes16be v = [UInt8.ofNat (n / 256), UInt8.ofNat n] := by
  simp only [bytes16be, List.cons.injEq, and_true]
  constructor
  · apply UInt8.toNat_inj.mp
    simp [Nat.shiftRight_eq_div_pow, h]
  · apply UInt8.toNat_inj.mp
    simp [h]

theorem flatMap_bytes16be (v : UInt16) :
    ((bytes16be v).flatMap fun b => Crc.msbFirst b.toBitVec) = Crc.msbFirst v.toBitVec := by
  simp [bytes16be, Crc.msbFirst, List.range_succ, BitVec.getMsbD]

theorem crc16LCalc_append (buf : List UInt8) :
    crc16LCalc (buf ++ bytes16be (crc16LCalc buf)) = 0 := by
  apply UInt16.toBitVec_inj.mp
  rw [crc16LCalc_toBitVec]
  refine Crc.bytes_append_self CRC_16_POLYNOMIAL.toBitVec 0 ?_
  rw [flatMap_bytes16be, crc16LCalc_toBitVec]

/-! ### The packet -/

def uartHead (msg : CmdType) (dataSize : ℕ) (data : List UInt8) : List UInt8 :=
  bytes16be msg.code ++ bytes16be (UInt16.ofNat dataSize) ++ data

/-- What the UART branch of `setup_packet` lays out in a buffer that has room for it. -/
theorem setupUart_eq (msg : CmdType) (check : List UInt8 → UInt16) {buffer : List UInt8}
    {dataSize : ℕ} (hroom : dataSize + 10 ≤ buffer.length) :
    ∃ laid, setupUart msg check buffer dataSize = some (laid, dataSize + 6) ∧
      slice laid 4 (dataSize + 6) =
        some (uartHead msg dataSize ((buffer.drop 8).take dataSize) ++
          bytes16 (check (uartHead msg dataSize ((buffer.drop 8).take dataSize)))) := by
  obtain ⟨filled, hfilled⟩ : ∃ m, splice buffer 4
      (bytes16be msg.code ++ bytes16be (UInt16.ofNat dataSize)) = m := ⟨_, rfl⟩
  obtain ⟨crc, hcrc⟩ : ∃ c, check (uartHead msg dataSize ((buffer.drop 8).take dataSize)) = c :=
    ⟨_, rfl⟩
  have hfront : (buffer.take 4).length = 4 := List.length_take_of_le (by omega)
  have htype : store? buffer 4 (bytes16be msg.code) =
      some (splice buffer 4 (bytes16be msg.code)) :=
    if_pos (show 4 + 2 ≤ buffer.length by omega)
  have hlenType : (splice buffer 4 (bytes16be msg.code)).length = buffer.length :=
    length_splice (show 4 + 2 ≤ buffer.length by omega)
  have hlength : store? (splice buffer 4 (bytes16be msg.code)) 6
      (bytes16be (UInt16.ofNat dataSize)) = some filled := by
    rw [← hfilled]
    refine (if_pos ?_).trans (congrArg some (splice_append ?_))
    · rw [hlenType]
      exact show 6 + 2 ≤ buffer.length by omega
    · exact show 4 + 2 ≤ buffer.length by omega
  have hlen : filled.length = buffer.length := by
    rw [← hfilled]
    exact length_splice (show 4 + 4 ≤ buffer.length by omega)
  have hhead : (filled.drop 4).take (4 + dataSize) =
      uartHead msg dataSize ((buffer.drop 8).take dataSize) := by
    rw [← hfilled, splice, List.drop_left' hfront, List.take_append]
    exact congrArg₂ _ (List.take_of_length_le (Nat.le_add_right 4 dataSize))
      (congrArg (List.take · _) (Nat.add_sub_cancel_left 4 dataSize))
  have hslice : slice filled 4 (4 + dataSize) =
      some (uartHead msg dataSize ((buffer.drop 8).take dataSize)) := by
    rw [slice, if_pos (by omega), hhead]
  have hcheck : store? filled (4 + dataSize + 4) (bytes16 crc) =
      some (splice filled (4 + dataSize + 4) (bytes16 crc)) :=
    if_pos (show 4 + dataSize + 4 + 2 ≤ filled.length by omega)
  have htake := take_splice (d := bytes16 crc) (show 4 + dataSize + 4 ≤ filled.length by omega)
  refine ⟨splice filled (4 + dataSize + 4) (bytes16 crc), ?_, ?_⟩
  · simp only [setupUart, pktHeaderSize, bytes16_cpu2be16, htype, hlength, hslice, hcrc, hcheck,
      Option.bind_eq_bind, Option.bind_some, Option.pure_def]
    exact congrArg (fun n => some (_, n)) (by omega)
  · have hsplit : dataSize + 6 = 4 + dataSize + 4 + (bytes16 crc).length - 4 := by
      rw [length_bytes16]
      omega
    have hlenHead : (filled.take (4 + dataSize + 4)).length = 4 + dataSize + 4 :=
      List.length_take_of_le (by omega)
    have hlenLaid := length_splice (d := bytes16 crc)
      (show 4 + dataSize + 4 + 2 ≤ filled.length by omega)
    rw [slice, if_pos (by omega), hsplit, ← List.drop_take, htake,
      List.drop_append_of_le_length (by omega), List.drop_take,
      Nat.add_sub_cancel, hhead, hcrc]

/-- The packets with `crc_16_l_calc`: command, length, data, and the check of it all. -/
theorem uart_packet_verifies (msg : CmdType)
    (hmsg : msg ∈ [CmdType.startData, .midstData, .endData, .execData]) (buffer : List UInt8)
    (offset dataSize : ℕ) (hsize : dataSize ≤ 65535) (hroom : dataSize + 10 ≤ buffer.length) :
    ∃ laid packet, setupPacket msg buffer offset dataSize .uart = some (laid, dataSize + 6) ∧
      slice laid 4 (dataSize + 6) = some packet ∧
      packet.take 2 = bytes16be msg.code ∧
      (packet.drop 2).take 2 = [UInt8.ofNat (dataSize / 256), UInt8.ofNat dataSize] ∧
      (packet.drop 4).take dataSize = (buffer.drop 8).take dataSize ∧
      crc16LCalc packet = 0 := by
  obtain ⟨laid, hsetup, hpacket⟩ :=
    setupUart_eq msg (fun head => cpu2be16 (crc16LCalc head)) hroom
  have hlen : ((buffer.drop 8).take dataSize).length = dataSize := by
    rw [List.length_take, List.length_drop]
    omega
  refine ⟨laid, _, ?_, hpacket, rfl, ?_, ?_, ?_⟩
  · simp only [List.mem_cons, List.not_mem_nil, or_false] at hmsg
    obtain rfl | rfl | rfl | rfl := hmsg
    · exact hsetup
    · exact hsetup
    · exact hsetup
    · exact hsetup
  · have hsmall : (UInt16.ofNat dataSize).toNat = dataSize :=
      UInt16.toNat_ofNat_of_lt' (Nat.lt_succ_of_le hsize)
    exact bytes16be_eq_of_toNat hsmall
  · exact List.take_left' hlen
  · rw [bytes16_cpu2be16]
    exact crc16LCalc_append _

theorem uart_packet_verifies_start : ∃ laid packet,
    setupPacket .startData [0, 0, 0, 0, 0, 0, 0, 0, 0x7E, 0x01, 0, 0] 8 2 .uart =
        some (laid, 8) ∧
      slice laid 4 8 = some packet ∧ packet.take 2 = bytes16be 1 ∧
      (packet.drop 2).take 2 = [0, 2] ∧ (packet.drop 4).take 2 = [0x7E, 0x01] ∧
      crc16LCalc packet = 0 :=
  uart_packet_verifies .startData (by decide) [0, 0, 0, 0, 0, 0, 0, 0, 0x7E, 0x01, 0, 0] 8 2
    (by decide) (by decide)

end ModemControl

end Tarako
