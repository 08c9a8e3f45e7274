import Tarako.ModemControl.Packet
import Tarako.ModemControl.WordSum

/-!
# The packets of the loader in SPI mode

The branches of `setup_packet` fill in the length, the command, the checksums and the total
size by hand. A packet describes itself when these agree, and for each command it is said
when they do. The data lie right behind the header, as all callers have them.
-/

namespace Tarako

namespace ModemControl

open Words Splice

/-- The total size is the one in the header, and both checksums are those of what is sent. -/
structure SelfDescribing (packet : List UInt8) (totalSize : ℕ) : Prop where
  length : ∃ n : UInt16, packet.take 2 = bytes16 n ∧ totalSize = 8 + n.toNat
  head : (packet.drop 6).take 2 = bytes16 (bootChecksum (packet.take 6))
  data : (packet.drop 4).take 2 = bytes16 (bootChecksum ((packet.drop 8).take (totalSize - 8)))

/-- The commands that `setup_packet` has an SPI branch for. -/
def SpiCommand (msg : CmdType) : Prop :=
  msg ∈ [CmdType.connect, .startData, .midstData, .endData, .execData, .switchMode]

/-- When the branch of a command fits its data. -/
def SpiFits (msg : CmdType) (data : List UInt8) : Prop :=
  match msg with
  | .connect => data.length = 4
  | .midstData => data ≠ []
  | .endData | .switchMode => ∀ b ∈ data, b = 0
  | _ => True

/-! ### What the branches have in common -/

def spiHead (msg : CmdType) (lengthField : UInt16) (data : List UInt8) : List UInt8 :=
  bytes16 lengthField ++ bytes16 msg.code ++ bytes16 (bootChecksum data)

/-- A packet, and what is behind its `tail` in the buffer. -/
def spiLaid (msg : CmdType) (lengthField : UInt16) (data tail behind : List UInt8) : List UInt8 :=
  spiHead msg lengthField data ++ bytes16 (bootChecksum (spiHead msg lengthField data)) ++
    (tail ++ behind)

theorem store?_splice_zero {buffer : List UInt8} (done d : List UInt8)
    (h : done.length + d.length ≤ buffer.length) :
    store? (splice buffer 0 done) done.length d = some (splice buffer 0 (done ++ d)) := by
  have hdone : 0 + done.length ≤ buffer.length := by omega
  have happend := splice_append (b := d) hdone
  rw [Nat.zero_add] at happend
  rw [store?, length_splice hdone, if_pos h, happend]

theorem drop_splice_zero {buffer done : List UInt8} {k : ℕ} (h : done.length ≤ k) :
    (splice buffer 0 done).drop k = buffer.drop k := by
  rw [splice, List.take_zero, List.nil_append, List.drop_append, List.drop_eq_nil_of_le h,
    List.nil_append, List.drop_drop, Nat.zero_add, Nat.add_sub_cancel' h]

theorem setupSpi_eq (msg : CmdType) (lengthField : UInt16) (tail : List UInt8) (totalSize : ℕ)
    {buffer : List UInt8} {dataSize : ℕ} (hdata : 8 + dataSize ≤ buffer.length)
    (htail : 8 + tail.length ≤ buffer.length) :
    setupSpi msg lengthField tail totalSize buffer 8 dataSize =
      some (spiLaid msg lengthField ((buffer.drop 8).take dataSize) tail
        (buffer.drop (8 + tail.length)), totalSize) := by
  obtain ⟨sum, hsum⟩ : ∃ c, bootChecksum ((buffer.drop 8).take dataSize) = c := ⟨_, rfl⟩
  have hlength : store? buffer 0 (bytes16 lengthField) =
      some (splice buffer 0 (bytes16 lengthField)) :=
    if_pos (show 0 + 2 ≤ buffer.length by omega)
  have hcode : store? (splice buffer 0 (bytes16 lengthField)) 2 (bytes16 msg.code) =
      some (splice buffer 0 (bytes16 lengthField ++ bytes16 msg.code)) :=
    store?_splice_zero _ (bytes16 msg.code) (show 4 ≤ buffer.length by omega)
  have hslice : slice (splice buffer 0 (bytes16 lengthField ++ bytes16 msg.code)) 8 dataSize =
      some ((buffer.drop 8).take dataSize) := by
    rw [slice, drop_splice_zero (show 4 ≤ 8 by decide),
      length_splice (show 0 + 4 ≤ buffer.length by omega), if_pos hdata]
  have hdataSum : store? (splice buffer 0 (bytes16 lengthField ++ bytes16 msg.code)) 4
      (bytes16 sum) = some (splice buffer 0
        (bytes16 lengthField ++ bytes16 msg.code ++ bytes16 sum)) :=
    store?_splice_zero _ (bytes16 sum) (show 6 ≤ buffer.length by omega)
  obtain ⟨head, hhead⟩ :
      ∃ l, bytes16 lengthField ++ bytes16 msg.code ++ bytes16 sum = l := ⟨_, rfl⟩
  have hlen : head.length = 6 := by
    rw [← hhead]
    rfl
  have hheadSlice : slice (splice buffer 0 head) 0 6 = some head := by
    have htake := take_splice (d := head) (Nat.zero_le buffer.length)
    rw [hlen] at htake
    rw [slice, length_splice (by omega), if_pos (by omega)]
    exact congrArg some htake
  have hheadSum : store? (splice buffer 0 head) 6 (bytes16 (bootChecksum head)) =
      some (splice buffer 0 (head ++ bytes16 (bootChecksum head))) := by
    have hstore := store?_splice_zero head (bytes16 (bootChecksum head))
      (show head.length + 2 ≤ buffer.length by omega)
    rwa [hlen] at hstore
  have htailStore : store? (splice buffer 0 (head ++ bytes16 (bootChecksum head))) 8 tail =
      some (splice buffer 0 (head ++ bytes16 (bootChecksum head) ++ tail)) := by
    have hlenAll : (head ++ bytes16 (bootChecksum head)).length = 8 := by
      rw [List.length_append, hlen, length_bytes16]
    have hstore := store?_splice_zero (head ++ bytes16 (bootChecksum head)) tail
      (show _ + tail.length ≤ buffer.length by omega)
    rwa [hlenAll] at hstore
  have hspiHead : spiHead msg lengthField ((buffer.drop 8).take dataSize) = head := by
    rw [spiHead, hsum, hhead]
  simp only [setupSpi, hlength, hcode, hslice, hsum, hdataSum, hhead, hheadSlice, hheadSum,
    htailStore, Option.bind_eq_bind, Option.bind_some, Option.pure_def]
  rw [spiLaid, hspiHead, splice, List.take_zero, List.nil_append]
  simp only [List.length_append, hlen, length_bytes16, Nat.zero_add, List.append_assoc]
  rw [← Nat.add_assoc 6 2]

theorem bytes16_injective {v w : UInt16} (h : bytes16 v = bytes16 w) : v = w := by
  obtain ⟨hlow, hhigh⟩ := List.cons.inj h
  rw [← word16_bytes16 v, ← word16_bytes16 w, hlow, List.head_eq_of_cons_eq hhigh]

/-- A packet describes itself when the length field is right and the sum is the one of the
bytes that follow the header. -/
theorem selfDescribing_spiLaid (msg : CmdType) (lengthField : UInt16)
    (data tail behind : List UInt8) (totalSize : ℕ) :
    SelfDescribing (spiLaid msg lengthField data tail behind) totalSize ↔
      totalSize = 8 + lengthField.toNat ∧
        bootChecksum data = bootChecksum ((tail ++ behind).take (totalSize - 8)) := by
  constructor
  · rintro ⟨⟨n, hn, htotal⟩, -, hdata⟩
    rw [bytes16_injective (show bytes16 lengthField = bytes16 n from hn)]
    exact ⟨htotal, bytes16_injective hdata⟩
  · rintro ⟨htotal, hdata⟩
    exact ⟨⟨lengthField, rfl, htotal⟩, rfl, congrArg bytes16 hdata⟩

/-! ### The sum of zeros -/

theorem sum_words_eq_zero_iff (data : List UInt8) :
    (OnesSum.words data).sum = 0 ↔ ∀ b ∈ data, b = 0 := by
  fun_induction OnesSum.words data with
  | case1 a b rest ih =>
      have hzero : ∀ c : UInt8, c.toNat = 0 ↔ c = 0 := fun c => UInt8.toNat_inj (b := 0)
      rw [List.sum_cons, List.forall_mem_cons, List.forall_mem_cons, ← ih, ← hzero a, ← hzero b]
      omega
  | case2 a =>
      rw [List.sum_singleton, List.forall_mem_singleton]
      exact UInt8.toNat_inj (b := 0)
  | case3 => exact ⟨fun _ _ h => absurd h List.not_mem_nil, fun _ => rfl⟩

theorem bootChecksum_eq_zeros_iff {data : List UInt8} (h : data.length < 2 ^ 17) :
    bootChecksum data = bootChecksum [0, 0, 0, 0] ↔ ∀ b ∈ data, b = 0 := by
  have hreduced := OnesSum.reduced_sum (OnesSum.words_le data)
  have hle := hreduced.le
  have hzeros : (bootChecksum [0, 0, 0, 0]).toNat = 65535 := by decide
  rw [← UInt16.toNat_inj, toNat_bootChecksum h, hzeros, ← sum_words_eq_zero_iff,
    ← hreduced.zero]
  omega

/-! ### The commands -/

section Commands

variable {buffer : List UInt8} {dataSize : ℕ}

theorem toNat_lengthField (hsize : dataSize ≤ 65535) :
    (UInt16.ofNat dataSize).toNat = dataSize :=
  UInt16.toNat_ofNat_of_lt' (Nat.lt_succ_of_le hsize)

theorem selfDescribing_data (msg : CmdType) (hsize : dataSize ≤ 65535) :
    SelfDescribing (spiLaid msg (UInt16.ofNat dataSize) ((buffer.drop 8).take dataSize) []
      (buffer.drop 8)) (dataSize + 8) := by
  rw [selfDescribing_spiLaid, toNat_lengthField hsize, List.nil_append, Nat.add_sub_cancel]
  exact ⟨Nat.add_comm _ _, rfl⟩

theorem selfDescribing_zeros_iff (msg : CmdType) (hsize : dataSize ≤ 65535) :
    SelfDescribing (spiLaid msg 4 ((buffer.drop 8).take dataSize) [0, 0, 0, 0]
      (buffer.drop 12)) 12 ↔ ∀ b ∈ (buffer.drop 8).take dataSize, b = 0 := by
  have hlen : ((buffer.drop 8).take dataSize).length < 2 ^ 17 := by
    have hle := List.length_take_le dataSize (buffer.drop 8)
    omega
  rw [selfDescribing_spiLaid, ← bootChecksum_eq_zeros_iff hlen]
  exact and_iff_right rfl

/-- A packet of twelve bytes whose header tells the size of the data. -/
theorem selfDescribing_connect_iff (hsize : dataSize ≤ 65535) :
    SelfDescribing (spiLaid .connect (UInt16.ofNat dataSize) ((buffer.drop 8).take dataSize) []
      (buffer.drop 8)) 12 ↔ dataSize = 4 := by
  rw [selfDescribing_spiLaid, toNat_lengthField hsize]
  constructor
  · rintro ⟨htotal, -⟩
    omega
  · rintro rfl
    exact ⟨rfl, rfl⟩

end Commands

/-- For every command there is a packet, and it describes itself when the branch of the
command fits the data. -/
theorem spi_packet_iff (msg : CmdType) (hmsg : SpiCommand msg) (buffer : List UInt8)
    (dataSize : ℕ) (hsize : dataSize ≤ 65535) (hheader : 12 ≤ buffer.length)
    (hdata : 8 + dataSize ≤ buffer.length) :
    ∃ laid totalSize, setupPacket msg buffer 8 dataSize .spi = some (laid, totalSize) ∧
      (SelfDescribing laid totalSize ↔ SpiFits msg ((buffer.drop 8).take dataSize)) := by
  have hlen : ((buffer.drop 8).take dataSize).length = dataSize := by
    rw [List.length_take, List.length_drop]
    omega
  have height : 8 ≤ buffer.length := Nat.le_trans (by decide) hheader
  simp only [SpiCommand, List.mem_cons, List.not_mem_nil, or_false] at hmsg
  obtain rfl | rfl | rfl | rfl | rfl | rfl := hmsg
  · obtain ⟨cleared, hcleared⟩ : ∃ m, splice buffer 8 [0, 0] = m := ⟨_, rfl⟩
    have hclearedLen : cleared.length = buffer.length := by
      rw [← hcleared]
      exact length_splice (show 8 + 2 ≤ buffer.length by omega)
    have hstore : store? buffer 8 [0, 0] = some cleared := by
      rw [← hcleared]
      exact if_pos (show 8 + 2 ≤ buffer.length by omega)
    have hsetup := setupSpi_eq .connect (UInt16.ofNat dataSize) [] 12
      (hclearedLen ▸ hdata) (hclearedLen ▸ height)
    refine ⟨_, _, (congrArg (Option.bind · _) hstore).trans hsetup, ?_⟩
    rw [SpiFits, hlen]
    exact selfDescribing_connect_iff hsize
  · refine ⟨_, _, setupSpi_eq .startData _ [] _ hdata height, ?_⟩
    exact iff_of_true (selfDescribing_data .startData hsize) trivial
  · refine ⟨_, _, setupSpi_eq .midstData _ [] _ hdata height, ?_⟩
    have hempty : (buffer.drop 8).take dataSize ≠ [] ↔ dataSize ≠ 0 := by
      rw [← hlen, ne_eq, ne_eq, List.length_eq_zero_iff]
      rw [hlen]
    rw [SpiFits, hempty]
    by_cases hzero : dataSize = 0
    · rw [if_pos hzero, selfDescribing_spiLaid, hzero]
      exact iff_of_false (fun h => absurd h.1 (by decide)) (fun h => h rfl)
    · rw [if_neg hzero]
      exact iff_of_true (selfDescribing_data .midstData hsize) hzero
  · refine ⟨_, _, setupSpi_eq .endData _ [0, 0, 0, 0] _ hdata hheader, ?_⟩
    exact selfDescribing_zeros_iff .endData hsize
  · refine ⟨_, _, setupSpi_eq .execData _ [] _ hdata height, ?_⟩
    exact iff_of_true (selfDescribing_data .execData hsize) trivial
  · refine ⟨_, _, setupSpi_eq .switchMode _ [0, 0, 0, 0] _ hdata hheader, ?_⟩
    exact selfDescribing_zeros_iff .switchMode hsize

theorem spi_packet_iff_end : ∃ laid totalSize,
    setupPacket .endData [9, 9, 9, 9, 9, 9, 9, 9, 0, 0, 9, 9] 8 2 .spi = some (laid, totalSize) ∧
      (SelfDescribing laid totalSize ↔ ∀ b ∈ [(0 : UInt8), 0], b = 0) :=
  spi_packet_iff .endData (by simp [SpiCommand]) [9, 9, 9, 9, 9, 9, 9, 9, 0, 0, 9, 9] 2
    (by decide) (by decide) (by decide)

/-- The packet that `send_connect_message` sends has four bytes more than it says. -/
theorem connect_longer_than_said : ¬ ∀ (msg : CmdType) (buffer laid : List UInt8)
    (dataSize totalSize : ℕ), SpiCommand msg → dataSize ≤ 65535 → 12 ≤ buffer.length →
      8 + dataSize ≤ buffer.length →
        setupPacket msg buffer 8 dataSize .spi = some (laid, totalSize) →
          SelfDescribing laid totalSize := by
  intro h
  have hsetup : setupPacket .connect (List.replicate 32 0) 8 0 .spi =
      some ([0, 0, 0, 0, 0xFF, 0xFF, 0, 0] ++ List.replicate 24 0, 12) := by decide
  obtain ⟨n, hn, htotal⟩ := (h .connect _ _ 0 12 (by simp [SpiCommand]) (by decide) (by decide)
    (by decide) hsetup).length
  have hzero : (0 : UInt16) = n := bytes16_injective hn
  rw [← hzero] at htotal
  exact absurd htotal (by decide)

end ModemControl

end Tarako
