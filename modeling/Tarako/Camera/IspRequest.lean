import Tarako.Camera.IspDown
import Tarako.Camera.IspVideo

/-!
# What a request of the ISP tool accesses

`handle_isp_data` with the accesses that the lengths of a request decide: the bytes it reads of
`diag_cmd_buf`, the words that `_ispParamVerify` reads, and how much of the tuning structure
is written. What the tool is answered is left out.
-/

namespace Tarako

namespace IspVideo

open IspParam Words

def CMD_READ_ISP_PARAM : UInt8 := 3

def CMD_WRITE_ISP_PARAM : UInt8 := 4

def CMD_GET_PREVIEW_PICTURE : UInt8 := 5

def CMD_UPLOAD_MAIN_INFO : UInt8 := 7

def CMD_TAKE_PICTURE : UInt8 := 8

def CMD_ISP_LEVEL : UInt8 := 9

def CMD_READ_SENSOR_REG : UInt8 := 10

def CMD_WRITE_SENSOR_REG : UInt8 := 11

/-- What `ispParser` is given: `in_param.buf_addr`, the copy of the packet, or
`&in_param`. -/
inductive Source where
  | copy
  | inParam
  deriving DecidableEq

/-- Some bytes of `diag_cmd_buf` are read, `_ispParamVerify` reads a word, or the first bytes
of the tuning structure are written. -/
inductive Access where
  | received (off len : ℕ)
  | verify (src : Source) (word : ℕ)
  | tune (len : ℕ)
  deriving DecidableEq

/-- A case of the switch that takes a packet: whether it logs the words of the packet,
whether it copies them, and what it gives to `ispParser`. -/
structure Case where
  logs : Bool
  copies : Bool
  source : Source

def caseOf (subtype : UInt8) : Option Case :=
  if subtype = CMD_READ_ISP_PARAM then some ⟨true, true, .copy⟩
  else if subtype = CMD_WRITE_ISP_PARAM then some ⟨false, true, .copy⟩
  else if subtype = CMD_UPLOAD_MAIN_INFO then some ⟨false, true, .copy⟩
  else if subtype = CMD_TAKE_PICTURE then some ⟨true, false, .inParam⟩
  else if subtype = CMD_ISP_LEVEL then some ⟨false, true, .copy⟩
  else if subtype = CMD_READ_SENSOR_REG then some ⟨false, false, .inParam⟩
  else if subtype = CMD_WRITE_SENSOR_REG then some ⟨false, true, .inParam⟩
  else none

/-- Around a request: whether `malloc` succeeds and what is in its memory, what is on the
stack from `in_param` on, and the sensor. -/
structure Surroundings where
  alloc : Bool
  heap : Memory
  stack : Memory
  sensor : SensorInfo

/-- `ispvideo_GetIspParamLenFromSt`: `len` of the head, less the size of the head. -/
def ispvideoGetIspParamLenFromSt (dig : Memory) : UInt32 :=
  (word16 (dig 5) (dig 6)).toUInt32 - 0x08

/-- A loop that logs the words of the packet, with `uint8_t i`: what it has read after some
turns, and whether it has ended. -/
def logWords (bufLen : UInt32) : ℕ → UInt8 → ℕ → List Access × Bool
  | 0, _, _ => ([], false)
  | turns + 1, i, addr =>
      if i.toUInt32 < bufLen then
        let (reads, ended) := logWords bufLen turns (i + 4) (addr + 4)
        (.received addr 4 :: reads, ended)
      else ([], true)

/-- The words that `_ispParamVerify` reads; the second one is only logged. -/
def verifyWords (param : Memory) : List ℕ := [0, 1, 2, (param.load32 2 / 4 - 1).toNat]

/-- `ispParser(ISP_PARSER_DOWN)`. -/
def down (e : Surroundings) (src : Source) (param : Memory) : List Access :=
  (verifyWords param).map (.verify src) ++
    [.tune (ispParserDownHnadle { e.sensor with touched := 0 } param).1.touched]

/-- The copy of the packet, behind the head and its flag, in new memory. -/
def packetCopy (e : Surroundings) (buf : Memory) : Memory :=
  e.heap.copy 0 (buf.shift 9) (ispvideoGetIspParamLenFromSt buf).toNat

/-- `in_param`: an address, the length and what is behind. -/
def inParamMemory (e : Surroundings) (buf : Memory) : Memory :=
  e.stack.store32 1 (ispvideoGetIspParamLenFromSt buf)

def packetAccesses (e : Surroundings) (c : Case) (buf : Memory) : List Access :=
  (if c.copies then [.received 9 (ispvideoGetIspParamLenFromSt buf).toNat] else []) ++
    match c.source with
    | .copy => down e .copy (if c.copies then packetCopy e buf else e.heap)
    | .inParam => down e .inParam (inParamMemory e buf)

/-- A case that takes a packet; nothing follows a loop that goes on. -/
def caseAccesses (e : Surroundings) (c : Case) (buf : Memory) (turns : ℕ) : List Access × Bool :=
  let bufLen := ispvideoGetIspParamLenFromSt buf
  let (reads, ended) := if c.logs then logWords bufLen turns 0 9 else ([], true)
  (.received 5 2 :: reads ++
    if ended ∧ bufLen ≠ 0 ∧ e.alloc then packetAccesses e c buf else [], ended)

def imageAccesses (subtype : UInt8) : List Access :=
  if subtype = CMD_GET_PREVIEW_PICTURE ∨ subtype = CMD_TAKE_PICTURE then [.received 9 1] else []

/-- `handle_isp_data` for `cnt` bytes, with at most `turns` turns of a loop that logs. -/
def accesses (e : Surroundings) (buf : Memory) (cnt turns : ℕ) : List Access :=
  if cnt < msgHeadSize + 2 then []
  else if buf 7 ≠ 0xfe then [.received 7 1]
  else
    [.received 7 1, .received 0 9, .received 8 1] ++
      match caseOf (buf 8) with
      | none => imageAccesses (buf 8)
      | some c =>
          let (reads, ended) := caseAccesses e c buf turns
          reads ++ if ended then imageAccesses (buf 8) else []

/-- The access is to one of `cnt` received bytes, to a word of a packet of `len` bytes, or
within the tuning structure. -/
def Access.Inside (cnt len : ℕ) : Access → Prop
  | .received off n => off + n ≤ cnt
  | .verify .copy word => 4 * word + 4 ≤ len
  | .verify .inParam _ => False
  | .tune n => n ≤ TUNE_SIZE

/-- Every access stays inside, however long a loop goes on. -/
def StaysInside (e : Surroundings) (buf : Memory) (cnt : ℕ) : Prop :=
  ∀ turns, ∀ a ∈ accesses e buf cnt turns,
    a.Inside cnt (ispvideoGetIspParamLenFromSt buf).toNat

/-- The words that are logged are among the received bytes, and the loop ends. -/
def LogFits (buf : Memory) (cnt : ℕ) : Prop :=
  (ispvideoGetIspParamLenFromSt buf).toNat ≤ 252 ∧
    9 + ((ispvideoGetIspParamLenFromSt buf).toNat + 3) / 4 * 4 ≤ cnt

/-- The packet is among the received bytes and has a head, it ends where its size says, or
behind, and what it sets is not larger than the tuning structure. -/
structure PacketFits (e : Surroundings) (buf : Memory) (cnt : ℕ) : Prop where
  received : 9 + (ispvideoGetIspParamLenFromSt buf).toNat ≤ cnt
  head : 12 ≤ (ispvideoGetIspParamLenFromSt buf).toNat
  size : 4 ≤ ((packetCopy e buf).load32 2).toNat
  inside : ((packetCopy e buf).load32 2).toNat / 4 * 4 ≤
    (ispvideoGetIspParamLenFromSt buf).toNat
  sets : SetsAll (packetCopy e buf) → setSize (packetCopy e buf) ≤ TUNE_SIZE

/-- The request is dropped, or its case takes no packet, or what it does with it fits. -/
def Fits (e : Surroundings) (buf : Memory) (cnt : ℕ) : Prop :=
  msgHeadSize + 2 ≤ cnt → buf 7 = 0xfe → ∀ c, caseOf (buf 8) = some c →
    (c.logs = true → LogFits buf cnt) ∧
      (ispvideoGetIspParamLenFromSt buf ≠ 0 → e.alloc = true →
        c.source = .copy ∧ PacketFits e buf cnt)

/-! ## The loop -/

theorem toUInt32_lt_iff (i : UInt8) (n : UInt32) : i.toUInt32 < n ↔ i.toNat < n.toNat := by
  rw [UInt32.lt_iff_toNat_lt, UInt8.toNat_toUInt32]

theorem toNat_add_four (i : UInt8) (j : ℕ) :
    ((i + 4).toNat + 4 * j) % 256 = (i.toNat + 4 * (j + 1)) % 256 := by
  have hfour : (4 : UInt8).toNat = 4 := rfl
  rw [UInt8.toNat_add, hfour]
  omega

/-- The loop reads word after word while its counter, modulo 256, is below the length. -/
theorem mem_logWords_iff (bufLen : UInt32) (turns : ℕ) (i : UInt8) (addr : ℕ) (a : Access) :
    a ∈ (logWords bufLen turns i addr).1 ↔
      ∃ k < turns, a = .received (addr + 4 * k) 4 ∧
        ∀ j ≤ k, (i.toNat + 4 * j) % 256 < bufLen.toNat := by
  induction turns generalizing i addr with
  | zero =>
      refine iff_of_false List.not_mem_nil ?_
      rintro ⟨k, hk, -⟩
      exact absurd hk (Nat.not_lt_zero k)
  | succ turns ih =>
      have hi := i.toNat_lt
      rw [logWords]
      by_cases hlt : i.toUInt32 < bufLen
      · have hfirst := (toUInt32_lt_iff i bufLen).mp hlt
        rw [if_pos hlt, List.mem_cons, ih]
        constructor
        · rintro (rfl | ⟨k, hk, rfl, hall⟩)
          · refine ⟨0, Nat.succ_pos _, rfl, fun j hj => ?_⟩
            obtain rfl : j = 0 := Nat.le_zero.mp hj
            omega
          · refine ⟨k + 1, by omega, by rw [Nat.mul_succ]; congr 1; omega, fun j hj => ?_⟩
            cases j with
            | zero => omega
            | succ j =>
                rw [← toNat_add_four]
                exact hall j (by omega)
        · rintro ⟨k, hk, rfl, hall⟩
          cases k with
          | zero => exact Or.inl rfl
          | succ k =>
              refine Or.inr ⟨k, by omega, by rw [Nat.mul_succ]; congr 1; omega, fun j hj => ?_⟩
              rw [toNat_add_four]
              exact hall (j + 1) (by omega)
      · rw [if_neg hlt]
        refine iff_of_false List.not_mem_nil ?_
        rintro ⟨k, -, -, hall⟩
        have hzero := hall 0 (Nat.zero_le _)
        exact hlt ((toUInt32_lt_iff i bufLen).mpr (by omega))

theorem logWords_ended {bufLen : UInt32} {turns : ℕ} {i : UInt8} (addr : ℕ) {j : ℕ}
    (hj : j < turns) (h : bufLen.toNat ≤ (i.toNat + 4 * j) % 256) :
    (logWords bufLen turns i addr).2 = true := by
  induction turns generalizing i addr j with
  | zero => exact absurd hj (Nat.not_lt_zero j)
  | succ turns ih =>
      have hi := i.toNat_lt
      rw [logWords]
      by_cases hlt : i.toUInt32 < bufLen
      · have hfirst := (toUInt32_lt_iff i bufLen).mp hlt
        rw [if_pos hlt]
        cases j with
        | zero => omega
        | succ j =>
            rw [← toNat_add_four] at h
            exact ih (addr + 4) (by omega) h
      · rw [if_neg hlt]

variable {e : Surroundings} {buf : Memory} {cnt : ℕ} {c : Case}

/-- The loop over a packet stays among the received bytes exactly if it ends there. -/
theorem log_inside_iff (hcnt : msgHeadSize + 2 ≤ cnt) (len : ℕ) :
    (∀ turns, ∀ a ∈ (logWords (ispvideoGetIspParamLenFromSt buf) turns 0 9).1,
        a.Inside cnt len) ↔ LogFits buf cnt := by
  have hhead : msgHeadSize = 8 := rfl
  have hzero : (0 : UInt8).toNat = 0 := rfl
  simp only [mem_logWords_iff, hzero, Nat.zero_add]
  constructor
  · intro h
    have hlong : (ispvideoGetIspParamLenFromSt buf).toNat ≤ 252 := by
      by_contra hgt
      have hlast := h (cnt + 1) _ ⟨cnt, Nat.lt_succ_self _, rfl, fun j _ => by omega⟩
      change 9 + 4 * cnt + 4 ≤ cnt at hlast
      omega
    refine ⟨hlong, ?_⟩
    by_cases hempty : (ispvideoGetIspParamLenFromSt buf).toNat = 0
    · omega
    · have hlast := h ((ispvideoGetIspParamLenFromSt buf).toNat) _
        ⟨((ispvideoGetIspParamLenFromSt buf).toNat + 3) / 4 - 1, by omega, rfl,
          fun j hj => by omega⟩
      change 9 + 4 * (((ispvideoGetIspParamLenFromSt buf).toNat + 3) / 4 - 1) + 4 ≤ cnt at hlast
      omega
  · rintro ⟨hlong, hfits⟩ turns a ⟨k, -, rfl, hall⟩
    have hk : k ≤ 62 := by
      by_contra hgt
      have hlast := hall 63 (by omega)
      omega
    have hlast := hall k (le_refl k)
    change 9 + 4 * k + 4 ≤ cnt
    omega

/-! ## The packet -/

theorem touched_ispParserDownHnadle (s : SensorInfo) (param : Memory) :
    (ispParserDownHnadle { s with touched := 0 } param).1.touched =
      if SetsAll param then setSize param else 0 := by
  by_cases htype : param.load32 1 = ISP_TYPE_PARAM
  · have hcmd : ISP_TYPE_PARAM ≠ ISP_TYPE_CMD := by decide
    rw [ispParserDownHnadle, htype, if_neg hcmd, if_pos rfl, ispParserDownParam_eq _ htype]
    by_cases hall : SetsAll param
    · by_cases hsize : setSize param = 0
      · rw [if_neg fun h : SetsAll param ∧ setSize param ≠ 0 => h.2 hsize, if_pos hall,
          if_pos hall]
        exact hsize.symm
      · rw [if_pos (And.intro hall hsize), if_pos hall]
        exact Nat.zero_max _
    · rw [if_neg fun h : SetsAll param ∧ setSize param ≠ 0 => hall h.1, if_neg hall,
        if_neg hall]
  · rw [if_neg fun hall : SetsAll param => htype hall.1, ispParserDownHnadle, if_neg htype]
    split_ifs <;> rfl

theorem endWord_inside_iff (packetSize : UInt32) {len : ℕ} (hlen : len < 2 ^ 32) :
    4 * (packetSize / 4 - 1).toNat + 4 ≤ len ↔
      4 ≤ packetSize.toNat ∧ packetSize.toNat / 4 * 4 ≤ len := by
  have hlt := packetSize.toNat_lt
  have hfour : (4 : UInt32).toNat = 4 := rfl
  have hone : (1 : UInt32).toNat = 1 := rfl
  rw [UInt32.toNat_sub, UInt32.toNat_div, hfour, hone]
  omega

theorem down_copy_inside_iff (e : Surroundings) (param : Memory) (cnt : ℕ) {len : ℕ}
    (hlen : len < 2 ^ 32) :
    (∀ a ∈ down e .copy param, a.Inside cnt len) ↔
      12 ≤ len ∧ (4 ≤ (param.load32 2).toNat ∧ (param.load32 2).toNat / 4 * 4 ≤ len) ∧
        (SetsAll param → setSize param ≤ TUNE_SIZE) := by
  rw [← endWord_inside_iff _ hlen, down, touched_ispParserDownHnadle]
  simp only [verifyWords, List.map_cons, List.map_nil, List.cons_append, List.nil_append,
    List.forall_mem_cons, List.not_mem_nil, false_implies, implies_true, and_true,
    Access.Inside]
  by_cases hall : SetsAll param
  · rw [if_pos hall]
    constructor
    · rintro ⟨-, -, hthree, hend, htune⟩
      exact ⟨hthree, hend, fun _ => htune⟩
    · rintro ⟨hthree, hend, htune⟩
      exact ⟨by omega, by omega, hthree, hend, htune hall⟩
  · rw [if_neg hall]
    constructor
    · rintro ⟨-, -, hthree, hend, -⟩
      exact ⟨hthree, hend, fun h => absurd h hall⟩
    · rintro ⟨hthree, hend, -⟩
      exact ⟨by omega, by omega, hthree, hend, Nat.zero_le _⟩

theorem not_down_inParam_inside (e : Surroundings) (param : Memory) (cnt len : ℕ) :
    ¬ ∀ a ∈ down e .inParam param, a.Inside cnt len := by
  intro h
  exact h (.verify .inParam 0) (List.mem_append_left _ (List.mem_cons_self ..))

theorem caseOf_copies {subtype : UInt8} (h : caseOf subtype = some c)
    (hsource : c.source = .copy) : c.copies = true := by
  unfold caseOf at h
  split_ifs at h <;> obtain rfl := Option.some.inj h <;> first | rfl | cases hsource

theorem packetAccesses_inside_iff {subtype : UInt8} (hc : caseOf subtype = some c) :
    (∀ a ∈ packetAccesses e c buf,
        a.Inside cnt (ispvideoGetIspParamLenFromSt buf).toNat) ↔
      c.source = .copy ∧ PacketFits e buf cnt := by
  have hlen := (ispvideoGetIspParamLenFromSt buf).toNat_lt
  rw [packetAccesses]
  cases hsource : c.source with
  | copy =>
      have hreceived : (Access.received 9 (ispvideoGetIspParamLenFromSt buf).toNat).Inside cnt
          (ispvideoGetIspParamLenFromSt buf).toNat ↔
            9 + (ispvideoGetIspParamLenFromSt buf).toNat ≤ cnt := Iff.rfl
      rw [caseOf_copies hc hsource, if_pos rfl, if_pos rfl, List.forall_mem_append,
        down_copy_inside_iff e _ cnt hlen, List.forall_mem_singleton, hreceived]
      constructor
      · rintro ⟨hreceived, hhead, ⟨hsize, hinside⟩, hsets⟩
        exact ⟨rfl, hreceived, hhead, hsize, hinside, hsets⟩
      · rintro ⟨-, h⟩
        exact ⟨h.received, h.head, ⟨h.size, h.inside⟩, h.sets⟩
  | inParam =>
      refine iff_of_false (fun h => ?_) fun h => absurd h.1 (by decide)
      exact not_down_inParam_inside e _ cnt _ fun a ha => h a (List.mem_append_right _ ha)

theorem logWords_ended_of_fits (h : LogFits buf cnt) :
    (logWords (ispvideoGetIspParamLenFromSt buf) 64 0 9).2 = true := by
  have hlong := h.1
  have hzero : (0 : UInt8).toNat = 0 := rfl
  exact logWords_ended 9 (j := 63) (by omega) (by rw [hzero]; omega)

theorem caseAccesses_inside_iff {subtype : UInt8} (hcnt : msgHeadSize + 2 ≤ cnt)
    (hc : caseOf subtype = some c) :
    (∀ turns, ∀ a ∈ (caseAccesses e c buf turns).1,
        a.Inside cnt (ispvideoGetIspParamLenFromSt buf).toNat) ↔
      (c.logs = true → LogFits buf cnt) ∧
        (ispvideoGetIspParamLenFromSt buf ≠ 0 → e.alloc = true →
          c.source = .copy ∧ PacketFits e buf cnt) := by
  have hhead : msgHeadSize = 8 := rfl
  have hlen : (Access.received 5 2).Inside cnt (ispvideoGetIspParamLenFromSt buf).toNat := by
    change 5 + 2 ≤ cnt
    omega
  rw [← packetAccesses_inside_iff hc]
  cases hlogs : c.logs with
  | true =>
      simp only [caseAccesses, hlogs, if_true, List.cons_append, List.forall_mem_cons, hlen,
        true_and, List.forall_mem_append, forall_const]
      rw [← log_inside_iff hcnt (ispvideoGetIspParamLenFromSt buf).toNat]
      constructor
      · intro h
        have hlog := fun turns => (h turns).1
        have hended := logWords_ended_of_fits ((log_inside_iff hcnt _).mp hlog)
        refine ⟨hlog, fun hne halloc => ?_⟩
        have hpacket := (h 64).2
        rwa [if_pos ⟨hended, hne, halloc⟩] at hpacket
      · rintro ⟨hlog, hpacket⟩ turns
        refine ⟨hlog turns, ?_⟩
        split_ifs with hcase
        · exact hpacket hcase.2.1 hcase.2.2
        · exact List.forall_mem_nil _
  | false =>
      simp only [caseAccesses, hlogs, Bool.false_eq_true, if_false, List.cons_append,
        List.nil_append, List.forall_mem_cons, hlen, true_and, forall_const, false_implies]
      constructor
      · intro h hne halloc
        rwa [if_pos ⟨hne, halloc⟩] at h
      · intro h
        split_ifs with hcase
        · exact h hcase.1 hcase.2
        · exact List.forall_mem_nil _

theorem imageAccesses_inside (hcnt : msgHeadSize + 2 ≤ cnt) (subtype : UInt8) (len : ℕ) :
    ∀ a ∈ imageAccesses subtype, a.Inside cnt len := by
  have hhead : msgHeadSize = 8 := rfl
  rw [imageAccesses]
  split_ifs
  · rw [List.forall_mem_singleton]
    change 9 + 1 ≤ cnt
    omega
  · exact List.forall_mem_nil _

theorem head_inside (hcnt : msgHeadSize + 2 ≤ cnt) (len : ℕ) :
    ∀ a ∈ [Access.received 7 1, .received 0 9, .received 8 1], a.Inside cnt len := by
  have hhead : msgHeadSize = 8 := rfl
  simp only [List.forall_mem_cons, Access.Inside, List.not_mem_nil, false_implies,
    implies_true, and_true]
  omega

/-- A request stays inside exactly if what it does with its packet fits. -/
theorem staysInside_iff_fits (e : Surroundings) (buf : Memory) (cnt : ℕ) :
    StaysInside e buf cnt ↔ Fits e buf cnt := by
  rw [StaysInside, Fits]
  by_cases hcnt : msgHeadSize + 2 ≤ cnt
  · by_cases htype : buf 7 = 0xfe
    · cases hcase : caseOf (buf 8) with
      | none =>
          refine iff_of_true (fun turns => ?_) fun _ _ c hc => ?_
          · rw [accesses, if_neg (Nat.not_lt.mpr hcnt), if_neg (not_not.mpr htype), hcase]
            exact List.forall_mem_append.mpr
              ⟨head_inside hcnt _, imageAccesses_inside hcnt (buf 8) _⟩
          · cases hc
      | some c =>
          have hinside := @caseAccesses_inside_iff e buf cnt c _ hcnt hcase
          have haccesses : ∀ turns, accesses e buf cnt turns =
              [.received 7 1, .received 0 9, .received 8 1] ++
                ((caseAccesses e c buf turns).1 ++
                  if (caseAccesses e c buf turns).2 then imageAccesses (buf 8) else []) := by
            intro turns
            rw [accesses, if_neg (Nat.not_lt.mpr hcnt), if_neg (not_not.mpr htype), hcase]
          simp only [haccesses, List.forall_mem_append]
          constructor
          · intro h _ _ c' hc'
            obtain rfl : c = c' := Option.some.inj hc'
            exact hinside.mp fun turns => (h turns).2.1
          · intro h turns
            refine ⟨head_inside hcnt _, hinside.mpr (h hcnt htype c rfl) turns, ?_⟩
            split_ifs
            · exact imageAccesses_inside hcnt (buf 8) _
            · exact List.forall_mem_nil _
    · refine iff_of_true (fun turns => ?_) fun _ h => absurd h htype
      have hhead : msgHeadSize = 8 := rfl
      rw [accesses, if_neg (Nat.not_lt.mpr hcnt), if_pos htype, List.forall_mem_singleton]
      change 7 + 1 ≤ cnt
      omega
  · refine iff_of_true (fun turns => ?_) fun h => absurd h hcnt
    rw [accesses, if_pos (Nat.not_le.mp hcnt)]
    exact List.forall_mem_nil _

def requestOf (head : MsgHead) (words : List UInt32) : Memory := fun i =>
  (0x7e :: (head.bytes ++ words.flatMap bytes32 ++ [0x7e])).getD i 0

def zeroSurroundings : Surroundings where
  alloc := true
  heap := fun _ => 0
  stack := fun _ => 0
  sensor := ⟨ISP_VERSION_0000_ID, fun _ => 0, 0⟩

/-- Of a head alone that says 0xffff bytes, 65527 are copied; and a whole packet of 40 bytes
with both ids writes 65519 bytes to the tuning structure. -/
theorem leaves_the_buffers :
    (¬ StaysInside zeroSurroundings (requestOf ⟨0, 0xffff, 0xfe, CMD_WRITE_ISP_PARAM⟩ []) 10) ∧
      ¬ StaysInside zeroSurroundings
        (requestOf ⟨0, 48, 0xfe, CMD_WRITE_ISP_PARAM⟩
          [ISP_PACKET_VERIFY_ID, ISP_TYPE_PARAM, 40, ISP_VERSION_0000_ID, ISP_PACKET_ALL, 0, 0, 0,
            0xffff, ISP_PACKET_END_ID]) 50 := by
  constructor
  · intro h
    exact absurd (h 0 (.received 9 65527) (by decide)) (by rw [Access.Inside]; omega)
  · intro h
    have hsize := TUNE_SIZE_eq
    exact absurd (h 0 (.tune 65519) (by decide)) (by rw [Access.Inside]; omega)

end IspVideo

end Tarako
