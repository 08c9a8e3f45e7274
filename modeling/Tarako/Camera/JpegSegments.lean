import Tarako.Camera.JpegHead
import Tarako.Lib.Memory

/-!
# The lengths of the segments

Each segment of a header declares its length in its first two bytes. `Exact` says that a handler
has consumed exactly that, `AfterSegments` where a search for a marker may begin then, and
`HeaderEnd` where the header ends. `segments_exact_iff` says when the parser does all of this:
`GetAPP0` leaves the bytes of a short segment behind, `GetQuantTbl` takes every precision but 0
for 16 bits, and `get_header_len` leaves out a zero behind 0xFF in the last bytes.
-/

namespace Tarako

namespace JpegParse

open Prog

/-! ## What a segment declares -/

def declared : List UInt8 → ℕ
  | hi :: lo :: _ => word hi lo
  | _ => 0

/-- The parser has consumed `n` bytes of the stream. -/
def Took (n : ℕ) (s t : State) : Prop := n ≤ s.bytes.length ∧ t.bytes = s.bytes.drop n

/-- The parser has consumed the segment that starts at `s`. -/
def Exact (s t : State) : Prop := Took (declared s.bytes) s t

inductive Handler
  | sof (isProgressive : Bool)
  | sos
  | dri
  | app0
  | huffTbl
  | quantTbl
  | skipped
  deriving DecidableEq, Repr

def Handler.run : Handler → M Unit
  | .sof isProgressive => getSOF isProgressive
  | .sos => getSOS
  | .dri => getDRI
  | .app0 => getAPP0
  | .huffTbl => getHuffTbl
  | .quantTbl => getQuantTbl
  | .skipped => skipVariable

def handlerOf (c : UInt8) : Option Handler :=
  match segmentOf c with
  | .sof isProgressive => some (.sof isProgressive)
  | .leave => if c = M_SOS then some .sos else none
  | .dht => some .huffTbl
  | .dqt => some .quantTbl
  | .app0 => some .app0
  | .dri => some .dri
  | .unexpected => none
  | .skipped => some .skipped

/-- The precisions of the tables of a DQT, with `length` bytes of it left. -/
def precisions : ℕ → ℕ → List UInt8 → List ℕ
  | 0, _, _ => []
  | _ + 1, _, [] => []
  | n + 1, length, c :: r =>
      if length = 0 then []
      else
        let prec := c.toNat / 16
        prec :: precisions n (length - (64 + 1 + 64 * prec)) (r.drop (64 * entrySize prec))

/-- The segments whose length the handler accounts for, by their bytes. -/
def Handler.Regular : Handler → List UInt8 → Prop
  | .app0, b => declared b = 2 ∨ 16 ≤ declared b
  | .quantTbl, b => ∀ prec ∈ precisions (declared b + 1) (declared b - 2) (b.drop 2), prec ≤ 1
  | _, _ => True

/-! ## The frame of a header -/

/-- The next marker of a stream, behind a byte 0xFF if `ff` holds, and what follows it. -/
def nextMarker : Bool → List UInt8 → Option (UInt8 × List UInt8)
  | _, [] => none
  | ff, c :: r =>
      if c = 0xFF then nextMarker true r
      else if ff = true ∧ c ≠ 0 then some (c, r)
      else nextMarker false r

/-- `r` follows the first SOI of `b`. -/
inductive AfterSOI : List UInt8 → List UInt8 → Prop
  | found {b r : List UInt8} (h : nextMarker false b = some (M_SOI, r)) : AfterSOI b r
  | skip {b q r : List UInt8} {c : UInt8} (h : nextMarker false b = some (c, q))
      (hsoi : c ≠ M_SOI) (heoi : c ≠ M_EOI) (hr : AfterSOI q r) : AfterSOI b r

/-- `r` follows the first SOI of `b` or a complete segment behind it. -/
inductive AfterSegments (b : List UInt8) : List UInt8 → Prop
  | soi {r : List UInt8} (h : AfterSOI b r) : AfterSegments b r
  | segment {p q : List UInt8} {c : UInt8} (h : AfterSegments b p)
      (hm : nextMarker false p = some (c, q)) (htwo : 2 ≤ declared q)
      (hlen : declared q ≤ q.length) : AfterSegments b (q.drop (declared q))

/-- `r` follows the SOS segment of `b`. -/
def HeaderEnd (b r : List UInt8) : Prop :=
  ∃ p q, AfterSegments b p ∧ nextMarker false p = some (M_SOS, q) ∧ 2 ≤ declared q ∧
    declared q ≤ q.length ∧ r = q.drop (declared q)

/-- How many bytes the parser has consumed from `s` to `t`. -/
def consumed (s t : State) : ℕ := s.bytes.length - t.bytes.length

/-- `s_header_len`: `get_char` counts each byte that it delivers. -/
def headerLen (s t : State) : UInt32 := UInt32.ofNat (consumed s t)

def unalignedByte (s_header_len : UInt32) : UInt32 :=
  s_header_len - (s_header_len >>> 2) <<< 2

/-- `get_header_len`, where the memory is `m` and `s_inter_buf_ptr - unligned_byte` is `ptr`. -/
def getHeaderLen (m : Memory) (ptr : ℕ) (s_header_len : UInt32) : UInt32 :=
  if 1 < unalignedByte s_header_len then
    (List.range (unalignedByte s_header_len).toNat).foldl
      (fun len i => if m (ptr + i) = 0xff ∧ m (ptr + i + 1) = 0 then len - 1 else len)
      s_header_len
  else s_header_len

/-- There is no zero behind 0xFF in the last bytes of a header of `n` bytes that make up no
whole word. -/
def Unstuffed (m : Memory) (ptr n : ℕ) : Prop :=
  1 < n % 4 → ∀ i < n % 4, ¬ (m (ptr + i) = 0xff ∧ m (ptr + i + 1) = 0)

/-- The parse of `s₀` comes to the handler in the state `s`, and it succeeds in `t`. -/
def Handles (s₀ : State) (h : Handler) (s t : State) : Prop :=
  ∃ u c, AtMarker s₀ u ∧ Yields getNextMarker u c s ∧ handlerOf c = some h ∧ Yields h.run s () t

/-- Every segment is consumed exactly, markers are searched only behind complete segments, and
the header length is the place behind the SOS segment. -/
structure Framed (m : Memory) (ptr : ℕ) (s₀ : State) : Prop where
  segments : ∀ h s t, Handles s₀ h s t → Exact s t
  markers : ∀ t, AtMarker s₀ t → AfterSegments s₀.bytes t.bytes
  header : ∀ t, Yields parseHead s₀ () t → HeaderEnd s₀.bytes t.bytes ∧
    (getHeaderLen m ptr (headerLen s₀ t)).toNat = consumed s₀ t

/-! ## What is consumed -/

theorem took_zero {s t : State} (h : t.bytes = s.bytes) : Took 0 s t :=
  ⟨Nat.zero_le _, by rw [h, List.drop_zero]⟩

theorem Took.trans {n k : ℕ} {s t u : State} (h : Took n s t) (h' : Took k t u) :
    Took (n + k) s u := by
  obtain ⟨hn, ht⟩ := h
  obtain ⟨hk, hu⟩ := h'
  rw [ht, List.length_drop] at hk
  exact ⟨by omega, by rw [hu, ht, List.drop_drop]⟩

theorem Took.unique {n k : ℕ} {s t : State} (h : Took n s t) (h' : Took k s t) : n = k := by
  have hlen : s.bytes.length - n = s.bytes.length - k := by
    rw [← List.length_drop, ← List.length_drop, ← h.2, ← h'.2]
  have hn := h.1
  have hk := h'.1
  omega

theorem took_bind {α β : Type} {n k : ℕ} {m : M α} {f : α → M β} (hm : Keeps (Took n) m)
    (hf : ∀ a, Keeps (Took k) (f a)) : Keeps (Took (k + n)) (m >>= f) := by
  refine keeps_comp (fun a b c h h' => ?_) hm hf
  rw [Nat.add_comm]
  exact h.trans h'

theorem took_stay {α β : Type} {k : ℕ} {m : M α} {f : α → M β} (hm : Keeps (Took 0) m)
    (hf : ∀ a, Keeps (Took k) (f a)) : Keeps (Took k) (m >>= f) := took_bind hm hf

theorem took_pure {α : Type} (a : α) : Keeps (Took 0) (pure a : M α) :=
  keeps_pure (fun _ => took_zero rfl) a

theorem took_get : Keeps (Took 0) (get : M State) := keeps_get fun _ => took_zero rfl

theorem took_modify {f : State → State} (h : ∀ s, (f s).bytes = s.bytes) :
    Keeps (Took 0) (modify f : M PUnit) :=
  keeps_modify fun s => took_zero (h s)

theorem took_check (e : Stop) (p : Prop) [Decidable p] : Keeps (Took 0) (check e p : M Unit) :=
  keeps_check (fun _ => took_zero rfl) e p

theorem took_of_check {α : Type} {k : ℕ} {e : Stop} {p : Prop} [Decidable p] {f : Unit → M α}
    (hf : p → Keeps (Took k) (f ())) : Keeps (Took k) (check e p >>= f) := by
  intro s a t h
  obtain ⟨_, u, hcheck, hrest⟩ := yields_bind.mp h
  obtain ⟨hp, rfl⟩ := yields_check.mp hcheck
  exact hf hp u a t hrest

theorem took_each {n : ℕ} {body : ℕ → M Unit} (h : ∀ i, Keeps (Took n) (body i)) (k i : ℕ) :
    Keeps (Took (k * n)) (each body k i) := by
  induction k generalizing i with
  | zero =>
      rw [Nat.zero_mul]
      exact took_pure ()
  | succ k ih =>
      rw [Nat.succ_mul]
      exact took_bind (h i) fun _ => ih (i + 1)

theorem took_getChar : Keeps (Took 1) getChar := by
  rw [keeps_iff_wp]
  intro s
  rw [wp_getChar]
  refine ⟨fun _ => trivial, fun c hc => ?_⟩
  rw [Took, hc]
  exact ⟨Nat.succ_le_succ (Nat.zero_le _), rfl⟩

theorem took_byte {α : Type} {k : ℕ} {f : UInt8 → M α} (hf : ∀ c, Keeps (Took k) (f c)) :
    Keeps (Took (k + 1)) (getChar >>= f) := took_bind took_getChar hf

theorem took_short {α : Type} {k : ℕ} {f : ℕ → M α} (hf : ∀ w, Keeps (Took k) (f w)) :
    Keeps (Took (k + 2)) (getShortWord >>= f) :=
  took_bind (took_byte fun _ => took_byte fun _ => took_pure _) hf

theorem took_of_wp {α : Type} {m : M α} (h : ∀ s, wp (fun _ => True) m (fun _ t => t = s) s) :
    Keeps (Took 0) m := by
  rw [keeps_iff_wp]
  refine fun s => wp_mono (h s) (fun _ he => he) fun _ t ht => ?_
  rw [ht]
  exact took_zero rfl

theorem took_fetch {α : Type} (l : List α) (i : ℕ) : Keeps (Took 0) (fetch l i) :=
  took_of_wp fun _ => by simp

theorem took_store {α : Type} {n : ℕ} (v : Vector α n) (i : ℕ) (x : α) :
    Keeps (Took 0) (store v i x) :=
  took_of_wp fun _ => by simp

theorem took_deref {α : Type} (p : Option α) : Keeps (Took 0) (deref p) :=
  took_of_wp fun _ => by simp

theorem took_extraMemAlloc {α : Type} (memSize : ℕ) (x : α) :
    Keeps (Took 0) (extraMemAlloc memSize x) :=
  took_stay took_get fun _ => took_stay (took_check _ _) fun _ =>
    took_stay (took_modify fun _ => rfl) fun _ => took_pure _

theorem took_fetchComp (ci : ℕ) : Keeps (Took 0) (fetchComp ci) :=
  took_stay took_get fun _ => took_stay (took_deref _) fun _ => took_fetch _ _

theorem took_updateComp (ci : ℕ) (f : Component → Component) :
    Keeps (Took 0) (updateComp ci f) :=
  took_stay took_get fun _ => took_stay (took_deref _) fun _ =>
    took_stay (took_fetch _ _) fun _ => took_modify fun _ => rfl

theorem took_updateTblMap (i : ℕ) (f : TblMap → TblMap) : Keeps (Took 0) (updateTblMap i f) :=
  took_stay took_get fun _ => took_stay (took_fetch _ _) fun _ =>
    took_stay (took_store _ _ _) fun _ => took_modify fun _ => rfl

/-! ## The components -/

theorem took_sofComponent (ci : ℕ) : Keeps (Took 3) (sofComponent ci) :=
  took_byte fun _ => took_stay (took_updateComp _ _) fun _ => took_stay (took_check _ _) fun _ =>
    took_byte fun _ => took_stay (took_updateComp _ _) fun _ => took_byte fun _ =>
      took_stay (took_check _ _) fun _ => took_updateTblMap _ _

theorem took_sofFormat (n : ℕ) : Keeps (Took 0) (sofFormat n) := by
  refine took_stay (took_fetchComp 0) fun comp => keeps_ite (took_modify fun _ => rfl) ?_
  cases mcuInfoOf (sampling comp) with
  | none => exact keeps_throw _
  | some info =>
      exact took_stay (took_modify fun _ => rfl) fun _ => took_stay (took_fetchComp 1) fun _ =>
        took_stay (took_check _ _) fun _ =>
          keeps_ite (took_stay (took_fetchComp 2) fun _ => took_check _ _) (took_pure _)

theorem took_sofComponents (n : ℕ) : Keeps (Took (n * 3)) (sofComponents n) := by
  refine took_stay (took_extraMemAlloc _ _) fun _ =>
    took_stay (took_modify fun _ => rfl) fun _ => ?_
  have h := took_bind (took_each took_sofComponent n 0) fun _ => took_sofFormat n
  rw [Nat.zero_add] at h
  exact h

theorem took_findComp (cc : UInt8) (k ci : ℕ) : Keeps (Took 0) (findComp cc k ci) := by
  induction k generalizing ci with
  | zero => exact took_pure _
  | succ k ih =>
      exact took_stay (took_fetchComp ci) fun _ => keeps_ite (took_pure _) (ih (ci + 1))

theorem took_sosComponent (i : ℕ) : Keeps (Took 2) (sosComponent i) :=
  took_byte fun _ => took_byte fun _ => took_stay (took_check _ _) fun _ =>
    took_stay (took_updateTblMap _ _) fun _ => took_stay took_get fun _ =>
      took_stay (took_findComp _ _ _) fun _ =>
        keeps_ite (took_stay (took_store _ _ _) fun _ => took_modify fun _ => rfl) (took_pure _)

theorem took_sosParameters : Keeps (Took 3) sosParameters :=
  took_byte fun _ => took_byte fun _ => took_stay (took_modify fun _ => rfl) fun _ =>
    took_byte fun _ => took_modify fun _ => rfl

/-! ## The handlers -/

theorem yields_segment {f : ℕ → M Unit} {s t : State}
    (h : Yields (getShortWord >>= f) s () t) :
    ∃ u, Took 2 s u ∧ Yields (f (declared s.bytes)) u () t := by
  obtain ⟨w, u, hw, hrest⟩ := yields_bind.mp h
  have hwp : wp (fun _ => True) getShortWord (fun w u => w = declared s.bytes ∧ Took 2 s u) s := by
    rw [wp_getShortWord]
    refine ⟨fun _ => trivial, fun hi lo hbytes => ?_⟩
    rw [Took, hbytes]
    exact ⟨rfl, Nat.le_add_left 2 _, rfl⟩
  obtain ⟨rfl, htook⟩ := (wp_of_yields hw).mp hwp
  exact ⟨u, htook, hrest⟩

/-- What a handler consumes, and when that is what the segment declares. -/
def Accounts (b : List UInt8) (regular : Prop) (s t : State) : Prop :=
  ∃ k, 2 ≤ k ∧ Took k s t ∧ (k = declared b ↔ regular)

theorem Accounts.exact_iff {p : Prop} {s t : State} (h : Accounts s.bytes p s t) :
    Exact s t ↔ p := by
  obtain ⟨k, -, htook, hiff⟩ := h
  rw [← hiff]
  constructor
  · exact htook.unique
  · rintro rfl
    exact htook

theorem Accounts.of_stay {α : Type} {m : M α} {f : α → M Unit} {p : Prop} {s t : State}
    (hm : Keeps (Took 0) m)
    (hf : ∀ a u, Yields (f a) u () t → u.bytes = s.bytes → Accounts u.bytes p u t)
    (h : Yields (m >>= f) s () t) : Accounts s.bytes p s t := by
  obtain ⟨a, u, hfirst, hrest⟩ := yields_bind.mp h
  have hbytes : u.bytes = s.bytes := (hm s a u hfirst).2
  obtain ⟨k, htwo, ⟨hk, ht⟩, hiff⟩ := hf a u hrest hbytes
  rw [hbytes] at hk ht hiff
  exact ⟨k, htwo, ⟨hk, ht⟩, hiff⟩

theorem accounts_of_took {f : ℕ → M Unit} {s t : State}
    (hf : ∀ length, Keeps (fun u v => 2 ≤ length ∧ Took (length - 2) u v) (f length))
    (h : Yields (getShortWord >>= f) s () t) : Accounts s.bytes True s t := by
  obtain ⟨u, hu, hrest⟩ := yields_segment h
  obtain ⟨htwo, ht⟩ := hf _ u () t hrest
  refine ⟨2 + (declared s.bytes - 2), by omega, hu.trans ht, iff_of_true ?_ trivial⟩
  omega

theorem keeps_of_check {p : Prop} [Decidable p] {length : ℕ} {m : M Unit} (htwo : p → 2 ≤ length)
    (hm : p → Keeps (Took (length - 2)) m) :
    Keeps (fun u v => 2 ≤ length ∧ Took (length - 2) u v) (check .failed p >>= fun _ => m) := by
  intro s a t h
  obtain ⟨_, u, hcheck, hrest⟩ := yields_bind.mp h
  obtain ⟨hp, rfl⟩ := yields_check.mp hcheck
  exact ⟨htwo hp, hm hp u a t hrest⟩

theorem accounts_getSOF (isProgressive : Bool) {s t : State}
    (h : Yields (getSOF isProgressive) s () t) : Accounts s.bytes True s t := by
  have hinput : Keeps (Took 0) (modify fun s =>
      s.setInput { s.input with progressiveMode := isProgressive } : M PUnit) :=
    took_modify fun _ => rfl
  refine Accounts.of_stay hinput (fun _ u hu _ => ?_) h
  refine accounts_of_took (fun length => keeps_of_check (fun hp => by omega) fun hp => ?_) hu
  have htotal : length - 2 = length - 8 + 1 + 2 + 2 + 1 := by omega
  rw [htotal]
  refine took_byte fun _ => took_stay (took_check _ _) fun _ => took_short fun _ =>
    took_short fun _ => took_stay (took_modify fun _ => rfl) fun _ => took_byte fun n =>
      took_of_check fun hlength => ?_
  have hrest : length - 8 = n.toNat * 3 := by omega
  rw [hrest]
  exact took_sofComponents n.toNat

theorem accounts_getSOS {s t : State} (h : Yields getSOS s () t) : Accounts s.bytes True s t := by
  refine accounts_of_took (fun length => keeps_of_check (fun hp => by omega) fun hp => ?_) h
  have htotal : length - 2 = length - 3 + 1 := by omega
  rw [htotal]
  refine took_byte fun n => took_of_check fun hlength => ?_
  rw [hlength, Nat.add_comm]
  exact took_stay (took_modify fun _ => rfl) fun _ =>
    took_bind (took_each took_sosComponent _ _) fun _ => took_sosParameters

theorem took_skipBytes (n : ℕ) : Keeps (Took n) (skipBytes n) := by
  have hbyte : ∀ _ : ℕ, Keeps (Took 1) (do let _ ← getChar) :=
    fun _ => took_byte fun _ => took_pure _
  have h := took_each hbyte n 0
  rw [Nat.mul_one] at h
  exact h

theorem accounts_skipVariable {s t : State} (h : Yields skipVariable s () t) :
    Accounts s.bytes True s t :=
  accounts_of_took (fun _ => keeps_of_check id fun _ => took_skipBytes _) h

theorem accounts_getDRI {s t : State} (h : Yields getDRI s () t) : Accounts s.bytes True s t := by
  refine accounts_of_took (fun length => keeps_of_check (fun hp => by omega) fun hp => ?_) h
  subst hp
  exact took_short fun _ => took_modify fun _ => rfl

theorem accounts_getAPP0 {s t : State} (h : Yields getAPP0 s () t) :
    Accounts s.bytes (declared s.bytes = 2 ∨ 16 ≤ declared s.bytes) s t := by
  obtain ⟨u, hu, hbody⟩ := yields_segment h
  obtain ⟨_, v, hcheck, hrest⟩ := yields_bind.mp hbody
  obtain ⟨htwo, rfl⟩ := yields_check.mp hcheck
  by_cases hlong : 14 ≤ declared s.bytes - 2
  · rw [if_pos hlong] at hrest
    have ht := took_bind (took_skipBytes 14) (fun _ => took_skipBytes _) _ _ _ hrest
    exact ⟨_, Nat.le_add_right 2 _, hu.trans ht, iff_of_true (by omega) (by omega)⟩
  · rw [if_neg hlong] at hrest
    obtain ⟨-, rfl⟩ := yields_pure.mp hrest
    exact ⟨2, Nat.le_refl 2, hu, by omega⟩

/-! ### Huffman tables -/

theorem took_updateHuffTbl (ac : Bool) (index : ℕ) {f : HuffTbl → M HuffTbl}
    (hf : ∀ tbl, Keeps (Took 0) (f tbl)) : Keeps (Took 0) (updateHuffTbl ac index f) :=
  took_stay took_get fun _ => took_stay (took_fetch _ _) fun _ => took_stay (hf _) fun _ =>
    took_stay (took_store _ _ _) fun _ => took_modify fun _ => by cases ac <;> rfl

theorem took_setBits (ac : Bool) (index i : ℕ) (c : UInt8) :
    Keeps (Took 0) (setBits ac index i c) :=
  took_updateHuffTbl ac index fun _ => took_stay (took_deref _) fun _ =>
    took_stay (took_store _ _ _) fun _ => took_pure _

theorem took_setHuffval (ac : Bool) (index i : ℕ) (c : UInt8) :
    Keeps (Took 0) (setHuffval ac index i c) :=
  took_updateHuffTbl ac index fun _ => took_stay (took_deref _) fun _ =>
    took_stay (took_store _ _ _) fun _ => took_pure _

theorem took_compareDefault (table : List UInt8) (i : ℕ) (c : UInt8) :
    Keeps (Took 0) (compareDefault table i c) :=
  took_stay (took_fetch _ _) fun _ => keeps_ite (took_modify fun _ => rfl) (took_pure _)

theorem took_readBits (ac : Bool) (index k i count : ℕ) :
    Keeps (Took k) (readBits ac index k i count) := by
  induction k generalizing i count with
  | zero => exact took_pure _
  | succ k ih =>
      exact took_byte fun _ => took_stay (took_setBits _ _ _ _) fun _ =>
        took_stay (took_compareDefault _ _ _) fun _ => ih _ _

theorem took_readHuffval (ac : Bool) (index i : ℕ) : Keeps (Took 1) (readHuffval ac index i) :=
  took_byte fun _ => took_stay (took_setHuffval _ _ _ _) fun _ => took_compareDefault _ _ _

theorem took_readTable {ac : Bool} {index count : ℕ} {s t : State}
    (h : Yields (readTable ac index) s count t) : Took (16 + count) s t := by
  obtain ⟨c, u, hbits, hbody⟩ := yields_bind.mp h
  obtain ⟨_, v, hcheck, hrest⟩ := yields_bind.mp hbody
  obtain ⟨-, rfl⟩ := yields_check.mp hcheck
  obtain ⟨_, w, hvals, hlast⟩ := yields_bind.mp hrest
  obtain ⟨rfl, rfl⟩ := yields_pure.mp hlast
  have htook := took_each (took_readHuffval ac index) count 0 v () t hvals
  rw [Nat.mul_one] at htook
  exact (took_readBits ac index 16 1 0 s count v hbits).trans htook

theorem took_huffTable {count : ℕ} {s t : State} (h : Yields huffTable s count t) :
    Took (1 + 16 + count) s t := by
  obtain ⟨c, u, hchar, hbody⟩ := yields_bind.mp h
  obtain ⟨_, v, hset, hrest⟩ := yields_bind.mp hbody
  have hstay := took_setBits _ _ _ _ u () v hset
  have htook := ((took_getChar s c u hchar).trans hstay).trans (took_readTable hrest)
  rw [Nat.add_zero, ← Nat.add_assoc] at htook
  exact htook

theorem took_huffLoop (n length : ℕ) : Keeps (Took length) (loop huffTurn .failed n length) := by
  induction n generalizing length with
  | zero => exact keeps_throw _
  | succ n ih =>
      intro s a t h
      obtain ⟨next, u, hturn, hrest⟩ := yields_bind.mp h
      by_cases hzero : length = 0
      · rw [huffTurn, if_pos hzero] at hturn
        obtain ⟨rfl, rfl⟩ := yields_pure.mp hturn
        obtain ⟨-, rfl⟩ := yields_pure.mp hrest
        rw [hzero]
        exact took_zero rfl
      · rw [huffTurn, if_neg hzero] at hturn
        obtain ⟨count, v, htable, hbody⟩ := yields_bind.mp hturn
        obtain ⟨_, w, hcheck, hlast⟩ := yields_bind.mp hbody
        obtain ⟨hle, rfl⟩ := yields_check.mp hcheck
        obtain ⟨rfl, rfl⟩ := yields_pure.mp hlast
        have htook := (took_huffTable htable).trans (ih _ u a t hrest)
        rw [Nat.add_sub_of_le hle] at htook
        exact htook

theorem took_allocHuffTbls : Keeps (Took 0) allocHuffTbls := by
  have htbl : ∀ i, Keeps (Took 0) (allocHuffTbl i) := fun i =>
    took_stay (took_extraMemAlloc _ _) fun _ => took_stay (took_extraMemAlloc _ _) fun _ =>
      took_stay (took_extraMemAlloc _ _) fun _ => took_stay (took_extraMemAlloc _ _) fun _ =>
        took_stay (took_updateHuffTbl _ _ fun _ => took_pure _) fun _ =>
          took_updateHuffTbl _ _ fun _ => took_pure _
  exact took_stay took_get fun _ => keeps_ite
    (took_stay (took_each htbl NUM_HUFF_TBLS 0) fun _ => took_modify fun _ => rfl) (took_pure _)

theorem accounts_getHuffTbl {s t : State} (h : Yields getHuffTbl s () t) :
    Accounts s.bytes True s t := by
  refine Accounts.of_stay took_allocHuffTbls (fun _ u hu _ => ?_) h
  exact accounts_of_took (fun _ => keeps_of_check id fun _ => took_huffLoop _ _) hu

/-! ### Quantization tables -/

theorem took_quantEntry (prec : ℕ) : Keeps (Took (entrySize prec)) (quantEntry prec) := by
  rw [quantEntry, entrySize]
  split_ifs
  · exact took_getChar
  · exact took_byte fun _ => took_getChar

theorem took_setQuant (n prec j : ℕ) : Keeps (Took (entrySize prec)) (setQuant n prec j) := by
  have h := took_bind (took_quantEntry prec) fun c =>
    took_stay took_get fun s => took_stay (took_fetch s.codec.quantTbl.toList n) fun ptr =>
      took_stay (took_deref ptr) fun quant => took_stay (took_fetch zigzagOrder j) fun k =>
        took_stay (took_store quant k c) fun quant =>
          took_stay (took_store s.codec.quantTbl n (some quant)) fun quantTbl =>
            took_modify (f := fun s => s.setCodec { s.codec with quantTbl }) fun _ => rfl
  rw [Nat.zero_add] at h
  exact h

theorem yields_getChar {c : UInt8} {s t : State} (h : Yields getChar s c t) :
    s.bytes = c :: t.bytes := by
  have hwp : wp (fun _ => True) getChar (fun c t => s.bytes = c :: t.bytes) s :=
    wp_getChar.mpr ⟨fun _ => trivial, fun _ hc => hc⟩
  exact (wp_of_yields h).mp hwp

theorem took_quantTable {n prec : ℕ} {s t : State} (h : Yields quantTable s (n, prec) t) :
    ∃ c r, s.bytes = c :: r ∧ prec = c.toNat / 16 ∧ Took (1 + 64 * entrySize prec) s t := by
  obtain ⟨c, u, hchar, hbody⟩ := yields_bind.mp h
  obtain ⟨_, u₁, hcheck, hbody⟩ := yields_bind.mp hbody
  obtain ⟨ptr, u₂, halloc, hbody⟩ := yields_bind.mp hbody
  obtain ⟨v, u₃, hget, hbody⟩ := yields_bind.mp hbody
  obtain ⟨tbl, u₄, hstore, hbody⟩ := yields_bind.mp hbody
  obtain ⟨_, u₅, hmodify, hbody⟩ := yields_bind.mp hbody
  obtain ⟨_, u₆, hvals, hlast⟩ := yields_bind.mp hbody
  obtain ⟨heq, rfl⟩ := yields_pure.mp hlast
  obtain ⟨rfl, rfl⟩ := Prod.mk.inj heq
  have hstay : Took 0 u u₅ :=
    ((((took_check _ _ _ _ _ hcheck).trans (took_extraMemAlloc _ _ _ _ _ halloc)).trans
      (took_get _ _ _ hget)).trans (took_store _ _ _ _ _ _ hstore)).trans
        (took_modify (f := fun s => s.setCodec { s.codec with quantTbl := tbl }) (fun _ => rfl)
          _ _ _ hmodify)
  have hall := took_each (took_setQuant (c.toNat % 16) (c.toNat / 16)) 64 0 u₅ () t hvals
  exact ⟨c, u.bytes, yields_getChar hchar, rfl,
    ((took_getChar s c u hchar).trans hstay).trans hall⟩

theorem entrySize_le (prec : ℕ) : entrySize prec ≤ 1 + prec := by
  rw [entrySize]
  split_ifs <;> omega

theorem entrySize_eq_iff (prec : ℕ) : entrySize prec = 1 + prec ↔ prec ≤ 1 := by
  rw [entrySize]
  split_ifs <;> omega

theorem precisions_zero (n : ℕ) (b : List UInt8) : precisions n 0 b = [] := by
  cases n with
  | zero => rfl
  | succ n =>
      cases b with
      | nil => rfl
      | cons c r => exact if_pos rfl

/-- The tables take at most what is left of the length, and all of it if the precisions are
those of the format. -/
theorem took_quantLoop {n length : ℕ} {two r : Bool} {s t : State}
    (h : Yields (loop quantTurn .failed n (length, two)) s r t) :
    ∃ k ≤ length, Took k s t ∧ (k = length ↔ ∀ prec ∈ precisions n length s.bytes, prec ≤ 1) := by
  induction n generalizing length two s with
  | zero => exact absurd h not_yields_throw
  | succ n ih =>
      obtain ⟨next, u, hturn, hrest⟩ := yields_bind.mp h
      by_cases hzero : length = 0
      · rw [quantTurn, if_pos hzero] at hturn
        obtain ⟨rfl, rfl⟩ := yields_pure.mp hturn
        obtain ⟨-, rfl⟩ := yields_pure.mp hrest
        refine ⟨0, Nat.zero_le _, took_zero rfl, iff_of_true hzero.symm ?_⟩
        rw [hzero, precisions_zero]
        exact List.forall_mem_nil _
      · rw [quantTurn, if_neg hzero] at hturn
        obtain ⟨⟨table, prec⟩, v, htable, hbody⟩ := yields_bind.mp hturn
        obtain ⟨_, w, hcheck, hlast⟩ := yields_bind.mp hbody
        obtain ⟨hle, rfl⟩ := yields_check.mp hcheck
        obtain ⟨rfl, rfl⟩ := yields_pure.mp hlast
        obtain ⟨c, r, hbytes, rfl, htook⟩ := took_quantTable htable
        obtain ⟨k, hk, hrun, hiff⟩ := ih hrest
        have hsize := entrySize_le (c.toNat / 16)
        have hdrop : u.bytes = r.drop (64 * entrySize (c.toNat / 16)) := by
          rw [htook.2, hbytes, Nat.add_comm, List.drop_succ_cons]
        rw [hdrop] at hiff
        refine ⟨1 + 64 * entrySize (c.toNat / 16) + k, ?_, htook.trans hrun, ?_⟩
        · simp only at hle hk
          omega
        · rw [hbytes, precisions, if_neg hzero, List.forall_mem_cons, ← hiff, ← entrySize_eq_iff]
          simp only at hle hk ⊢
          omega

theorem took_compareQuant (j : ℕ) : Keeps (Took 0) (compareQuant j) :=
  took_stay took_get fun _ => took_stay (took_fetch _ _) fun _ => took_stay (took_fetch _ _)
    fun _ => took_stay (took_deref _) fun _ => took_stay (took_deref _) fun _ =>
      took_stay (took_fetch _ _) fun _ => took_stay (took_fetch _ _) fun _ => took_check _ _

theorem accounts_getQuantTbl {s t : State} (h : Yields getQuantTbl s () t) :
    Accounts s.bytes (Handler.Regular .quantTbl s.bytes) s t := by
  have hcodec : Keeps (Took 0) (modify fun s =>
      s.setCodec { s.codec with usingDefaultQuantTab := false } : M PUnit) :=
    took_modify fun _ => rfl
  refine Accounts.of_stay hcodec (fun _ u hu hbytes => ?_) h
  rw [← hbytes]
  obtain ⟨v, hv, hbody⟩ := yields_segment hu
  obtain ⟨_, v', hcheck, hrest⟩ := yields_bind.mp hbody
  obtain ⟨htwo, rfl⟩ := yields_check.mp hcheck
  obtain ⟨two, w, hloop, hcompare⟩ := yields_bind.mp hrest
  obtain ⟨k, hk, hrun, hiff⟩ := took_quantLoop hloop
  have hlast : Keeps (Took 0) (if two = true then each compareQuant 64 0 else pure ()) :=
    keeps_ite (took_each took_compareQuant 64 0) (took_pure _)
  rw [hv.2] at hiff
  refine ⟨2 + k, Nat.le_add_right 2 k, (hv.trans hrun).trans (hlast w () t hcompare), ?_⟩
  rw [Handler.Regular, ← hiff]
  omega

/-- What each handler consumes: at least the length, and exactly what it declares if it
accounts for the segment. -/
theorem Handler.accounts {h : Handler} {s t : State} (hrun : Yields h.run s () t) :
    Accounts s.bytes (h.Regular s.bytes) s t := by
  cases h with
  | sof isProgressive => exact accounts_getSOF isProgressive hrun
  | sos => exact accounts_getSOS hrun
  | dri => exact accounts_getDRI hrun
  | app0 => exact accounts_getAPP0 hrun
  | huffTbl => exact accounts_getHuffTbl hrun
  | quantTbl => exact accounts_getQuantTbl hrun
  | skipped => exact accounts_skipVariable hrun

theorem Handler.exact_iff {h : Handler} {s t : State} (hrun : Yields h.run s () t) :
    Exact s t ↔ h.Regular s.bytes :=
  (Handler.accounts hrun).exact_iff

theorem complete_of_exact {h : Handler} {s t : State} (hrun : Yields h.run s () t)
    (hexact : Exact s t) : 2 ≤ declared s.bytes := by
  obtain ⟨k, htwo, htook, -⟩ := Handler.accounts hrun
  rw [← htook.unique hexact]
  exact htwo

/-! ## Markers -/

theorem nextMarker_of_loop {n : ℕ} {ff : Bool} {c : UInt8} {s t : State}
    (h : Yields (loop markerTurn .failed n ff) s c t) :
    nextMarker ff s.bytes = some (c, t.bytes) := by
  induction n generalizing ff s with
  | zero => exact absurd h not_yields_throw
  | succ n ih =>
      obtain ⟨next, u, hturn, hrest⟩ := yields_bind.mp h
      obtain ⟨b, v, hchar, hbody⟩ := yields_bind.mp hturn
      rw [yields_getChar hchar, nextMarker]
      by_cases hff : b = 0xFF
      · rw [if_pos hff] at hbody ⊢
        obtain ⟨rfl, rfl⟩ := yields_pure.mp hbody
        exact ih hrest
      · rw [if_neg hff] at hbody ⊢
        by_cases hmarker : ff = true ∧ b ≠ 0
        · rw [if_pos hmarker] at hbody ⊢
          obtain ⟨rfl, rfl⟩ := yields_pure.mp hbody
          obtain ⟨rfl, rfl⟩ := yields_pure.mp hrest
          rfl
        · rw [if_neg hmarker] at hbody ⊢
          obtain ⟨rfl, rfl⟩ := yields_pure.mp hbody
          exact ih hrest

theorem nextMarker_of_yields {c : UInt8} {s t : State} (h : Yields getNextMarker s c t) :
    nextMarker false s.bytes = some (c, t.bytes) := by
  obtain ⟨u, v, hget, hloop⟩ := yields_bind.mp h
  cases hget
  exact nextMarker_of_loop hloop

theorem afterSOI_of_loop {n : ℕ} {s t : State}
    (h : Yields (loop soiTurn .failed n ()) s () t) : AfterSOI s.bytes t.bytes := by
  induction n generalizing s with
  | zero => exact absurd h not_yields_throw
  | succ n ih =>
      obtain ⟨next, u, hturn, hrest⟩ := yields_bind.mp h
      obtain ⟨c, v, hmarker, hbody⟩ := yields_bind.mp hturn
      obtain ⟨_, w, hcheck, hlast⟩ := yields_bind.mp hbody
      obtain ⟨heoi, rfl⟩ := yields_check.mp hcheck
      have hnext := nextMarker_of_yields hmarker
      by_cases hsoi : c = M_SOI
      · rw [if_pos hsoi] at hlast
        obtain ⟨rfl, rfl⟩ := yields_pure.mp hlast
        obtain ⟨-, rfl⟩ := yields_pure.mp hrest
        rw [hsoi] at hnext
        exact .found hnext
      · rw [if_neg hsoi] at hlast
        obtain ⟨rfl, rfl⟩ := yields_pure.mp hlast
        exact .skip hnext hsoi heoi (ih hrest)

theorem afterSOI_of_yields {s t : State} (h : Yields findSOI s () t) :
    AfterSOI s.bytes t.bytes := by
  obtain ⟨u, v, hget, hloop⟩ := yields_bind.mp h
  cases hget
  exact afterSOI_of_loop hloop

/-- A turn of `ProcessTables` that goes on has called the handler of a marker. -/
theorem yields_tablesTurn {s t : State} {a : Unit ⊕ UInt8} (h : Yields (tablesTurn ()) s a t) :
    ∃ c u, Yields getNextMarker s c u ∧
      ((∃ f, a = .inl () ∧ handlerOf c = some f ∧ Yields f.run u () t) ∨ a = .inr c ∧ t = u) := by
  obtain ⟨c, u, hmarker, hbody⟩ := yields_bind.mp h
  refine ⟨c, u, hmarker, ?_⟩
  have hrun : ∀ {m : M Unit}, Yields (m >>= fun _ => pure (.inl () : Unit ⊕ UInt8)) u a t →
      a = .inl () ∧ Yields m u () t := by
    intro m hm
    obtain ⟨_, v, hfirst, hlast⟩ := yields_bind.mp hm
    obtain ⟨rfl, rfl⟩ := yields_pure.mp hlast
    exact ⟨rfl, hfirst⟩
  rw [handlerOf]
  cases hsegment : segmentOf c with
  | leave =>
      rw [hsegment] at hbody
      exact Or.inr (yields_pure.mp hbody)
  | unexpected =>
      rw [hsegment] at hbody
      exact absurd hbody not_yields_throw
  | sof isProgressive =>
      rw [hsegment] at hbody
      obtain ⟨ha, hm⟩ := hrun hbody
      exact Or.inl ⟨.sof isProgressive, ha, rfl, hm⟩
  | dht =>
      rw [hsegment] at hbody
      obtain ⟨ha, hm⟩ := hrun hbody
      exact Or.inl ⟨.huffTbl, ha, rfl, hm⟩
  | dqt =>
      rw [hsegment] at hbody
      obtain ⟨ha, hm⟩ := hrun hbody
      exact Or.inl ⟨.quantTbl, ha, rfl, hm⟩
  | app0 =>
      rw [hsegment] at hbody
      obtain ⟨ha, hm⟩ := hrun hbody
      exact Or.inl ⟨.app0, ha, rfl, hm⟩
  | dri =>
      rw [hsegment] at hbody
      obtain ⟨ha, hm⟩ := hrun hbody
      exact Or.inl ⟨.dri, ha, rfl, hm⟩
  | skipped =>
      rw [hsegment] at hbody
      obtain ⟨ha, hm⟩ := hrun hbody
      exact Or.inl ⟨.skipped, ha, rfl, hm⟩

theorem yields_parseHead {s₀ t : State} (h : Yields parseHead s₀ () t) :
    ∃ u v, AtMarker s₀ u ∧ Yields getNextMarker u M_SOS v ∧ Yields getSOS v () t := by
  obtain ⟨_, s, hsoi, hbody⟩ := yields_bind.mp h
  obtain ⟨c, v, htables, hlast⟩ := yields_bind.mp hbody
  obtain ⟨s', v', hget, hloop⟩ := yields_bind.mp htables
  cases hget
  obtain ⟨⟨_, u⟩, hcomes, hturn⟩ := exists_comes_of_yields hloop
  obtain ⟨c', w, hmarker, ⟨f, hinl, -⟩ | ⟨hinr, rfl⟩⟩ := yields_tablesTurn hturn
  · cases hinl
  · cases hinr
    by_cases hsos : c = M_SOS
    · rw [if_pos hsos] at hlast
      rw [hsos] at hmarker
      exact ⟨u, v, ⟨s, hsoi, hcomes⟩, hmarker, hlast⟩
    · rw [if_neg hsos] at hlast
      exact absurd hlast not_yields_throw

theorem afterSegments_of_atMarker {s₀ t : State}
    (hexact : ∀ h s t, Handles s₀ h s t → Exact s t) (h : AtMarker s₀ t) :
    AfterSegments s₀.bytes t.bytes := by
  obtain ⟨u, hu, hcomes⟩ := h
  generalize hy : ((), t) = y at hcomes
  have hall : AfterSegments s₀.bytes y.2.bytes := by
    clear hy
    induction hcomes with
    | refl => exact .soi (afterSOI_of_yields hu)
    | @tail x y hpath hturn ih =>
        obtain ⟨c, v, hmarker, ⟨f, -, hhandler, hrun⟩ | ⟨hinr, -⟩⟩ := yields_tablesTurn hturn
        · have htook := hexact f v y.2 ⟨x.2, c, ⟨u, hu, hpath⟩, hmarker, hhandler, hrun⟩
          rw [htook.2]
          exact .segment ih (nextMarker_of_yields hmarker) (complete_of_exact hrun htook) htook.1
        · cases hinr
  rw [← hy] at hall
  exact hall

/-! ## The header length -/

theorem toNat_unalignedByte (n : ℕ) : (unalignedByte (UInt32.ofNat n)).toNat = n % 4 := by
  have hword : (UInt32.ofNat n).toNat = n % 2 ^ 32 := UInt32.toNat_ofNat'
  have hshift : (((UInt32.ofNat n) >>> 2) <<< 2).toNat = n % 2 ^ 32 / 4 * 4 := by
    rw [UInt32.toNat_shiftLeft, UInt32.toNat_shiftRight, hword, Nat.shiftLeft_eq,
      Nat.shiftRight_eq_div_pow]
    simp only [UInt32.reduceToNat, Nat.reduceMod, Nat.reducePow]
    omega
  rw [unalignedByte, UInt32.toNat_sub, hshift, hword]
  omega

theorem foldl_hits (p : ℕ → Prop) [DecidablePred p] (l : List ℕ) (len : UInt32) :
    l.foldl (fun len i => if p i then len - 1 else len) len =
      len - UInt32.ofNat (l.countP fun i => p i) := by
  induction l generalizing len with
  | nil => simp
  | cons i l ih =>
      rw [List.foldl_cons, ih, List.countP_cons]
      by_cases hp : p i
      · rw [if_pos hp, if_pos (decide_eq_true hp), UInt32.ofNat_add]
        grind
      · rw [if_neg hp, if_neg (by simpa using hp), Nat.add_zero]

theorem toNat_getHeaderLen_iff (m : Memory) (ptr n : ℕ) :
    (getHeaderLen m ptr (UInt32.ofNat n)).toNat = n ↔ n < 2 ^ 32 ∧ Unstuffed m ptr n := by
  have hcast : (UInt32.ofNat n).toNat = n % 2 ^ 32 := UInt32.toNat_ofNat'
  have hone : 1 < unalignedByte (UInt32.ofNat n) ↔ 1 < n % 4 := by
    rw [UInt32.lt_iff_toNat_lt, toNat_unalignedByte]
    exact Iff.rfl
  rw [getHeaderLen, Unstuffed]
  by_cases htail : 1 < n % 4
  · rw [if_pos (hone.mpr htail), foldl_hits, toNat_unalignedByte, UInt32.toNat_sub, hcast]
    generalize hk : (List.range (n % 4)).countP _ = k
    have hle : k ≤ n % 4 := by
      have hcount := List.countP_le_length (p := fun i =>
        decide (m (ptr + i) = 0xff ∧ m (ptr + i + 1) = 0)) (l := List.range (n % 4))
      rw [hk, List.length_range] at hcount
      exact hcount
    have hzero : k = 0 ↔ ∀ i < n % 4, ¬ (m (ptr + i) = 0xff ∧ m (ptr + i + 1) = 0) := by
      rw [← hk, List.countP_eq_zero]
      simp only [List.mem_range, decide_eq_true_eq]
    have hkcast : (UInt32.ofNat k).toNat = k :=
      UInt32.toNat_ofNat_of_lt' (show k < 2 ^ 32 by omega)
    rw [hkcast, forall_prop_of_true htail, ← hzero]
    omega
  · rw [if_neg (fun h => htail (hone.mp h)), hcast]
    constructor
    · exact fun h => ⟨by omega, fun h' => absurd h' htail⟩
    · rintro ⟨hlt, -⟩
      exact Nat.mod_eq_of_lt hlt

/-! ## The whole parse -/

theorem Framed.regular {m : Memory} {ptr : ℕ} {s₀ : State} (hframed : Framed m ptr s₀)
    {h : Handler} {s t : State} (hcall : Handles s₀ h s t) : h.Regular s.bytes := by
  have hexact := hframed.segments h s t hcall
  obtain ⟨u, c, -, -, -, hrun⟩ := hcall
  exact (Handler.exact_iff hrun).mp hexact

theorem framed_of_regular {m : Memory} {ptr : ℕ} {s₀ : State}
    (hregular : ∀ h s t, Handles s₀ h s t → h.Regular s.bytes)
    (hheader : ∀ t, Yields parseHead s₀ () t →
      consumed s₀ t < 2 ^ 32 ∧ Unstuffed m ptr (consumed s₀ t)) : Framed m ptr s₀ := by
  have hexact : ∀ h s t, Handles s₀ h s t → Exact s t := by
    intro h s t hcall
    have hreg := hregular h s t hcall
    obtain ⟨u, c, -, -, -, hrun⟩ := hcall
    exact (Handler.exact_iff hrun).mpr hreg
  have hmarkers : ∀ t, AtMarker s₀ t → AfterSegments s₀.bytes t.bytes :=
    fun t ht => afterSegments_of_atMarker hexact ht
  refine ⟨hexact, hmarkers, fun t ht => ⟨?_, ?_⟩⟩
  · obtain ⟨u, v, hu, hmarker, hsos⟩ := yields_parseHead ht
    have htook := hexact .sos v t ⟨u, M_SOS, hu, hmarker, rfl, hsos⟩
    have htwo := complete_of_exact (h := .sos) hsos htook
    exact ⟨u.bytes, v.bytes, hmarkers u hu, nextMarker_of_yields hmarker, htwo, htook.1, htook.2⟩
  · exact (toNat_getHeaderLen_iff m ptr (consumed s₀ t)).mpr (hheader t ht)

/-- A handler that succeeds consumes what its segment declares exactly when it accounts for the
segment; and a parse frames its segments and reports the place behind the SOS exactly when this
holds of every segment that it comes to, and `get_header_len` has nothing to leave out. -/
theorem segments_exact_iff (m : Memory) (ptr : ℕ) (stream : Stream) (poolSize : ℕ)
    (asserts : Bool) :
    (∀ (h : Handler) (s t : State), Yields h.run s () t → (Exact s t ↔ h.Regular s.bytes)) ∧
      (Framed m ptr (start stream poolSize asserts) ↔
        (∀ h s t, Handles (start stream poolSize asserts) h s t → h.Regular s.bytes) ∧
          ∀ t, Yields parseHead (start stream poolSize asserts) () t →
            consumed (start stream poolSize asserts) t < 2 ^ 32 ∧
              Unstuffed m ptr (consumed (start stream poolSize asserts) t)) := by
  refine ⟨fun h s t hrun => Handler.exact_iff hrun, ?_⟩
  constructor
  · intro hframed
    refine ⟨fun h s t => hframed.regular, fun t ht => ?_⟩
    exact (toNat_getHeaderLen_iff m ptr _).mp (hframed.header t ht).2
  · rintro ⟨hregular, hheader⟩
    exact framed_of_regular hregular hheader

def shortAPP0 : Stream :=
  ⟨[0xff, 0xd8, 0xff, 0xe0, 0, 8, 0xff, 0xdd, 0, 4, 0, 7, 0xff, 0xda, 0, 8, 1, 1, 0, 0, 63, 0],
    false, []⟩

theorem not_framed_shortAPP0 : ¬ ∀ (m : Memory) (ptr : ℕ) (stream : Stream) (poolSize : ℕ)
    (asserts : Bool), Framed m ptr (start stream poolSize asserts) := by
  intro hall
  have hframed := hall (fun _ => 0) 0 shortAPP0 20000 false
  have hsoi : Yields findSOI (start shortAPP0 20000 false) ()
      (start shortAPP0 20000 false).next.next := rfl
  have hmarker : Yields getNextMarker (start shortAPP0 20000 false).next.next 0xe0
      (start shortAPP0 20000 false).next.next.next.next := rfl
  have hsucceeds : wp (fun _ => False) getAPP0 (fun _ _ => True)
      (start shortAPP0 20000 false).next.next.next.next := by decide +kernel
  obtain ⟨_, t, hrun, -⟩ := exists_yields_of_wp hsucceeds
  have hregular : declared (start shortAPP0 20000 false).next.next.next.next.bytes = 2 ∨
      16 ≤ declared (start shortAPP0 20000 false).next.next.next.next.bytes :=
    hframed.regular (h := .app0) ⟨_, 0xe0, ⟨_, hsoi, .refl⟩, hmarker, rfl, hrun⟩
  exact absurd hregular (by decide)

end JpegParse

end Tarako
