import Tarako.Lib.Memory
import Tarako.Lib.Stuffing

/-!
# Escaping in place

`eng_diag_encode7d7e` and `eng_diag_decode7d7e` edit a buffer in place: a byte `0x7D` or
`0x7E` becomes two, the rest of the buffer moves up, and back. The escaped form is the
stuffing code of the flag `0x7E`; `decode7d7e_encode7d7e` says that decoding it gives the bytes back.
Overlapping copies are taken as `memmove`.
-/

namespace Tarako

namespace Engcs

open Function

/-- `(buf[i]==0x7d)||(buf[i]==0x7e)` -/
def isEscaped (b : UInt8) : Bool := b == 0x7D || b == 0x7E

theorem esc_ne_flag : (0x7D : UInt8) ≠ 0x7E := by decide

theorem flagSub_ne_flag : (0x5E : UInt8) ≠ 0x7E := by decide

theorem escSub_ne_flag : (0x5D : UInt8) ≠ 0x7E := by decide

def diagCode : Stuffing.Code UInt8 where
  flag := 0x7E
  esc := 0x7D
  flagSub := 0x5E
  escSub := 0x5D
  esc_ne_flag := esc_ne_flag
  flagSub_ne_flag := flagSub_ne_flag
  escSub_ne_flag := escSub_ne_flag

/-! ### The two functions -/

/-- The buffer, `len` and `*extra_len`. -/
structure Encoding where
  buf : Memory
  len : ℕ
  extraLen : ℕ

/-- `for(j=len; j>i+1; j--) buf[j] = buf[j-1]`, from `j` on. -/
def openGap (i : ℕ) : ℕ → Memory → Memory
  | 0, buf => buf
  | j + 1, buf => if i + 1 < j + 1 then openGap i j (update buf (j + 1) (buf j)) else buf

/-- One turn of the loop of `eng_diag_encode7d7e`. -/
def encodeTurn (s : Encoding) (i : ℕ) : Encoding :=
  if isEscaped (s.buf i) then
    let tmp := s.buf i ^^^ 0x20
    let buf := openGap i s.len (update s.buf i 0x7D)
    { buf := update buf (i + 1) tmp, len := s.len + 1, extraLen := s.extraLen + 1 }
  else s

/-- One turn of the loop of `eng_diag_decode7d7e`. The copy takes in the byte behind the
last one, whatever it is. -/
def decodeTurn (buf : Memory) (len i : ℕ) : Memory × ℕ :=
  if isEscaped (buf i) then
    let buf : Memory := update buf i (buf (i + 1) ^^^ 0x20)
    (buf.copy (i + 1) (buf.shift (i + 2)) (len - (i + 1)), len - 1)
  else (buf, len)

theorem length_decodeTurn_le (buf : Memory) (len i : ℕ) : (decodeTurn buf len i).2 ≤ len := by
  unfold decodeTurn
  split
  · exact Nat.sub_le len 1
  · exact Nat.le_refl len

/-- `eng_diag_decode7d7e`, from `i` on. -/
def decodeFrom (i : ℕ) (buf : Memory) (len : ℕ) : Memory :=
  if i < len then decodeFrom (i + 1) (decodeTurn buf len i).1 (decodeTurn buf len i).2 else buf
termination_by len - i
decreasing_by
  have hle := length_decodeTurn_le buf len i
  omega

def decode7d7e (buf : Memory) (len : ℕ) : Memory := decodeFrom 0 buf len

/-! ### A turn of the encoder -/

section EncodeTurn

variable {s : Encoding} {i : ℕ}

theorem openGap_apply (i j : ℕ) (buf : Memory) (k : ℕ) :
    openGap i j buf k = if i + 1 < k ∧ k ≤ j then buf (k - 1) else buf k := by
  induction j generalizing buf with
  | zero =>
      rw [openGap, if_neg (by omega)]
  | succ j ih =>
      rw [openGap]
      by_cases hgap : i + 1 < j + 1
      · rw [if_pos hgap, ih]
        by_cases htop : k = j + 1
        · subst htop
          rw [if_neg (by omega), if_pos ⟨hgap, Nat.le_refl _⟩, update_self, Nat.add_sub_cancel]
        · by_cases hmoved : i + 1 < k ∧ k ≤ j
          · rw [if_pos hmoved, if_pos (by omega), update_of_ne (by omega)]
          · rw [if_neg hmoved, if_neg (by omega), update_of_ne htop]
      · rw [if_neg hgap, if_neg (by omega)]

theorem encodeTurn_of_not_escaped (h : isEscaped (s.buf i) = false) : encodeTurn s i = s := by
  rw [encodeTurn, if_neg (by rw [h]; exact Bool.false_ne_true)]

theorem buf_encodeTurn (h : isEscaped (s.buf i) = true) (k : ℕ) :
    (encodeTurn s i).buf k =
      if k = i then 0x7D
      else if k = i + 1 then s.buf i ^^^ 0x20
      else if i + 1 < k ∧ k ≤ s.len then s.buf (k - 1)
      else s.buf k := by
  rw [encodeTurn, if_pos h]
  dsimp only
  by_cases hsub : k = i + 1
  · rw [hsub, update_self, if_neg (by omega), if_pos rfl]
  · rw [update_of_ne hsub, if_neg hsub, openGap_apply]
    by_cases hself : k = i
    · rw [if_pos hself, if_neg (by omega), hself, update_self]
    · rw [if_neg hself]
      split
      · exact update_of_ne (by omega) _ _
      · exact update_of_ne hself _ _

theorem bytes_encodeTurn (h : isEscaped (s.buf i) = true) {n : ℕ} (hlen : s.len = i + (n + 1)) :
    (encodeTurn s i).buf.bytes (i + 2) n = s.buf.bytes (i + 1) n := by
  refine Memory.bytes_congr fun j hj => ?_
  rw [buf_encodeTurn h, if_neg (by omega), if_neg (by omega), if_pos (by omega)]
  exact congrArg s.buf (by omega)

theorem len_encodeTurn (h : isEscaped (s.buf i) = true) : (encodeTurn s i).len = s.len + 1 := by
  rw [encodeTurn, if_pos h]

theorem extraLen_encodeTurn (h : isEscaped (s.buf i) = true) :
    (encodeTurn s i).extraLen = s.extraLen + 1 := by
  rw [encodeTurn, if_pos h]

theorem isEscaped_iff {b : UInt8} : isEscaped b = true ↔ b = 0x7E ∨ b = 0x7D := by
  rw [isEscaped, Bool.or_eq_true, beq_iff_eq, beq_iff_eq, or_comm]

theorem not_isEscaped_sub {b : UInt8} (h : isEscaped b = true) :
    isEscaped (b ^^^ 0x20) = false := by
  rcases isEscaped_iff.mp h with rfl | rfl <;> rfl

theorem stuffOne_of_escaped {b : UInt8} (h : isEscaped b = true) :
    diagCode.stuffOne b = [0x7D, b ^^^ 0x20] := by
  rcases isEscaped_iff.mp h with rfl | rfl <;> rfl

theorem stuffOne_of_not_escaped {b : UInt8} (h : isEscaped b = false) :
    diagCode.stuffOne b = [b] := by
  have hne : ¬ (b = 0x7E ∨ b = 0x7D) := fun hor =>
    Bool.false_ne_true (h.symm.trans (isEscaped_iff.mpr hor))
  exact diagCode.stuffOne_of_ne (fun hflag => hne (.inl hflag)) fun hesc => hne (.inr hesc)

/-- The bytes that are still to be escaped, from `i` on. -/
def pending (s : Encoding) (i : ℕ) : ℕ := (s.buf.bytes i (s.len - i)).countP isEscaped

theorem pending_of_lt (hi : i < s.len) :
    pending s i = (s.buf.bytes (i + 1) (s.len - (i + 1))).countP isEscaped +
      if isEscaped (s.buf i) then 1 else 0 := by
  obtain ⟨n, hn⟩ := Nat.exists_eq_add_of_lt hi
  have hleft : s.len - i = n + 1 := by omega
  have hrest : s.len - (i + 1) = n := by omega
  rw [pending, hleft, hrest, Memory.bytes_succ, List.countP_cons]

/-- Every turn leaves fewer bytes, or fewer that are to be escaped. -/
theorem pending_encodeTurn (hi : i < s.len) :
    (encodeTurn s i).len - (i + 1) + pending (encodeTurn s i) (i + 1) < s.len - i + pending s i := by
  rw [pending_of_lt hi]
  cases h : isEscaped (s.buf i) with
  | false =>
      rw [encodeTurn_of_not_escaped h, pending]
      omega
  | true =>
      obtain ⟨n, hn⟩ := Nat.exists_eq_add_of_lt hi
      have hlen := len_encodeTurn h
      have hsub : (encodeTurn s i).buf (i + 1) = s.buf i ^^^ 0x20 := by
        rw [buf_encodeTurn h, if_neg (by omega), if_pos rfl]
      have hrest : (encodeTurn s i).len - (i + 1 + 1) = n := by omega
      have hold : s.len - (i + 1) = n := by omega
      rw [pending_of_lt (by omega), hsub, not_isEscaped_sub h, hrest, hold,
        bytes_encodeTurn h (by omega), if_neg Bool.false_ne_true, if_pos rfl]
      omega

end EncodeTurn

/-- `eng_diag_encode7d7e`, from `i` on. -/
def encodeFrom (i : ℕ) (s : Encoding) : Encoding :=
  if i < s.len then encodeFrom (i + 1) (encodeTurn s i) else s
termination_by s.len - i + pending s i
decreasing_by
  have hlt := pending_encodeTurn (by assumption : i < s.len)
  omega

/-- The result and `*extra_len` are in the state. -/
def encode7d7e (buf : Memory) (len extraLen : ℕ) : Encoding := encodeFrom 0 ⟨buf, len, extraLen⟩

/-! ### The encoder -/

/-- What the encoder does to the bytes from `i` to the end. -/
structure Escapes (i n : ℕ) (s e : Encoding) : Prop where
  len : e.len = i + (diagCode.stuff (s.buf.bytes i n)).length
  bytes : e.buf.bytes i (diagCode.stuff (s.buf.bytes i n)).length = diagCode.stuff (s.buf.bytes i n)
  extraLen : e.extraLen = s.extraLen + (s.buf.bytes i n).countP isEscaped
  before : ∀ k < i, e.buf k = s.buf k
  behind : ∀ k, e.len ≤ k → e.buf k = s.buf k

theorem Escapes.nil {i : ℕ} {s : Encoding} (hlen : s.len = i) : Escapes i 0 s s where
  len := hlen
  bytes := rfl
  extraLen := rfl
  before := fun _ _ => rfl
  behind := fun _ _ => rfl

theorem Escapes.cons_of_not_escaped {i n : ℕ} {s e : Encoding}
    (h : isEscaped (s.buf i) = false) (hrest : Escapes (i + 1) n s e) :
    Escapes i (n + 1) s e := by
  have hstuff : diagCode.stuff (s.buf.bytes i (n + 1)) =
      s.buf i :: diagCode.stuff (s.buf.bytes (i + 1) n) := by
    rw [Memory.bytes_succ, Stuffing.Code.stuff_cons, stuffOne_of_not_escaped h]
    rfl
  refine ⟨?_, ?_, ?_, fun k hk => hrest.before k (by omega), hrest.behind⟩
  · rw [hstuff, List.length_cons, hrest.len]
    omega
  · rw [hstuff, List.length_cons, Memory.bytes_succ, hrest.bytes, hrest.before i (by omega)]
  · rw [hrest.extraLen, Memory.bytes_succ, List.countP_cons_of_neg (by simp [h])]

theorem Escapes.cons_of_escaped {i n : ℕ} {s e : Encoding} (h : isEscaped (s.buf i) = true)
    (hlen : s.len = i + (n + 1)) (hrest : Escapes (i + 2) n (encodeTurn s i) e) :
    Escapes i (n + 1) s e := by
  have hstuff : diagCode.stuff (s.buf.bytes i (n + 1)) =
      0x7D :: (s.buf i ^^^ 0x20) :: diagCode.stuff (s.buf.bytes (i + 1) n) := by
    rw [Memory.bytes_succ, Stuffing.Code.stuff_cons, stuffOne_of_escaped h]
    rfl
  obtain ⟨hlen', hbytes, hextra, hbefore, hbehind⟩ := hrest
  rw [bytes_encodeTurn h hlen] at hlen' hbytes hextra
  refine ⟨?_, ?_, ?_, ?_, ?_⟩
  · rw [hstuff, List.length_cons, List.length_cons, hlen']
    omega
  · have hesc : e.buf i = 0x7D := by
      rw [hbefore i (by omega), buf_encodeTurn h, if_pos rfl]
    have hsub : e.buf (i + 1) = s.buf i ^^^ 0x20 := by
      rw [hbefore (i + 1) (by omega), buf_encodeTurn h, if_neg (by omega), if_pos rfl]
    rw [hstuff, List.length_cons, List.length_cons, Memory.bytes_succ, Memory.bytes_succ, hbytes,
      hesc, hsub]
  · rw [hextra, extraLen_encodeTurn h, Memory.bytes_succ, List.countP_cons_of_pos h]
    omega
  · intro k hk
    rw [hbefore k (by omega), buf_encodeTurn h, if_neg (by omega), if_neg (by omega),
      if_neg (by omega)]
  · intro k hk
    have hstuffed := diagCode.length_le_length_stuff (s.buf.bytes (i + 1) n)
    rw [Memory.length_bytes] at hstuffed
    rw [hbehind k hk, buf_encodeTurn h, if_neg (by omega), if_neg (by omega), if_neg (by omega)]

theorem encodeFrom_of_lt {i : ℕ} {s : Encoding} (hi : i < s.len) :
    encodeFrom i s = encodeFrom (i + 1) (encodeTurn s i) := by
  rw [encodeFrom, if_pos hi]

theorem encodeFrom_of_escaped {i : ℕ} {s : Encoding} (h : isEscaped (s.buf i) = true)
    (hi : i < s.len) : encodeFrom i s = encodeFrom (i + 2) (encodeTurn s i) := by
  have hsub : isEscaped ((encodeTurn s i).buf (i + 1)) = false := by
    rw [buf_encodeTurn h, if_neg (by omega), if_pos rfl]
    exact not_isEscaped_sub h
  have hlen := len_encodeTurn h
  rw [encodeFrom_of_lt hi, encodeFrom_of_lt (by omega), encodeTurn_of_not_escaped hsub]

theorem escapes_encodeFrom (n : ℕ) {i : ℕ} {s : Encoding} (hlen : s.len = i + n) :
    Escapes i n s (encodeFrom i s) := by
  induction n generalizing i s with
  | zero =>
      rw [encodeFrom, if_neg (by omega)]
      exact Escapes.nil hlen
  | succ n ih =>
      cases h : isEscaped (s.buf i) with
      | false =>
          rw [encodeFrom_of_lt (by omega), encodeTurn_of_not_escaped h]
          exact Escapes.cons_of_not_escaped h (ih (by omega))
      | true =>
          have hturn := len_encodeTurn h
          rw [encodeFrom_of_escaped h (by omega)]
          exact Escapes.cons_of_escaped h hlen (ih (by omega))

/-! ### The decoder -/

theorem decodeFrom_of_lt {i len : ℕ} (buf : Memory) (hi : i < len) :
    decodeFrom i buf len =
      decodeFrom (i + 1) (decodeTurn buf len i).1 (decodeTurn buf len i).2 := by
  rw [decodeFrom, if_pos hi]

theorem decodeTurn_apply {buf : Memory} {i : ℕ} (h : isEscaped (buf i) = true) (len k : ℕ) :
    (decodeTurn buf len i).1 k =
      if k = i then buf (i + 1) ^^^ 0x20
      else if i < k ∧ k < len then buf (k + 1)
      else buf k := by
  rw [decodeTurn, if_pos h]
  dsimp only
  by_cases hcopied : i < k ∧ k < len
  · rw [Memory.copy_apply_of_mem (by omega) (by omega), Memory.shift_apply,
      update_of_ne (by omega), if_neg (by omega), if_pos hcopied]
    exact congrArg buf (by omega)
  · have hkeep : (Memory.copy (update buf i (buf (i + 1) ^^^ 0x20)) (i + 1)
        (Memory.shift (update buf i (buf (i + 1) ^^^ 0x20)) (i + 2)) (len - (i + 1))) k =
          update buf i (buf (i + 1) ^^^ 0x20) k := by
      by_cases hlow : k < i + 1
      · exact Memory.copy_apply_of_lt hlow
      · exact Memory.copy_apply_of_le (by omega)
    rw [hkeep]
    by_cases hself : k = i
    · rw [if_pos hself, hself, update_self]
    · rw [if_neg hself, if_neg hcopied, update_of_ne hself]

theorem sub_sub {b : UInt8} : b ^^^ 0x20 ^^^ 0x20 = b := by
  rw [UInt8.xor_assoc, UInt8.xor_self, UInt8.xor_zero]

theorem decodeFrom_stuff (l : List UInt8) {i : ℕ} {buf : Memory}
    (h : buf.bytes i (diagCode.stuff l).length = diagCode.stuff l) :
    (decodeFrom i buf (i + (diagCode.stuff l).length)).bytes i l.length = l ∧
      ∀ k < i, decodeFrom i buf (i + (diagCode.stuff l).length) k = buf k := by
  induction l generalizing i buf with
  | nil =>
      rw [Stuffing.Code.stuff_nil, List.length_nil, Nat.add_zero, decodeFrom,
        if_neg (Nat.lt_irrefl i)]
      exact ⟨rfl, fun _ _ => rfl⟩
  | cons b l ih =>
      rw [Stuffing.Code.stuff_cons] at h ⊢
      cases hb : isEscaped b with
      | false =>
          rw [stuffOne_of_not_escaped hb, List.singleton_append, List.length_cons,
            Memory.bytes_succ] at h
          obtain ⟨hhead, htail⟩ := List.cons.inj h
          have hturn : decodeTurn buf (i + ((diagCode.stuff l).length + 1)) i =
              (buf, i + ((diagCode.stuff l).length + 1)) := by
            rw [decodeTurn, hhead, hb, if_neg Bool.false_ne_true]
          obtain ⟨hrest, hbefore⟩ := ih htail
          rw [stuffOne_of_not_escaped hb, List.singleton_append, List.length_cons,
            decodeFrom_of_lt buf (by omega), hturn, ← Nat.add_assoc, Nat.add_right_comm]
          refine ⟨?_, fun k hk => hbefore k (by omega)⟩
          rw [List.length_cons, Memory.bytes_succ, hrest, hbefore i (by omega), hhead]
      | true =>
          rw [stuffOne_of_escaped hb, List.cons_append, List.singleton_append, List.length_cons,
            List.length_cons, Memory.bytes_succ, Memory.bytes_succ] at h
          obtain ⟨hesc, h⟩ := List.cons.inj h
          obtain ⟨hsub, htail⟩ := List.cons.inj h
          have hisEsc : isEscaped (buf i) = true := by rw [hesc]; rfl
          have happly := decodeTurn_apply hisEsc (i + ((diagCode.stuff l).length + 1 + 1))
          have hlen : (decodeTurn buf (i + ((diagCode.stuff l).length + 1 + 1)) i).2 =
              i + 1 + (diagCode.stuff l).length := by
            rw [decodeTurn, if_pos hisEsc]
            dsimp only
            omega
          have hmoved : (decodeTurn buf (i + ((diagCode.stuff l).length + 1 + 1)) i).1.bytes (i + 1)
              (diagCode.stuff l).length = diagCode.stuff l := by
            rw [← htail, Memory.length_bytes]
            refine Memory.bytes_congr fun j hj => ?_
            rw [happly, if_neg (by omega), if_pos (by omega)]
            exact congrArg buf (by omega)
          obtain ⟨hrest, hbefore⟩ := ih hmoved
          rw [stuffOne_of_escaped hb, List.cons_append, List.singleton_append, List.length_cons,
            List.length_cons, decodeFrom_of_lt buf (by omega), hlen]
          constructor
          · rw [List.length_cons, Memory.bytes_succ, hrest, hbefore i (by omega), happly,
              if_pos rfl, hsub, sub_sub]
          · intro k hk
            rw [hbefore k (by omega), happly, if_neg (by omega), if_neg (by omega)]

/-! ### The round trip -/

/-- The bytes `e` hold no flag, and an escape only in front of a substitute. -/
def EscapedForm (e : List UInt8) : Prop :=
  0x7E ∉ e ∧
    ∀ k : ℕ, e[k]? = some 0x7D → e[k + 1]? = some 0x5E ∨ e[k + 1]? = some 0x5D

theorem escapedForm_stuff (l : List UInt8) : EscapedForm (diagCode.stuff l) :=
  ⟨diagCode.flag_not_mem_stuff l, fun _ hk => diagCode.sub_of_esc (by decide) (by decide) hk⟩

theorem length_stuff (l : List UInt8) :
    (diagCode.stuff l).length = l.length + l.countP isEscaped := by
  induction l with
  | nil => rfl
  | cons b l ih =>
      rw [Stuffing.Code.stuff_cons, List.length_append, ih, List.length_cons]
      cases hb : isEscaped b with
      | false =>
          rw [stuffOne_of_not_escaped hb, List.countP_cons_of_neg (by simp [hb]),
            List.length_singleton]
          omega
      | true =>
          rw [stuffOne_of_escaped hb, List.countP_cons_of_pos hb, List.length_cons,
            List.length_singleton]
          omega

/-- Decoding what the encoder has made of the first `len` bytes gives them back; the encoder
returns the length of their escaped form, counts what it adds, and leaves the buffer behind
that form as it is. -/
theorem decode7d7e_encode7d7e (buf : Memory) (len extraLen : ℕ) :
    let e := encode7d7e buf len extraLen
    (decode7d7e e.buf e.len).bytes 0 len = buf.bytes 0 len ∧
      EscapedForm (e.buf.bytes 0 e.len) ∧
      e.len = len + (buf.bytes 0 len).countP isEscaped ∧
      e.extraLen = extraLen + (buf.bytes 0 len).countP isEscaped ∧
      ∀ k, e.len ≤ k → e.buf k = buf k := by
  intro e
  have hescapes : Escapes 0 len ⟨buf, len, extraLen⟩ e :=
    escapes_encodeFrom len (Nat.zero_add len).symm
  obtain ⟨hlen, hbytes, hextra, -, hbehind⟩ := hescapes
  have hform : e.buf.bytes 0 e.len = diagCode.stuff (buf.bytes 0 len) := by
    rw [hlen, Nat.zero_add, hbytes]
  obtain ⟨hdecoded, -⟩ := decodeFrom_stuff (buf.bytes 0 len) hbytes
  refine ⟨?_, ?_, ?_, hextra, hbehind⟩
  · rw [decode7d7e, hlen]
    rwa [Memory.length_bytes] at hdecoded
  · rw [hform]
    exact escapedForm_stuff (buf.bytes 0 len)
  · rw [hlen, Nat.zero_add, length_stuff, Memory.length_bytes]

end Engcs

end Tarako
