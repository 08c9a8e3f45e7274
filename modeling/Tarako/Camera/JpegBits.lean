import Tarako.Camera.JpegParse

/-!
# The bit buffer of the JPEG decoder

`JPEG_Fill_Bit_Buffer` moves bytes of the entropy-coded data into `s_jstream_words` until there
are at least 15 bits. A zero behind `0xFF` is left out, and a marker is consumed or put back.
`refills_iff` says for which data that ends, inside the data, with the right bytes.
-/

namespace Tarako

namespace JpegBits

open JpegParse

/-- `s_jstream_words`, `s_jremain_bit_num`, the available bytes from `s_inter_buf_bitstream` on
and `s_jremain_byte_num`. -/
structure BitBuffer where
  words : UInt32
  bits : UInt32
  rest : List UInt8
  remain : UInt32

/-- Data whose length the counter can hold. -/
structure EntropyData where
  bytes : List UInt8
  length_lt : bytes.length < 2 ^ 32

/-- A byte has been read behind the available ones. -/
inductive Fault
  | readPast

def M_DHT : UInt8 := 0xc4

/-- `(s_jstream_words << 8) | tmp`, and eight bits more. -/
def BitBuffer.push (s : BitBuffer) (tmp : UInt8) : BitBuffer :=
  { s with words := (s.words <<< 8) ||| tmp.toUInt32, bits := s.bits + 8 }

/-- The inner loop, behind a byte that is 0xFF: the byte that ends it, and what is left. -/
def skipRun : List UInt8 → UInt32 → Option (UInt8 × List UInt8 × UInt32)
  | [], _ => none
  | tmp :: rest, remain =>
      if tmp = 0xFF then skipRun rest (remain - 1) else some (tmp, rest, remain - 1)

/-- `JPEG_Fill_Bit_Buffer` with `ESC_MODE`; no result after more than `fuel` turns. -/
def fillBitBuffer : ℕ → BitBuffer → Option (Except Fault BitBuffer)
  | 0, _ => none
  | fuel + 1, s =>
      if s.bits < 15 ∧ s.remain ≠ 0 then
        match s.rest with
        | [] => some (.error .readPast)
        | tmp :: rest =>
            if tmp = 0xFF then
              match skipRun rest (s.remain - 1) with
              | none => some (.error .readPast)
              | some (tmp, rest, remain) =>
                  if tmp = 0x00 then
                    fillBitBuffer fuel { s.push 0xFF with rest := rest, remain := remain }
                  else if tmp = M_SOS ∨ tmp = M_DHT ∨ tmp = M_EOI then
                    some (.ok { s with rest := rest, remain := remain })
                  else
                    -- `s_inter_buf_bitstream -= 2`: the byte before is 0xFF
                    fillBitBuffer fuel
                      { s with rest := 0xFF :: tmp :: rest, remain := remain + 2 }
            else fillBitBuffer fuel { s.push tmp with rest := rest, remain := s.remain - 1 }
      else some (.ok s)

def BitBuffer.start (data : EntropyData) (words bits : UInt32) : BitBuffer :=
  ⟨words, bits, data.bytes, UInt32.ofNat data.bytes.length⟩

/-! ## What is asked for -/

/-- The data bytes up to the first marker: 0xFF stands for itself in front of a zero, and once
when it is repeated. -/
def destuffed : List UInt8 → List UInt8
  | [] => []
  | [b] => if b = 0xFF then [] else [b]
  | b :: c :: l =>
      if b = 0xFF then
        if c = 0x00 then 0xFF :: destuffed l
        else if c = 0xFF then destuffed (c :: l)
        else []
      else b :: destuffed (c :: l)

def firstMarker : List UInt8 → Option (UInt8 × List UInt8)
  | [] => none
  | [_] => none
  | b :: c :: l =>
      if b = 0xFF then
        if c = 0x00 then firstMarker l
        else if c = 0xFF then firstMarker (c :: l)
        else some (c, l)
      else firstMarker (c :: l)

/-- Of the data `l` the first `n` data bytes have been taken and `rest` is left: the other data
bytes, with the first marker. When there are not as many, the first marker is taken too, or all. -/
def LeftBehind (n : ℕ) (l rest : List UInt8) : Prop :=
  if n ≤ (destuffed l).length then
    destuffed l = (destuffed l).take n ++ destuffed rest ∧ firstMarker rest = firstMarker l
  else rest = ((firstMarker l).map Prod.snd).getD []

/-- How many bytes bring `bits` to at least 15. -/
def missing (bits : UInt32) : ℕ := (22 - bits.toNat) / 8

def pushAll (words : UInt32) (l : List UInt8) : UInt32 :=
  l.foldl (fun words tmp => (words <<< 8) ||| tmp.toUInt32) words

/-- The function returns without a read behind the data, with the right number of bytes left,
and has appended the missing data bytes, or those there are before the first marker, and taken
what it has appended and no more but for that marker. -/
def Refills (data : EntropyData) (words bits : UInt32) : Prop :=
  ∃ fuel s, fillBitBuffer fuel (.start data words bits) = some (.ok s) ∧
    s.rest <:+ data.bytes ∧ s.remain.toNat = s.rest.length ∧
    LeftBehind (missing bits) data.bytes s.rest ∧
    s.words = pushAll words ((destuffed data.bytes).take (missing bits)) ∧
    s.bits.toNat = bits.toNat + 8 * ((destuffed data.bytes).take (missing bits)).length

/-- While `n` bytes are taken, what comes behind 0xFF is a zero, or SOS, DHT or EOI, at which it
ends. -/
def Passable : ℕ → List UInt8 → Prop
  | 0, _ => True
  | _ + 1, [] => True
  | _ + 1, [b] => b ≠ 0xFF
  | n + 1, b :: c :: l =>
      if b = 0xFF then
        if c = 0x00 then Passable n l
        else if c = 0xFF then Passable (n + 1) (c :: l)
        else c = M_SOS ∨ c = M_DHT ∨ c = M_EOI
      else Passable n (c :: l)

/-! ## Runs of 0xFF -/

theorem destuffed_cons {b : UInt8} (hb : b ≠ 0xFF) (l : List UInt8) :
    destuffed (b :: l) = b :: destuffed l := by
  cases l with
  | nil => simp [destuffed, hb]
  | cons c l => rw [destuffed, if_neg hb]

theorem firstMarker_cons {b : UInt8} (hb : b ≠ 0xFF) (l : List UInt8) :
    firstMarker (b :: l) = firstMarker l := by
  cases l with
  | nil => rfl
  | cons c l => rw [firstMarker, if_neg hb]

theorem LeftBehind.succ {n : ℕ} {b : UInt8} {l l' rest : List UInt8} (h : LeftBehind n l rest)
    (hdata : destuffed l' = b :: destuffed l) (hmarker : firstMarker l' = firstMarker l) :
    LeftBehind (n + 1) l' rest := by
  rw [LeftBehind] at h ⊢
  rw [hdata, hmarker, List.length_cons, List.take_succ_cons, List.cons_append]
  split_ifs at h with hle
  · rw [if_pos (Nat.succ_le_succ hle)]
    exact ⟨congrArg (b :: ·) h.1, h.2⟩
  · rw [if_neg (by omega)]
    exact h

theorem LeftBehind.of_nil {n : ℕ} {l : List UInt8} (hdata : destuffed l = []) :
    LeftBehind (n + 1) l (((firstMarker l).map Prod.snd).getD []) := by
  have hnone : ¬ n + 1 ≤ ([] : List UInt8).length := Nat.not_succ_le_zero n
  rw [LeftBehind, hdata, if_neg hnone]

theorem passable_cons {b : UInt8} (hb : b ≠ 0xFF) (n : ℕ) (l : List UInt8) :
    Passable (n + 1) (b :: l) ↔ Passable n l := by
  cases l with
  | nil => cases n <;> simp [Passable, hb]
  | cons c l => rw [Passable, if_neg hb]

theorem ofNat_succ_sub (n : ℕ) : UInt32.ofNat (n + 1) - 1 = UInt32.ofNat n := by
  rw [UInt32.ofNat_add]
  exact UInt32.add_sub_cancel _ _

/-- The inner loop runs out of the data, or ends at a byte `m` that says what the run is. -/
theorem skipRun_cases (l : List UInt8) :
    (skipRun l (UInt32.ofNat l.length) = none ∧ ∀ n, ¬ Passable (n + 1) (0xFF :: l)) ∨
      ∃ m rest, skipRun l (UInt32.ofNat l.length) = some (m, rest, UInt32.ofNat rest.length) ∧
        m ≠ 0xFF ∧ rest.length < l.length ∧ rest <:+ l ∧
        destuffed (0xFF :: l) = (if m = 0x00 then 0xFF :: destuffed rest else []) ∧
        firstMarker (0xFF :: l) = (if m = 0x00 then firstMarker rest else some (m, rest)) ∧
        ∀ n, Passable (n + 1) (0xFF :: l) ↔
          if m = 0x00 then Passable n rest else m = M_SOS ∨ m = M_DHT ∨ m = M_EOI := by
  induction l with
  | nil => exact Or.inl ⟨rfl, fun n h => h rfl⟩
  | cons c l ih =>
      by_cases hc : c = 0xFF
      · subst hc
        have hstep : skipRun (0xFF :: l) (UInt32.ofNat (0xFF :: l).length) =
            skipRun l (UInt32.ofNat l.length) := by
          rw [skipRun, if_pos rfl, List.length_cons, ofNat_succ_sub]
        have hdata : destuffed (0xFF :: 0xFF :: l) = destuffed (0xFF :: l) := by
          rw [destuffed, if_pos rfl, if_neg (by decide), if_pos rfl]
        have hmarker : firstMarker (0xFF :: 0xFF :: l) = firstMarker (0xFF :: l) := by
          rw [firstMarker, if_pos rfl, if_neg (by decide), if_pos rfl]
        have hpass : ∀ n, Passable (n + 1) (0xFF :: 0xFF :: l) ↔ Passable (n + 1) (0xFF :: l) := by
          intro n
          rw [Passable, if_pos rfl, if_neg (by decide), if_pos rfl]
        rcases ih with ⟨hnone, hnot⟩ | ⟨m, rest, hsome, hm, hlen, hsuffix, hdest, hfirst, hiff⟩
        · exact Or.inl ⟨hstep.trans hnone, fun n h => hnot n ((hpass n).mp h)⟩
        · exact Or.inr ⟨m, rest, hstep.trans hsome, hm, Nat.lt_succ_of_lt hlen,
            hsuffix.trans (List.suffix_cons _ _), hdata.trans hdest, hmarker.trans hfirst,
            fun n => (hpass n).trans (hiff n)⟩
      · refine Or.inr ⟨c, l, ?_, hc, Nat.lt_succ_self _, List.suffix_cons c l, ?_, ?_,
          fun n => ?_⟩
        · rw [skipRun, if_neg hc, List.length_cons, ofNat_succ_sub]
        · rw [destuffed, if_pos rfl, if_neg hc]
        · rw [firstMarker, if_pos rfl, if_neg hc]
        · rw [Passable, if_pos rfl, if_neg hc]

/-! ## The loop -/

theorem missing_eq_zero_iff (bits : UInt32) : missing bits = 0 ↔ ¬ bits < 15 := by
  have h15 : (15 : UInt32).toNat = 15 := rfl
  rw [missing, UInt32.lt_iff_toNat_lt, h15]
  omega

theorem missing_add {bits : UInt32} {n : ℕ} (h : missing bits = n + 1) :
    bits < 15 ∧ (bits + 8).toNat = bits.toNat + 8 ∧ missing (bits + 8) = n := by
  have h15 : (15 : UInt32).toNat = 15 := rfl
  have h8 : (8 : UInt32).toNat = 8 := rfl
  rw [missing] at h
  have hadd : (bits + 8).toNat = bits.toNat + 8 := by
    rw [UInt32.toNat_add, h8]
    omega
  refine ⟨by rw [UInt32.lt_iff_toNat_lt, h15]; omega, hadd, ?_⟩
  rw [missing, hadd]
  omega

theorem ofNat_length_ne_zero {b : UInt8} {l : List UInt8} (h : (b :: l).length < 2 ^ 32) :
    UInt32.ofNat (b :: l).length ≠ 0 := by
  intro heq
  have hnat := congrArg UInt32.toNat heq
  rw [UInt32.toNat_ofNat_of_lt' h] at hnat
  simp at hnat

theorem fill_cons {words bits : UInt32} {b : UInt8} {l : List UInt8} (hlt : bits < 15)
    (hlen : (b :: l).length < 2 ^ 32) (hb : b ≠ 0xFF) (fuel : ℕ) :
    fillBitBuffer (fuel + 1) ⟨words, bits, b :: l, UInt32.ofNat (b :: l).length⟩ =
      fillBitBuffer fuel
        ⟨(words <<< 8) ||| b.toUInt32, bits + 8, l, UInt32.ofNat l.length⟩ := by
  rw [fillBitBuffer, if_pos ⟨hlt, ofNat_length_ne_zero hlen⟩]
  simp only [if_neg hb, List.length_cons, ofNat_succ_sub, BitBuffer.push]

theorem fill_run {words bits : UInt32} {l : List UInt8} (hlt : bits < 15)
    (hlen : (0xFF :: l).length < 2 ^ 32) (fuel : ℕ) :
    fillBitBuffer (fuel + 1) ⟨words, bits, 0xFF :: l, UInt32.ofNat (0xFF :: l).length⟩ =
      match skipRun l (UInt32.ofNat l.length) with
      | none => some (.error .readPast)
      | some (m, rest, remain) =>
          if m = 0x00 then
            fillBitBuffer fuel ⟨(words <<< 8) ||| (0xFF : UInt8).toUInt32, bits + 8, rest, remain⟩
          else if m = M_SOS ∨ m = M_DHT ∨ m = M_EOI then some (.ok ⟨words, bits, rest, remain⟩)
          else fillBitBuffer fuel ⟨words, bits, 0xFF :: m :: rest, remain + 2⟩ := by
  rw [fillBitBuffer, if_pos ⟨hlt, ofNat_length_ne_zero hlen⟩]
  simp only [if_true, List.length_cons, ofNat_succ_sub, BitBuffer.push]

theorem exists_fill_of_passable {n : ℕ} {l : List UInt8} (hpass : Passable n l)
    (hlen : l.length < 2 ^ 32) {words bits : UInt32} (hbits : missing bits = n) :
    ∃ fuel s, fillBitBuffer fuel ⟨words, bits, l, UInt32.ofNat l.length⟩ = some (.ok s) ∧
      s.rest <:+ l ∧ s.remain.toNat = s.rest.length ∧ LeftBehind n l s.rest ∧
      s.words = pushAll words ((destuffed l).take n) ∧
      s.bits.toNat = bits.toNat + 8 * ((destuffed l).take n).length := by
  induction n generalizing l words bits with
  | zero =>
      have hge := (missing_eq_zero_iff bits).mp hbits
      refine ⟨1, ⟨words, bits, l, UInt32.ofNat l.length⟩, ?_, List.suffix_refl l,
        UInt32.toNat_ofNat_of_lt' hlen, ⟨rfl, rfl⟩, rfl, rfl⟩
      rw [fillBitBuffer, if_neg fun h => hge h.1]
  | succ n ih =>
      obtain ⟨hlt, hadd, hbits'⟩ := missing_add hbits
      cases l with
      | nil =>
          exact ⟨1, ⟨words, bits, [], 0⟩, if_neg fun h => h.2 rfl, List.suffix_refl [], rfl,
            .of_nil rfl, rfl, rfl⟩
      | cons b l =>
          have hl : l.length < 2 ^ 32 := Nat.lt_of_succ_lt hlen
          by_cases hb : b = 0xFF
          · subst hb
            rcases skipRun_cases l with ⟨-, hnot⟩ |
              ⟨m, rest, hsome, hm, hshort, hsuffix, hdest, hfirst, hiff⟩
            · exact absurd hpass (hnot n)
            · have hgoes := (hiff n).mp hpass
              have hsub := hsuffix.trans (List.suffix_cons 0xFF l)
              have hrest : rest.length < 2 ^ 32 := Nat.lt_trans hshort hl
              by_cases hzero : m = 0x00
              · -- a data byte
                rw [if_pos hzero] at hgoes hdest hfirst
                obtain ⟨fuel, s, hfill, hs, hremain, hleft, hwords, hcount⟩ :=
                  ih hgoes hrest hbits'
                refine ⟨fuel + 1, s, ?_, hs.trans hsub, hremain, hleft.succ hdest hfirst, ?_, ?_⟩
                · rw [fill_run hlt hlen, hsome]
                  simp only [if_pos hzero]
                  exact hfill
                · rw [hdest, List.take_succ_cons]
                  exact hwords
                · rw [hdest, List.take_succ_cons, List.length_cons, hcount, hadd]
                  omega
              · rw [if_neg hzero] at hgoes hdest hfirst
                have hleft : LeftBehind (n + 1) (0xFF :: l) rest := by
                  have hnone := LeftBehind.of_nil (n := n) hdest
                  rwa [hfirst] at hnone
                refine ⟨1, ⟨words, bits, rest, UInt32.ofNat rest.length⟩, ?_, hsub,
                  UInt32.toNat_ofNat_of_lt' hrest, hleft, ?_, ?_⟩
                · rw [fill_run hlt hlen, hsome]
                  simp only [if_neg hzero, if_pos hgoes]
                · rw [hdest]
                  rfl
                · rw [hdest]
                  rfl
          · have hrest := (passable_cons hb n l).mp hpass
            obtain ⟨fuel, s, hfill, hs, hremain, hleft, hwords, hcount⟩ := ih hrest hl hbits'
            refine ⟨fuel + 1, s, ?_, hs.trans (List.suffix_cons b l), hremain,
              hleft.succ (destuffed_cons hb l) (firstMarker_cons hb l), ?_, ?_⟩
            · rw [fill_cons hlt hlen hb]
              exact hfill
            · rw [destuffed_cons hb, List.take_succ_cons]
              exact hwords
            · rw [destuffed_cons hb, List.take_succ_cons, List.length_cons, hcount, hadd]
              omega

/-- Behind 0xFF at the end of the data it reads on, and a marker that it puts back it meets
again and again. -/
theorem fill_ne_ok {n : ℕ} {l : List UInt8} (hpass : ¬ Passable n l) (hlen : l.length < 2 ^ 32)
    {words bits : UInt32} (hbits : missing bits = n) (fuel : ℕ) (s : BitBuffer) :
    fillBitBuffer fuel ⟨words, bits, l, UInt32.ofNat l.length⟩ ≠ some (.ok s) := by
  induction fuel generalizing n l words bits with
  | zero =>
      intro h
      cases h
  | succ fuel ih =>
      obtain ⟨n, rfl⟩ : ∃ k, n = k + 1 := by
        cases n with
        | zero => exact absurd (by simp [Passable]) hpass
        | succ n => exact ⟨n, rfl⟩
      obtain ⟨hlt, -, hbits'⟩ := missing_add hbits
      cases l with
      | nil => exact absurd (by simp [Passable]) hpass
      | cons b l =>
          have hl : l.length < 2 ^ 32 := Nat.lt_of_succ_lt hlen
          by_cases hb : b = 0xFF
          · subst hb
            rw [fill_run hlt hlen]
            rcases skipRun_cases l with ⟨hnone, -⟩ |
              ⟨m, rest, hsome, hm, hshort, -, -, -, hiff⟩
            · rw [hnone]
              simp
            · rw [hsome]
              simp only
              rw [hiff] at hpass
              split_ifs at hpass ⊢ with hzero
              · exact ih hpass (Nat.lt_trans hshort hl) hbits'
              · -- the two bytes are put back
                have hback : UInt32.ofNat rest.length + 2 =
                    UInt32.ofNat (0xFF :: m :: rest).length := by
                  rw [List.length_cons, List.length_cons, Nat.add_assoc, UInt32.ofNat_add]
                  rfl
                rw [hback]
                refine ih ?_ ?_ hbits
                · rw [Passable, if_pos rfl, if_neg hzero, if_neg hm]
                  exact hpass
                · simp only [List.length_cons] at hlen ⊢
                  omega
          · rw [fill_cons hlt hlen hb]
            exact ih (mt (passable_cons hb n l).mpr hpass) hl hbits'

/-- For all data and every bit count: the refill does what it should exactly when no run of
0xFF in the part that it takes ends the data or stands before another marker than SOS, DHT and
EOI. -/
theorem refills_iff (data : EntropyData) (words bits : UInt32) :
    Refills data words bits ↔ Passable (missing bits) data.bytes := by
  constructor
  · rintro ⟨fuel, s, hfill, -⟩
    by_contra hpass
    exact fill_ne_ok hpass data.length_lt rfl fuel s hfill
  · intro hpass
    exact exists_fill_of_passable hpass data.length_lt rfl

/-- The restart marker RST0 at once: the two bytes are read and put back without end. -/
theorem not_refills_rst0 :
    ¬ ∀ (data : EntropyData) (words bits : UInt32), Refills data words bits := by
  intro h
  obtain ⟨fuel, s, hfill, -⟩ := h ⟨[0xFF, 0xD0], by decide⟩ 0 0
  have hpass : ¬ Passable 2 [0xFF, 0xD0] := by
    simp [Passable, M_SOS, M_DHT, M_EOI]
  exact fill_ne_ok hpass (by decide) rfl fuel s hfill

end JpegBits

end Tarako
