import Tarako.ModemControl.Packet

/-!
# When the decoder of the loader undoes its encoder

`translatePacket` is the stuffing code with flag `0x7E` and escape `0x7D`. The
decoder keeps the pending escape in the last decoded byte only, so a `0x7D` that
it has just unescaped is taken for a new escape: the byte after it is swallowed.
The decoder is read here as the fold of `decodeByte` over the stuffed bytes
(`untranslatePacket_translatePacket`), and the round trip is then a statement
about that fold. A second limit is the dropped checksum at the closing flag: its
unsigned length wraps for a one-byte packet.
-/

namespace Tarako

namespace ModemControl

open Splice

def hdlc : Stuffing.Code UInt8 where
  flag := 0x7E
  esc := 0x7D
  flagSub := 0x5E
  escSub := 0x5D
  esc_ne_flag := by decide
  flagSub_ne_flag := by decide
  escSub_ne_flag := by decide

theorem translatePacket_eq_frame (src : List UInt8) :
    translatePacket src = hdlc.frame src := rfl

/-- The effect of one byte inside a packet on the bytes decoded so far. -/
def decodeByte (out : List UInt8) (b : UInt8) : List UInt8 :=
  if out.getLast? = some 0x7D then
    if b = 0x5E then out.dropLast ++ [0x7E] else out
  else out ++ [b]

def decode (src : List UInt8) : List UInt8 := src.foldl decodeByte []

def finishPacket (out room : List UInt8) : Option (List UInt8 × ℕ) :=
  (crc16LCalc? (out ++ room) (UInt32.ofNat out.length - 2)).map fun _ =>
    (out ++ room, out.length)

/-! ## The decoder as a fold -/

theorem decodeByte_of_getLast?_ne {out : List UInt8} (h : out.getLast? ≠ some 0x7D)
    (b : UInt8) : decodeByte out b = out ++ [b] := by
  simp [decodeByte, h]

theorem decodeByte_of_getLast? {out : List UInt8} (h : out.getLast? = some 0x7D)
    (b : UInt8) :
    decodeByte out b = if b = 0x5E then out.dropLast ++ [0x7E] else out := by
  simp [decodeByte, h]

theorem length_decodeByte_of_getLast? {out : List UInt8}
    (h : out.getLast? = some 0x7D) (b : UInt8) :
    (decodeByte out b).length = out.length := by
  have hpos : 0 < out.length := by
    cases out with
    | nil => simp at h
    | cons a out => simp
  rw [decodeByte_of_getLast? h]
  split_ifs
  · simp only [List.length_append, List.length_dropLast, List.length_singleton]
    omega
  · rfl

theorem length_le_length_decodeByte (out : List UInt8) (b : UInt8) :
    out.length ≤ (decodeByte out b).length := by
  by_cases h : out.getLast? = some 0x7D
  · exact Nat.le_of_eq (length_decodeByte_of_getLast? h b).symm
  · rw [decodeByte_of_getLast?_ne h]
    simp

theorem length_le_length_foldl_decodeByte (src out : List UInt8) :
    out.length ≤ (src.foldl decodeByte out).length := by
  induction src generalizing out with
  | nil => exact Nat.le_refl _
  | cons b src ih => exact Nat.le_trans (length_le_length_decodeByte out b) (ih _)

theorem decode_ne_nil {src : List UInt8} (h : src ≠ []) : decode src ≠ [] := by
  cases src with
  | nil => exact absurd rfl h
  | cons b src =>
      have hlen := length_le_length_foldl_decodeByte src (decodeByte [] b)
      have hone : (decodeByte [] b).length = 1 := by simp [decodeByte]
      rw [hone] at hlen
      exact List.length_pos_iff.mp hlen

theorem store?_append_cons (out room : List UInt8) (r b : UInt8) :
    store? (out ++ r :: room) out.length [b] = some ((out ++ [b]) ++ room) := by
  rw [store?_eq_some_iff]
  simp [splice]

theorem store?_append_nil (out : List UInt8) (b : UInt8) :
    store? out out.length [b] = none := by
  simp [store?]

theorem store?_last (out room : List UInt8) (a b : UInt8) :
    store? (out ++ [a] ++ room) ((out ++ [a]).length - 1) [b] =
      some ((out ++ [b]) ++ room) := by
  rw [store?_eq_some_iff]
  simp [splice]

/-- Inside a packet the loop is the fold of `decodeByte`, up to the closing flag;
it stops early only where `dest` is full. -/
theorem untranslateLoop_packet (rest : List UInt8) :
    ∀ (src out room : List UInt8), out ≠ [] → (0x7E : UInt8) ∉ src →
      untranslateLoop (src ++ 0x7E :: rest) .packet (out ++ room) out.length =
        if (src.foldl decodeByte out).length ≤ out.length + room.length then
          finishPacket (src.foldl decodeByte out)
            (room.drop ((src.foldl decodeByte out).length - out.length))
        else none
  | [], out, room, _, _ => by
      simp [untranslateLoop, finishPacket]
  | b :: src, out, room, hout, hsrc => by
      have hb : b ≠ 0x7E := fun h => hsrc (by simp [h])
      have hsrc' : (0x7E : UInt8) ∉ src := fun h => hsrc (by simp [h])
      obtain ⟨init, a, rfl⟩ : ∃ init a, out = init ++ [a] :=
        ⟨out.dropLast, out.getLast hout, (List.dropLast_append_getLast hout).symm⟩
      have hget : (init ++ [a] ++ room)[(init ++ [a]).length - 1]? = some a := by
        simp
      rw [List.cons_append, untranslateLoop, if_neg hb, hget, Option.bind_some,
        List.foldl_cons]
      by_cases ha : a = 0x7D
      · -- an escape is pending: the byte completes it or is swallowed
        subst ha
        rw [if_pos rfl, decodeByte_of_getLast? (by simp), List.dropLast_concat,
          store?_last, store?_last]
        by_cases h5e : b = 0x5E
        · have ih := untranslateLoop_packet rest src (init ++ [0x7E]) room (by simp) hsrc'
          simpa [h5e] using ih
        · have ih := untranslateLoop_packet rest src (init ++ [0x7D]) room (by simp) hsrc'
          by_cases h5d : b = 0x5D
          · simpa [h5d] using ih
          · simpa [h5e, h5d] using ih
      · rw [if_neg ha, decodeByte_of_getLast?_ne (by simpa using ha)]
        cases room with
        | nil =>
            have hlen := length_le_length_foldl_decodeByte src (init ++ [a] ++ [b])
            rw [List.append_nil, store?_append_nil, Option.bind_none, if_neg]
            simp only [List.length_append, List.length_singleton, List.length_nil] at hlen ⊢
            omega
        | cons r room =>
            have ih := untranslateLoop_packet rest src (init ++ [a] ++ [b]) room
              (by simp) hsrc'
            have hlen := length_le_length_foldl_decodeByte src (init ++ [a] ++ [b])
            have hsize : (init ++ [a]).length + 1 = (init ++ [a] ++ [b]).length := by simp
            rw [store?_append_cons, Option.bind_some, hsize, ih]
            generalize src.foldl decodeByte (init ++ [a] ++ [b]) = out' at hlen ⊢
            obtain ⟨k, hk⟩ := Nat.exists_eq_add_of_le hlen
            have hdrop : out'.length - (init ++ [a]).length = k + 1 := by omega
            have hroom : (init ++ [a] ++ [b]).length + room.length =
                (init ++ [a]).length + (r :: room).length := by
              simp only [List.length_append, List.length_cons, List.length_nil]
              omega
            rw [hdrop, List.drop_succ_cons, hroom, hk, Nat.add_sub_cancel_left]

theorem untranslatePacket_translatePacket {s : List UInt8} (hs : s ≠ [])
    (dest : List UInt8) :
    untranslatePacket dest (translatePacket s) =
      if (decode (hdlc.stuff s)).length ≤ dest.length then
        finishPacket (decode (hdlc.stuff s)) (dest.drop (decode (hdlc.stuff s)).length)
      else none := by
  rw [translatePacket_eq_frame, Stuffing.Code.frame]
  have hflag := hdlc.flag_not_mem_stuff s
  cases hstuff : hdlc.stuff s with
  | nil => exact absurd hstuff (hdlc.stuff_ne_nil hs)
  | cons b src =>
      rw [hstuff] at hflag
      have hb : b ≠ 0x7E := fun h => hflag (by simp [h, hdlc])
      have hsrc : (0x7E : UInt8) ∉ src := fun h => hflag (by simp [hdlc, h])
      have hfirst : decode (b :: src) = src.foldl decodeByte [b] := by
        simp [decode, decodeByte]
      have hlen := length_le_length_foldl_decodeByte src [b]
      have hloop : untranslatePacket dest (hdlc.flag :: (b :: src ++ [hdlc.flag])) =
          (store? dest 0 [b]).bind fun dest' =>
            untranslateLoop (src ++ [0x7E]) .packet dest' 1 := by
        simp [untranslatePacket, untranslateLoop, hdlc, hb]
      rw [hloop, hfirst]
      cases dest with
      | nil =>
          rw [if_neg]
          · rfl
          · simp only [List.length_singleton, List.length_nil] at hlen ⊢
            omega
      | cons r room =>
          have hstore : store? (r :: room) 0 [b] = some ([b] ++ room) :=
            store?_append_cons [] room r b
          have hpacket := untranslateLoop_packet [] src [b] room (by simp) hsrc
          simp only [List.length_singleton] at hpacket hlen
          rw [hstore, Option.bind_some, hpacket]
          obtain ⟨k, hk⟩ := Nat.exists_eq_add_of_le hlen
          rw [hk, Nat.add_sub_cancel_left, Nat.add_comm 1 k, List.drop_succ_cons,
            List.length_cons, Nat.add_comm 1 room.length]

/-! ## The round trip -/

/-- One symbol is decoded right when no unescaped `0x7D` stands before it. -/
theorem foldl_decodeByte_stuffOne {out : List UInt8} (h : out.getLast? ≠ some 0x7D)
    (c : UInt8) : (hdlc.stuffOne c).foldl decodeByte out = out ++ [c] := by
  by_cases hflag : c = 0x7E
  · subst hflag
    have hstuff : hdlc.stuffOne 0x7E = [0x7D, 0x5E] := rfl
    rw [hstuff, List.foldl_cons, List.foldl_cons, List.foldl_nil,
      decodeByte_of_getLast?_ne h, decodeByte_of_getLast? (by simp)]
    simp
  · by_cases hesc : c = 0x7D
    · subst hesc
      have hstuff : hdlc.stuffOne 0x7D = [0x7D, 0x5D] := rfl
      rw [hstuff, List.foldl_cons, List.foldl_cons, List.foldl_nil,
        decodeByte_of_getLast?_ne h, decodeByte_of_getLast? (by simp)]
      simp
    · rw [hdlc.stuffOne_of_ne hflag hesc, List.foldl_cons, List.foldl_nil,
        decodeByte_of_getLast?_ne h]

theorem foldl_decodeByte_stuff (init : List UInt8) (hinit : (0x7D : UInt8) ∉ init)
    (out : List UInt8) (h : out.getLast? ≠ some 0x7D) :
    (hdlc.stuff init).foldl decodeByte out = out ++ init := by
  induction init generalizing out with
  | nil => simp
  | cons a init ih =>
      have ha : a ≠ 0x7D := fun ha => hinit (by simp [ha])
      rw [Stuffing.Code.stuff_cons, List.foldl_append, foldl_decodeByte_stuffOne h,
        ih (fun hmem => hinit (by simp [hmem])) _ (by simpa using ha)]
      simp

/-- After an unescaped `0x7D` the next symbol adds nothing to the output. -/
theorem length_foldl_decodeByte_stuffOne {out : List UInt8}
    (h : out.getLast? = some 0x7D) (c : UInt8) :
    ((hdlc.stuffOne c).foldl decodeByte out).length = out.length := by
  have hesc : decodeByte out 0x7D = out := by
    rw [decodeByte_of_getLast? h]
    simp
  unfold Stuffing.Code.stuffOne
  split_ifs
  · have hfirst : decodeByte out hdlc.esc = out := hesc
    rw [List.foldl_cons, List.foldl_cons, List.foldl_nil, hfirst,
      length_decodeByte_of_getLast? h]
  · have hfirst : decodeByte out hdlc.esc = out := hesc
    rw [List.foldl_cons, List.foldl_cons, List.foldl_nil, hfirst,
      length_decodeByte_of_getLast? h]
  · rw [List.foldl_cons, List.foldl_nil, length_decodeByte_of_getLast? h]

theorem length_foldl_decodeByte_stuff_le (s out : List UInt8) :
    ((hdlc.stuff s).foldl decodeByte out).length ≤ out.length + s.length := by
  induction s generalizing out with
  | nil => simp
  | cons c s ih =>
      rw [Stuffing.Code.stuff_cons, List.foldl_append]
      have hrest := ih ((hdlc.stuffOne c).foldl decodeByte out)
      have hone : ((hdlc.stuffOne c).foldl decodeByte out).length ≤ out.length + 1 := by
        by_cases h : out.getLast? = some 0x7D
        · rw [length_foldl_decodeByte_stuffOne h]
          exact Nat.le_succ _
        · rw [foldl_decodeByte_stuffOne h]
          simp
      rw [List.length_cons]
      omega

theorem length_decode_stuff_lt {s : List UInt8} (h : (0x7D : UInt8) ∈ s.dropLast) :
    (decode (hdlc.stuff s)).length < s.length := by
  obtain ⟨init, mid, hsplit, hinit⟩ := List.eq_append_cons_of_mem h
  have hs : s ≠ [] := by
    rintro rfl
    simp at h
  obtain ⟨c, post, hpost⟩ : ∃ c post, mid ++ [s.getLast hs] = c :: post := by
    cases mid with
    | nil => exact ⟨_, _, rfl⟩
    | cons c mid => exact ⟨c, mid ++ [s.getLast hs], rfl⟩
  have hs' : s = init ++ 0x7D :: c :: post := by
    have hlast := (List.dropLast_append_getLast hs).symm
    rw [hsplit, List.append_assoc, List.cons_append, hpost] at hlast
    exact hlast
  have hprefix : (hdlc.stuff init).foldl decodeByte [] = init := by
    simpa using foldl_decodeByte_stuff init hinit [] (by simp)
  have hlast : init.getLast? ≠ some 0x7D := fun hmem =>
    hinit (List.mem_of_getLast? hmem)
  have hdecode : decode (hdlc.stuff s) = (hdlc.stuff post).foldl decodeByte
      ((hdlc.stuffOne c).foldl decodeByte (init ++ [0x7D])) := by
    rw [hs', decode, Stuffing.Code.stuff_append, List.foldl_append, hprefix,
      Stuffing.Code.stuff_cons, List.foldl_append, foldl_decodeByte_stuffOne hlast,
      Stuffing.Code.stuff_cons, List.foldl_append]
  have hswallow : ((hdlc.stuffOne c).foldl decodeByte (init ++ [0x7D])).length =
      (init ++ [0x7D]).length := length_foldl_decodeByte_stuffOne (by simp) c
  have hrest := length_foldl_decodeByte_stuff_le post
    ((hdlc.stuffOne c).foldl decodeByte (init ++ [0x7D]))
  rw [hdecode, hs']
  simp only [List.length_append, List.length_cons, List.length_nil] at hswallow hrest ⊢
  omega

theorem decode_stuff_of_not_mem {s : List UInt8} (hs : s ≠ [])
    (h : (0x7D : UInt8) ∉ s.dropLast) : decode (hdlc.stuff s) = s := by
  have hlast : s.dropLast.getLast? ≠ some 0x7D := fun hmem =>
    h (List.mem_of_getLast? hmem)
  have hprefix : (hdlc.stuff s.dropLast).foldl decodeByte [] = s.dropLast := by
    simpa using foldl_decodeByte_stuff s.dropLast h [] (by simp)
  conv_lhs => rw [← List.dropLast_append_getLast hs]
  rw [decode, Stuffing.Code.stuff_append, List.foldl_append, hprefix,
    Stuffing.Code.stuff_cons, Stuffing.Code.stuff_nil, List.append_nil,
    foldl_decodeByte_stuffOne hlast, List.dropLast_append_getLast hs]

/-- The length argument of the dropped checksum: `translated_size - 2` wraps for
a packet of one byte. -/
theorem toNat_checksumLength (n : ℕ) :
    (UInt32.ofNat n - 2).toNat = (n + 4294967294) % 4294967296 := by
  rw [UInt32.toNat_sub, UInt32.toNat_ofNat']
  have htwo : (2 : UInt32).toNat = 2 := rfl
  rw [htwo]
  omega

theorem finishPacket_eq_some_iff {out room : List UInt8} (hout : out ≠ [])
    (r : List UInt8 × ℕ) :
    finishPacket out room = some r ↔
      (2 ≤ out.length ∨ 4294967295 ≤ out.length + room.length) ∧
        r = (out ++ room, out.length) := by
  have hpos : 0 < out.length := List.length_pos_iff.mpr hout
  have hfits : (UInt32.ofNat out.length - 2).toNat ≤ (out ++ room).length ↔
      2 ≤ out.length ∨ 4294967295 ≤ out.length + room.length := by
    rw [toNat_checksumLength, List.length_append]
    omega
  rw [finishPacket, crc16LCalc?]
  by_cases h : (UInt32.ofNat out.length - 2).toNat ≤ (out ++ room).length
  · rw [if_pos h, Option.map_some, Option.some.injEq, eq_comm]
    exact (and_iff_right (hfits.mp h)).symm
  · rw [if_neg h, Option.map_none]
    exact ⟨fun hnone => (Option.some_ne_none r hnone.symm).elim,
      fun hpair => absurd (hfits.mpr hpair.1) h⟩

/-- `untranslate_packet` run on what `translate_packet` made of `s` leaves
exactly `s` at the start of `dest` and returns its length. -/
def RoundTrips (dest s : List UInt8) : Prop :=
  ∃ dest', untranslatePacket dest (translatePacket s) = some (dest', s.length) ∧
    dest'.take s.length = s

/-- The decoder gives a packet back exactly when the packet has no `0x7D` before
its last byte and has at least two bytes. A packet of one byte makes the checksum
read `2 ^ 32 - 1` bytes of `dest`. -/
theorem roundTrips_iff (s dest : List UInt8) (hs : s ≠ [])
    (hroom : s.length ≤ dest.length) :
    RoundTrips dest s ↔
      (0x7D : UInt8) ∉ s.dropLast ∧ (2 ≤ s.length ∨ 4294967295 ≤ dest.length) := by
  constructor
  · rintro ⟨dest', hrun, -⟩
    rw [untranslatePacket_translatePacket hs] at hrun
    split_ifs at hrun with hfull
    obtain ⟨hlong, hpair⟩ :=
      (finishPacket_eq_some_iff (decode_ne_nil (hdlc.stuff_ne_nil hs)) _).mp hrun
    have hlen : s.length = (decode (hdlc.stuff s)).length := (Prod.mk.inj hpair).2
    refine ⟨fun hmem => ?_, ?_⟩
    · have hlt := length_decode_stuff_lt hmem
      omega
    · rw [List.length_drop] at hlong
      omega
  · rintro ⟨hmem, hlong⟩
    have hdecode := decode_stuff_of_not_mem hs hmem
    refine ⟨s ++ dest.drop s.length, ?_, by simp⟩
    rw [untranslatePacket_translatePacket hs, hdecode, if_pos hroom,
      finishPacket_eq_some_iff hs]
    refine ⟨?_, rfl⟩
    rw [List.length_drop]
    omega

/-- The round trip of a packet that ends in an escaped `0x7D`. -/
theorem roundTrips_escape_last : RoundTrips [0, 0, 0, 0] [0x7E, 0x7D] :=
  (roundTrips_iff [0x7E, 0x7D] [0, 0, 0, 0] (by decide) (by decide)).mpr
    ⟨by decide, Or.inl (by decide)⟩

/-- The packet `41 7D 42` comes back as `41 7D`. -/
theorem not_roundTrips_escape_inside :
    ¬ ∀ s dest : List UInt8, s ≠ [] → s.length ≤ dest.length → RoundTrips dest s := by
  intro h
  obtain ⟨dest', hrun, -⟩ := h [0x41, 0x7D, 0x42] [0, 0, 0] (by decide) (by decide)
  have hcode : untranslatePacket [0, 0, 0] (translatePacket [0x41, 0x7D, 0x42]) =
      some ([0x41, 0x7D, 0], 2) := by decide
  rw [hcode] at hrun
  exact absurd (Prod.mk.inj (Option.some.inj hrun)).2 (by decide)

end ModemControl

end Tarako
