import Tarako.Engcs.SendData

/-!
# Batches of requests

Which batches of requests arrive as they were sent. The length that
`setup_send_data` writes is that of a request whose type has one digit, and
`get_send_fd` copies two bytes more than the request has then: behind a single
request these are zero, behind a request that is followed by another one they are
the first bytes of the next length. With each further digit of the type one byte
less is copied and the cursor falls one byte shorter.
-/

namespace Tarako

namespace Engcs

open Text

/-! ## One request -/

theorem isField_padded (n : ℕ) : IsField (padded n) := by
  constructor <;> intro h <;> rcases mem_padded h with h | h
  all_goals exact absurd h (by decide)

theorem isField_decimal (n : ℕ) : IsField (decimal n) :=
  ⟨fun h => absurd (isDigit_of_mem_decimal h) (by decide),
    fun h => absurd (isDigit_of_mem_decimal h) (by decide)⟩

namespace Request

/-- What `eng_parsecmd` should get. -/
def sent (r : Request) : Sent := ⟨r.fd, r.type, r.payload⟩

/-- The memory from the separators of a request on, as `get_send_fd` leaves it. -/
def cutBytes (r : Request) : List UInt8 :=
  padded (6 + 6 + 2 + r.payload.length) ++ 0 :: (padded r.fd ++ 0 :: (decimal r.type ++ [0]))

theorem digits_pos (r : Request) : 0 < r.digits := length_decimal_pos r.type

theorem digits_le_iff (r : Request) {k : ℕ} (hk : 0 < k) : r.digits ≤ k ↔ r.type < 10 ^ k :=
  length_decimal_le_iff hk

theorem length_bytes_eq (r : Request) :
    r.bytes.length =
      (padded (6 + 6 + 2 + r.payload.length)).length + 8 + r.digits + r.payload.length := by
  simp only [bytes, sendData, List.length_append, List.length_cons, digits,
    length_padded r.fd_le]
  omega

theorem length_payload_lt (r : Request) : r.payload.length < ENG_MAX_RW_SIZE := by
  have hfits : r.bytes.length < ENG_MAX_RW_SIZE := r.fits
  rw [length_bytes_eq] at hfits
  omega

theorem length_padded_length (r : Request) :
    (padded (6 + 6 + 2 + r.payload.length)).length = 5 := by
  have hlt : r.payload.length < 2048 - 20 := r.length_payload_lt
  exact length_padded (by omega)

theorem length_bytes (r : Request) : r.bytes.length = 13 + r.digits + r.payload.length := by
  rw [length_bytes_eq, length_padded_length]

theorem bytes_append (r : Request) (tail : List UInt8) :
    r.bytes ++ tail = padded (6 + 6 + 2 + r.payload.length) ++
      0x3B :: (padded r.fd ++ 0x3B :: (decimal r.type ++ 0x3B :: (r.payload ++ tail))) := by
  simp only [bytes, sendData, List.append_assoc, List.cons_append]

/-- A request starts with white space: its length has four digits at most. -/
theorem exists_padded_length_eq_cons (r : Request) :
    ∃ m, padded (6 + 6 + 2 + r.payload.length) = 32 :: m := by
  have hlt : r.payload.length < 2048 - 20 := r.length_payload_lt
  exact exists_padded_eq_cons (by omega)

/-- `get_send_fd` on a request at the start of the text: the bytes copied are the
payload and `3 - digits` bytes behind it. -/
theorem getSendFd_eq_some_iff (r : Request) (tail : List UInt8)
    (buf : Buffer UInt8 ENG_BUF_LEN) (f : SendFd) :
    getSendFd (r.bytes ++ tail) buf = some f ↔
      r.digits < 8 ∧ ∃ n : ℕ, n + r.digits = r.payload.length + 3 ∧
        n ≤ r.payload.length + tail.length ∧ n ≤ ENG_BUF_LEN ∧
        f.len = 14 + r.payload.length ∧ f.fd = r.fd ∧ f.type = r.type ∧
        f.inbuf = r.cutBytes ++ (r.payload ++ tail) ∧
        f.outbuf.bytes = Splice.splice buf.bytes 0 ((r.payload ++ tail).take n) := by
  have hcut : padded (6 + 6 + 2 + r.payload.length) ++
      0 :: (padded r.fd ++ 0 :: (decimal r.type ++ 0 :: (r.payload ++ tail))) =
        r.cutBytes ++ (r.payload ++ tail) := by
    simp only [cutBytes, List.append_assoc, List.cons_append, List.nil_append]
  have hlen := r.length_padded_length
  have hfd := length_padded r.fd_le
  have hd : (decimal r.type).length = r.digits := rfl
  rw [bytes_append, getSendFd_append (isField_padded _) (isField_padded _) (isField_decimal _)]
  rw [hlen, hfd, hd]
  by_cases hdigits : r.digits < 8
  · rw [if_pos ⟨by decide, by decide, hdigits⟩, copyData_eq_some_iff, hlen, hfd, hd, atoi_padded,
      atoi_padded, atoi_decimal, hcut, List.length_append]
    constructor
    · rintro ⟨n, hatoi, hrest, hbuf, hflen, hf⟩
      exact ⟨hdigits, n, by omega, hrest, hbuf, by omega, hf⟩
    · rintro ⟨-, n, hn, hrest, hbuf, hflen, hf⟩
      exact ⟨n, by omega, hrest, hbuf, by omega, hf⟩
  · rw [if_neg fun h => hdigits h.2.2]
    constructor
    · intro h
      cases h
    · intro h
      exact absurd h.1 hdigits

theorem exists_getSendFd (r : Request) {tail : List UInt8} (hdigits : r.digits ≤ 3)
    (htail : 2 ≤ tail.length) (buf : Buffer UInt8 ENG_BUF_LEN) :
    ∃ f, getSendFd (r.bytes ++ tail) buf = some f := by
  have hpayload : r.payload.length < 2048 - 20 := r.length_payload_lt
  have hpos := r.digits_pos
  have hcopy : ((r.payload ++ tail).take (r.payload.length + 3 - r.digits)).length =
      r.payload.length + 3 - r.digits := by
    rw [List.length_take, List.length_append]
    omega
  have hbuf : r.payload.length + 3 - r.digits ≤ ENG_BUF_LEN := by
    rw [ENG_BUF_LEN]
    omega
  refine ⟨⟨14 + r.payload.length, r.fd, r.type, r.cutBytes ++ (r.payload ++ tail),
    buf.write 0 ((r.payload ++ tail).take (r.payload.length + 3 - r.digits)) (by omega)⟩, ?_⟩
  rw [getSendFd_eq_some_iff]
  exact ⟨by omega, r.payload.length + 3 - r.digits, by omega, by omega, hbuf, rfl, rfl, rfl, rfl,
    rfl⟩

/-- The last bytes of a request, which the next cursor does not skip. -/
def leftover (r : Request) : List UInt8 :=
  ((decimal r.type ++ [0]).drop 2 ++ r.payload).drop r.payload.length

theorem drop_cutBytes (r : Request) (m : List UInt8) :
    (r.cutBytes ++ (r.payload ++ m)).drop (14 + r.payload.length) = r.leftover ++ m := by
  have hcut : r.cutBytes ++ (r.payload ++ m) =
      (padded (6 + 6 + 2 + r.payload.length) ++ 0 :: (padded r.fd ++ [0])) ++
        ((decimal r.type ++ [0]) ++ (r.payload ++ m)) := by
    simp [cutBytes]
  have hhead : (padded (6 + 6 + 2 + r.payload.length) ++ 0 :: (padded r.fd ++ [0])).length =
      12 := by
    simp [length_padded r.fd_le, length_padded_length]
  have htwo : 2 ≤ (decimal r.type ++ [0]).length := by
    have hpos := length_decimal_pos r.type
    rw [List.length_append, List.length_singleton]
    omega
  have hdrop : (r.cutBytes ++ (r.payload ++ m)).drop 12 =
      (decimal r.type ++ [0]) ++ (r.payload ++ m) := by
    rw [hcut, List.drop_left' hhead]
  have hsplit : 14 + r.payload.length = 12 + (2 + r.payload.length) := by omega
  rw [hsplit, ← List.drop_drop, hdrop, ← List.drop_drop,
    List.drop_append_of_le_length htwo, ← List.append_assoc, leftover,
    List.drop_append_of_le_length]
  rw [List.length_append]
  omega

theorem length_leftover (r : Request) : r.leftover.length = r.digits - 1 := by
  simp only [leftover, List.length_drop, List.length_append, List.length_singleton, digits]
  omega

theorem leftover_eq_nil {r : Request} (h : r.digits = 1) : r.leftover = [] := by
  rw [← List.length_eq_zero_iff, length_leftover, h]

theorem leftover_of_digits_two {r : Request} (h : r.digits = 2) :
    r.leftover = (0 :: r.payload).drop r.payload.length := by
  obtain ⟨a, b, hab⟩ := List.length_eq_two.mp h
  rw [leftover, hab]
  rfl

theorem leftover_of_digits_three {r : Request} (h : r.digits = 3) :
    ∃ c, isDigit c ∧ r.leftover = (c :: 0 :: r.payload).drop r.payload.length := by
  obtain ⟨a, b, c, habc⟩ := List.length_eq_three.mp h
  refine ⟨c, isDigit_of_mem_decimal (n := r.type) (by simp [habc]), ?_⟩
  rw [leftover, habc]
  rfl

/-- The last byte of the payload is left, or the cut before an empty one. -/
theorem leftover_two_cases {r : Request} (h : r.digits = 2) :
    r.payload = [] ∧ r.leftover = [0] ∨ ∃ p x, r.payload = p ++ [x] ∧ r.leftover = [x] := by
  have hleft := leftover_of_digits_two h
  rcases List.eq_nil_or_concat' r.payload with hp | ⟨p, x, hp⟩
  · exact Or.inl ⟨hp, by rw [hleft, hp]; rfl⟩
  · refine Or.inr ⟨p, x, hp, ?_⟩
    rw [hleft, hp, List.length_append, List.length_singleton, List.drop_succ_cons, List.drop_left]

theorem leftover_three_cases {r : Request} (h : r.digits = 3) :
    r.payload = [] ∧ (∃ c, isDigit c ∧ r.leftover = [c, 0]) ∨
      (∃ x, r.payload = [x] ∧ r.leftover = [0, x]) ∨
        ∃ p x y, r.payload = p ++ [x, y] ∧ r.leftover = [x, y] := by
  obtain ⟨c, hc, hleft⟩ := leftover_of_digits_three h
  rcases List.eq_nil_or_concat' r.payload with hp | ⟨q, y, hp⟩
  · exact Or.inl ⟨hp, c, hc, by rw [hleft, hp]; rfl⟩
  · right
    rcases List.eq_nil_or_concat' q with rfl | ⟨p, x, rfl⟩
    · exact Or.inl ⟨y, hp, by rw [hleft, hp]; rfl⟩
    · rw [List.append_assoc, List.singleton_append] at hp
      refine Or.inr ⟨p, x, y, hp, ?_⟩
      rw [hleft, hp, List.length_append]
      exact List.drop_left

end Request

/-! ## Fresh memory -/

theorem tmpBuf_bytes {read : List UInt8} (h : read.length ≤ ENG_BUF_LEN) :
    (tmpBuf read).bytes = read ++ List.replicate (ENG_BUF_LEN - read.length) 0 := by
  change Splice.splice (List.replicate ENG_BUF_LEN 0) 0 (read.take ENG_BUF_LEN) = _
  rw [List.take_of_length_le h, Splice.splice, List.take_zero, List.nil_append, Nat.zero_add,
    List.drop_replicate]

/-- The first request arrives unaltered when no byte that is copied behind it
belongs to a text. -/
theorem sent_eq_iff (r : Request) {tail : List UInt8} {f : SendFd}
    (h : getSendFd (r.bytes ++ tail) (Buffer.fill ENG_BUF_LEN 0) = some f) :
    f.sent = r.sent ↔ r.digits ≤ 3 ∧ cstring (tail.take (3 - r.digits)) = [] := by
  obtain ⟨-, n, hn, -, -, -, hfd, htype, -, hbytes⟩ := (r.getSendFd_eq_some_iff _ _ _).mp h
  have hdata : cstring f.outbuf.bytes = cstring ((r.payload ++ tail).take n) := by
    rw [hbytes, cstring_splice_fill]
  rw [SendFd.sent, Request.sent, hfd, htype, hdata, Sent.mk.injEq]
  by_cases hdigits : r.digits ≤ 3
  · have hcount : n = r.payload.length + (3 - r.digits) := by omega
    rw [hcount, List.take_length_add_append, cstring_append_of_not_mem r.zero_not_mem,
      List.append_right_eq_self]
    simp [hdigits]
  · constructor
    · rintro ⟨-, -, heq⟩
      have hlen := length_cstring_le ((r.payload ++ tail).take n)
      rw [heq, List.length_take] at hlen
      omega
    · rintro ⟨hle, -⟩
      exact absurd hle hdigits

/-! ## Which batches arrive -/

/-- The decode loop hands on exactly the requests of the batch, once and in order. -/
def Decodes (rs : List Request) : Prop :=
  engServermodemComm (fun l f => l ++ [f]) [] (rs.flatMap Request.bytes) =
    some (rs.map Request.sent)

instance (rs : List Request) : Decidable (Decodes rs) := by
  unfold Decodes
  infer_instance

/-- A request whose framing is read back by itself. -/
def Request.Framed (r : Request) : Prop :=
  r.type < 10 ∨ r.type < 100 ∧ r.payload = [] ∨
    100 ≤ r.type ∧ r.type < 1000 ∧ r.payload.length = 1

/-- At most one request, with a framing that is read back. -/
def Sound (rs : List Request) : Prop := rs = [] ∨ ∃ r : Request, rs = [r] ∧ r.Framed

/-- The type of the first of several requests has three digits, and the two bytes of
its payload that the cursor falls on can be read as a part of the next length. -/
def LengthOverlap (rs : List Request) : Prop :=
  ∃ (r r' : Request) (rest : List Request) (p : List UInt8) (x y : UInt8),
    rs = r :: r' :: rest ∧ 100 ≤ r.type ∧ r.type < 1000 ∧ r.payload = p ++ [x, y] ∧
      (isSpace x ∧ isSpace y ∨ isDigit x ∧ isDigit y)

theorem Request.digits_eq_three_iff (r : Request) :
    r.digits = 3 ↔ 100 ≤ r.type ∧ r.type < 1000 := by
  have htwo := r.digits_le_iff (k := 2) (by decide)
  have hthree := r.digits_le_iff (k := 3) (by decide)
  omega

theorem decodes_cons_iff {r : Request} {rs : List Request}
    (h : ((r :: rs).flatMap Request.bytes).length ≤ ENG_BUF_LEN) :
    Decodes (r :: rs) ↔
      commLoop (fun l f => l ++ [f]) ENG_BUF_LEN [] (r.bytes ++ (rs.flatMap Request.bytes ++
        List.replicate (ENG_BUF_LEN - ((r :: rs).flatMap Request.bytes).length) 0)) 0
        (Buffer.fill ENG_BUF_LEN 0) = some (r.sent :: rs.map Request.sent) := by
  have hne : (r :: rs).flatMap Request.bytes ≠ [] := by
    rw [← List.length_pos_iff, List.flatMap_cons, List.length_append, r.length_bytes]
    omega
  rw [Decodes, engServermodemComm, if_neg hne, tmpBuf_bytes h, List.map_cons,
    List.flatMap_cons, List.append_assoc]

/-- The first turn of the loop when the first request arrives unaltered. -/
theorem Request.of_commLoop (r : Request) {tail : List UInt8} {fuel : ℕ} {l : List Sent}
    (h : commLoop (fun l f => l ++ [f]) fuel [] (r.bytes ++ tail) 0
      (Buffer.fill ENG_BUF_LEN 0) = some (r.sent :: l)) :
    r.digits ≤ 3 ∧ cstring (tail.take (3 - r.digits)) = [] ∧
      ∃ w ws, r.leftover ++ tail = w :: ws ∧
        (w = 0 ∧ l = [] ∨ w ≠ 0 ∧ ∃ buf f, getSendFd (w :: ws) buf = some f) := by
  obtain ⟨f, hf, hturn⟩ := exists_of_commLoop _ h
  obtain ⟨-, n, -, -, -, hlen, -, -, hinbuf, -⟩ := (r.getSendFd_eq_some_iff _ _ _).mp hf
  have hdrop : f.inbuf.drop (0 + f.len) = r.leftover ++ tail := by
    rw [hinbuf, hlen, Nat.zero_add, drop_cutBytes]
  have hpayload := r.length_payload_lt
  rcases hturn with ⟨hstop, -⟩ | ⟨w, ws, hws, hturn⟩
  · rw [ENG_MAX_RW_SIZE] at hpayload
    rw [ENG_BUF_LEN] at hstop
    omega
  · rw [hdrop] at hws
    rcases hturn with ⟨hw, heq⟩ | ⟨hw, m, hnext⟩
    · obtain ⟨hsent, hl⟩ := List.cons.inj heq
      obtain ⟨hdigits, htail⟩ := (sent_eq_iff r hf).mp hsent.symm
      exact ⟨hdigits, htail, w, ws, hws, Or.inl ⟨hw, hl⟩⟩
    · obtain ⟨l', hl', heq⟩ := exists_append_of_commLoop hnext
      obtain ⟨hdigits, htail⟩ := (sent_eq_iff r hf).mp (List.cons.inj heq).1.symm
      obtain ⟨g, hg, -⟩ := exists_of_commLoop _ hl'
      exact ⟨hdigits, htail, w, ws, hws, Or.inr ⟨hw, _, g, hg⟩⟩

/-- Two bytes of a request with nothing behind them are no request. -/
theorem getSendFd_append_replicate {q : List UInt8} (hq : q.length ≤ 2) (n : ℕ)
    (buf : Buffer UInt8 ENG_BUF_LEN) : getSendFd (q ++ List.replicate n 0) buf = none := by
  apply getSendFd_eq_none
  rw [cstring_append_replicate]
  have hcount : (cstring q).count 0x3B ≤ (cstring q).length := List.count_le_length
  have hlen := length_cstring_le q
  omega

/-- For a single request the loop ends if and only if the first byte that the cursor
does not skip is a cut separator. -/
theorem Request.framed_iff (r : Request) :
    r.Framed ↔ r.digits ≤ 3 ∧ (r.leftover = [] ∨ ∃ q, r.leftover = 0 :: q) := by
  have hone := r.digits_le_iff (k := 1) (by decide)
  have htwo := r.digits_le_iff (k := 2) (by decide)
  have hthree := r.digits_le_iff (k := 3) (by decide)
  have hpos := r.digits_pos
  have hzero := r.zero_not_mem
  by_cases h1 : r.digits = 1
  · simp only [leftover_eq_nil h1, true_or, and_true]
    exact ⟨fun _ => by omega, fun _ => Or.inl (by omega)⟩
  by_cases h2 : r.digits = 2
  · have htype : 10 ≤ r.type ∧ r.type < 100 := by omega
    rcases leftover_two_cases h2 with ⟨hp, hleft⟩ | ⟨p, x, hp, hleft⟩
    · exact ⟨fun _ => ⟨by omega, Or.inr ⟨[], hleft⟩⟩, fun _ => Or.inr (Or.inl ⟨htype.2, hp⟩)⟩
    · have hx : x ≠ 0 := by
        rintro rfl
        simp [hp] at hzero
      constructor
      · rintro (h | ⟨-, h⟩ | ⟨h, -⟩)
        · omega
        · simp [hp] at h
        · omega
      · rintro ⟨-, h | ⟨q, h⟩⟩
        · simp [hleft] at h
        · rw [hleft] at h
          exact absurd (List.cons.inj h).1 hx
  by_cases h3 : r.digits = 3
  · have htype := r.digits_eq_three_iff.mp h3
    rcases leftover_three_cases h3 with ⟨hp, c, hc, hleft⟩ | ⟨x, hp, hleft⟩ | ⟨p, x, y, hp, hleft⟩
    · constructor
      · rintro (h | ⟨h, -⟩ | ⟨-, -, h⟩)
        · omega
        · omega
        · simp [hp] at h
      · rintro ⟨-, h | ⟨q, h⟩⟩
        · simp [hleft] at h
        · rw [hleft] at h
          rw [(List.cons.inj h).1] at hc
          exact absurd hc (by decide)
    · exact ⟨fun _ => ⟨by omega, Or.inr ⟨[x], hleft⟩⟩,
        fun _ => Or.inr (Or.inr ⟨htype.1, htype.2, by rw [hp]; rfl⟩)⟩
    · have hx : x ≠ 0 := by
        rintro rfl
        simp [hp] at hzero
      constructor
      · rintro (h | ⟨h, -⟩ | ⟨-, -, h⟩)
        · omega
        · omega
        · simp [hp] at h
      · rintro ⟨-, h | ⟨q, h⟩⟩
        · simp [hleft] at h
        · rw [hleft] at h
          exact absurd (List.cons.inj h).1 hx
  · constructor
    · rintro (h | ⟨h, -⟩ | ⟨-, h, -⟩) <;> omega
    · rintro ⟨h, -⟩
      omega

theorem decodes_singleton_iff (r : Request) : Decodes [r] ↔ r.Framed := by
  have hfits : r.bytes.length < ENG_MAX_RW_SIZE := r.fits
  have htotal : ([r].flatMap Request.bytes).length = r.bytes.length := by
    rw [List.flatMap_singleton]
  have hbuf : ENG_MAX_RW_SIZE + 20 = ENG_BUF_LEN := rfl
  rw [decodes_cons_iff (by omega), htotal, List.flatMap_nil, List.nil_append, List.map_nil,
    r.framed_iff]
  obtain ⟨k, hk⟩ : ∃ k, ENG_BUF_LEN - r.bytes.length = k + 2 :=
    ⟨ENG_BUF_LEN - r.bytes.length - 2, by omega⟩
  rw [hk]
  constructor
  · intro h
    obtain ⟨hdigits, -, w, ws, hws, hend | ⟨hw, buf, f, hf⟩⟩ := r.of_commLoop h
    · refine ⟨hdigits, ?_⟩
      cases hleft : r.leftover with
      | nil => exact Or.inl rfl
      | cons a q =>
          rw [hleft, List.cons_append] at hws
          exact Or.inr ⟨q, by rw [(List.cons.inj hws).1, hend.1]⟩
    · have hlen := r.length_leftover
      rw [← hws, getSendFd_append_replicate (by omega)] at hf
      cases hf
  · rintro ⟨hdigits, hleft⟩
    have htail : 2 ≤ (List.replicate (k + 2) (0 : UInt8)).length := by
      rw [List.length_replicate]
      omega
    obtain ⟨f, hf⟩ := r.exists_getSendFd hdigits htail (Buffer.fill ENG_BUF_LEN 0)
    obtain ⟨-, n, -, -, -, hlen, -, -, hinbuf, -⟩ := (r.getSendFd_eq_some_iff _ _ _).mp hf
    have hsent : f.sent = r.sent := by
      rw [sent_eq_iff r hf]
      refine ⟨hdigits, ?_⟩
      rw [List.take_replicate]
      exact cstring_append_replicate [] _
    obtain ⟨ws, hws⟩ : ∃ ws, r.leftover ++ List.replicate (k + 2) 0 = 0 :: ws := by
      rcases hleft with hleft | ⟨q, hleft⟩
      · exact ⟨List.replicate (k + 1) 0, by rw [hleft]; rfl⟩
      · exact ⟨q ++ List.replicate (k + 2) 0, by rw [hleft]; rfl⟩
    have hdrop : f.inbuf.drop (0 + f.len) = 0 :: ws := by
      rw [hinbuf, hlen, Nat.zero_add, Request.drop_cutBytes, hws]
    rw [← hsent]
    exact commLoop_of_end _ hf hdrop 2047 []

/-- Two bytes of text before a request are read as a part of its length. -/
theorem isSpace_or_isDigit_of_getSendFd {r : Request} {x y : UInt8} (hx : x ≠ 0) (hy : y ≠ 0)
    {tail : List UInt8} {buf : Buffer UInt8 ENG_BUF_LEN} {f : SendFd}
    (h : getSendFd (x :: y :: (r.bytes ++ tail)) buf = some f) :
    isSpace x ∧ isSpace y ∨ isDigit x ∧ isDigit y := by
  by_contra hnot
  rw [not_or] at hnot
  have hlen := r.length_padded_length
  have hfd := length_padded r.fd_le
  have hpad := isField_padded (6 + 6 + 2 + r.payload.length)
  by_cases hxs : x = 0x3B
  · -- an empty length
    subst hxs
    obtain ⟨n, hn⟩ := exists_atoi_eq (s := []) ⟨by simp, by simp⟩ h
    simp [atoi] at hn
    omega
  rw [r.bytes_append] at h
  by_cases hys : y = 0x3B
  · -- a length of one character, with the length of the request as its descriptor
    subst hys
    have hfield : IsField [x] := ⟨by simpa using Ne.symm hxs, by simpa using Ne.symm hx⟩
    have hone := atoi_singleton_le x
    have happ := getSendFd_append hfield hpad (isField_padded r.fd)
      (decimal r.type ++ 0x3B :: (r.payload ++ tail)) buf
    rw [List.singleton_append] at happ
    rw [happ] at h
    split_ifs at h
    obtain ⟨n, hn, -⟩ := copyData_eq_some_iff.mp h
    rw [List.length_singleton] at hn
    omega
  · have hfield : IsField (x :: y :: padded (6 + 6 + 2 + r.payload.length)) := by
      constructor
      · simpa [Ne.symm hxs, Ne.symm hys] using hpad.1
      · simpa [Ne.symm hx, Ne.symm hy] using hpad.2
    have happ := getSendFd_append hfield (isField_padded r.fd) (isField_decimal r.type)
      (r.payload ++ tail) buf
    rw [List.cons_append, List.cons_append] at happ
    rw [happ] at h
    split_ifs at h
    obtain ⟨n, hn, -⟩ := copyData_eq_some_iff.mp h
    obtain ⟨m, hm⟩ := r.exists_padded_length_eq_cons
    have hle := atoi_cons_cons_space_le hnot.1 hnot.2 m
    rw [hm] at hn hlen
    simp only [List.length_cons] at hn hlen
    omega

/-- Behind the first of several requests there is text, so that its payload arrives
unaltered only when nothing is copied behind it. Then the cursor falls on its last two
bytes. -/
theorem lengthOverlap_of_decodes {r r' : Request} {rs : List Request}
    (hlen : ((r :: r' :: rs).flatMap Request.bytes).length < ENG_BUF_LEN)
    (h : Decodes (r :: r' :: rs)) : LengthOverlap (r :: r' :: rs) := by
  rw [decodes_cons_iff (Nat.le_of_lt hlen), List.flatMap_cons, List.append_assoc] at h
  obtain ⟨hle, htail, w, ws, hws, hturn⟩ := r.of_commLoop h
  have hdigits : r.digits = 3 := by
    by_contra hne
    obtain ⟨k, hk⟩ : ∃ k, 3 - r.digits = k + 1 := ⟨2 - r.digits, by omega⟩
    obtain ⟨m, hm⟩ := r'.exists_padded_length_eq_cons
    rw [hk, r'.bytes_append, hm, List.cons_append, List.take_succ_cons, cstring] at htail
    simp at htail
  have hzero := r.zero_not_mem
  rcases r.leftover_three_cases hdigits with
    ⟨-, c, hc, hleft⟩ | ⟨x, -, hleft⟩ | ⟨p, x, y, hp, hleft⟩
  · -- the cursor falls on the type, which ends before any separator
    rw [hleft] at hws
    obtain ⟨rfl, rfl⟩ := List.cons.inj hws
    rcases hturn with ⟨rfl, -⟩ | ⟨hw, buf, f, hf⟩
    · exact absurd hc (by decide)
    · rw [getSendFd_eq_none] at hf
      · cases hf
      · rw [cstring, List.takeWhile_cons_of_pos (by simpa using hw)]
        simp only [List.append_eq, List.cons_append, List.takeWhile_cons, ne_eq]
        have hcount : [c].count 0x3B ≤ 1 := List.count_le_length
        simp
        omega
  · -- the loop ends here
    rw [hleft] at hws
    obtain ⟨rfl, rfl⟩ := List.cons.inj hws
    rcases hturn with ⟨-, hnil⟩ | ⟨hw, -⟩
    · simp at hnil
    · exact absurd rfl hw
  · have hx : x ≠ 0 := by
      rintro rfl
      simp [hp] at hzero
    have hy : y ≠ 0 := by
      rintro rfl
      simp [hp] at hzero
    rw [hleft] at hws
    obtain ⟨rfl, rfl⟩ := List.cons.inj hws
    rcases hturn with ⟨hw, -⟩ | ⟨-, buf, f, hf⟩
    · exact absurd hw hx
    · obtain ⟨h100, h1000⟩ := r.digits_eq_three_iff.mp hdigits
      exact ⟨r, r', rs, p, x, y, rfl, h100, h1000, hp, isSpace_or_isDigit_of_getSendFd hx hy hf⟩

theorem sound_or_lengthOverlap_of_decodes {rs : List Request}
    (hlen : (rs.flatMap Request.bytes).length < ENG_BUF_LEN) (h : Decodes rs) :
    Sound rs ∨ LengthOverlap rs := by
  match rs, hlen, h with
  | [], _, _ => exact Or.inl (Or.inl rfl)
  | [r], _, h => exact Or.inl (Or.inr ⟨r, rfl, (decodes_singleton_iff r).mp h⟩)
  | r :: r' :: rs, hlen, h => exact Or.inr (lengthOverlap_of_decodes hlen h)

theorem decodes_of_sound {rs : List Request} (h : Sound rs) : Decodes rs := by
  rcases h with rfl | ⟨r, rfl, hr⟩
  · rfl
  · exact (decodes_singleton_iff r).mpr hr

/-! ## Any payloads -/

def Request.withPayload (r : Request) (p : List UInt8) (hzero : 0 ∉ p)
    (hfits : 13 + r.digits + p.length < ENG_MAX_RW_SIZE) : Request :=
  { r with
    payload := p
    zero_not_mem := hzero
    fits := by
      have hpad : (padded (6 + 6 + 2 + p.length)).length = 5 := by
        rw [ENG_MAX_RW_SIZE] at hfits
        exact length_padded (by omega)
      rw [Request.digits] at hfits
      simp only [sendData, List.length_append, List.length_cons, hpad, length_padded r.fd_le]
      omega }

def Request.clear (r : Request) : Request :=
  r.withPayload [] (by simp) (by
    have hfits : r.bytes.length < ENG_MAX_RW_SIZE := r.fits
    rw [r.length_bytes] at hfits
    rw [List.length_nil]
    omega)

/-- Two batches from the same clients. -/
def SameSenders (rs rs' : List Request) : Prop :=
  rs.map (fun r => (r.fd, r.type)) = rs'.map fun r => (r.fd, r.type)

theorem length_flatMap_clear_le (rs : List Request) :
    ((rs.map Request.clear).flatMap Request.bytes).length ≤
      (rs.flatMap Request.bytes).length := by
  induction rs with
  | nil => exact Nat.le_refl _
  | cons r rs ih =>
      have hclear := r.clear.length_bytes
      have hbytes := r.length_bytes
      have hdigits : r.clear.digits = r.digits := rfl
      have hpayload : r.clear.payload.length = 0 := rfl
      rw [List.map_cons, List.flatMap_cons, List.flatMap_cons, List.length_append,
        List.length_append]
      omega

theorem sameSenders_map_clear (rs : List Request) : SameSenders rs (rs.map Request.clear) := by
  rw [SameSenders, List.map_map]
  rfl

theorem length_singleton_lt (r : Request) :
    ([r].flatMap Request.bytes).length < ENG_BUF_LEN := by
  rw [List.flatMap_singleton]
  exact Nat.lt_of_lt_of_le r.fits (by decide)

/-- The senders for whom every batch arrives, whatever the payloads: one client at
most, with a type of one digit. -/
theorem forall_decodes_iff (rs : List Request)
    (hlen : (rs.flatMap Request.bytes).length < ENG_BUF_LEN) :
    (∀ rs' : List Request, SameSenders rs rs' →
        (rs'.flatMap Request.bytes).length < ENG_BUF_LEN → Decodes rs') ↔
      rs = [] ∨ ∃ r : Request, rs = [r] ∧ r.type < 10 := by
  constructor
  · intro h
    match rs, hlen, h with
    | [], _, _ => exact Or.inl rfl
    | [r], hlen, h =>
        refine Or.inr ⟨r, rfl, ?_⟩
        by_contra htype
        by_cases hdigits : r.digits = 2
        · -- one byte of payload
          have hlt := (r.digits_le_iff (k := 2) (by decide)).mp (Nat.le_of_eq hdigits)
          have hone := h [r.withPayload [32] (by decide) (by rw [hdigits]; decide)] rfl
            (length_singleton_lt _)
          rcases (decodes_singleton_iff _).mp hone with hframed | ⟨-, hnil⟩ | ⟨hle, -⟩
          · exact htype hframed
          · exact absurd hnil (List.cons_ne_nil 32 [])
          · exact absurd hlt (Nat.not_lt.mpr hle)
        · -- no payload
          have htwo := r.digits_le_iff (k := 2) (by decide)
          have hone := r.digits_le_iff (k := 1) (by decide)
          have hpos := r.digits_pos
          have hclear := h [r.clear] rfl (length_singleton_lt _)
          rcases (decodes_singleton_iff _).mp hclear with hframed | ⟨hlt, -⟩ | ⟨-, -, hlength⟩
          · exact htype hframed
          · change r.type < 100 at hlt
            omega
          · exact absurd hlength (by decide : ¬ (0 = 1))
    | r :: r' :: rs, hlen, h =>
        exfalso
        have hclear := Nat.lt_of_le_of_lt (length_flatMap_clear_le (r :: r' :: rs)) hlen
        obtain ⟨s, s', rest, p, x, y, heq, -, -, hp, -⟩ :=
          lengthOverlap_of_decodes hclear (h _ (sameSenders_map_clear (r :: r' :: rs)) hclear)
        rw [← (List.cons.inj heq).1] at hp
        exact absurd hp (by simp [Request.clear, Request.withPayload])
  · rintro (rfl | ⟨r, rfl, htype⟩) rs' hsame hlen'
    · obtain rfl := List.map_eq_nil_iff.mp hsame.symm
      rfl
    · obtain ⟨r', rfl, hr'⟩ := List.map_eq_singleton_iff.mp hsame.symm
      have hr : r'.type = r.type := (Prod.mk.inj hr').2
      exact (decodes_singleton_iff r').mpr (Or.inl (by omega))

/-! ## The batch -/

/-- A batch that is read in one go arrives as it was sent when it is sound, and
otherwise only through bytes of a payload that pass for a part of a length. Its senders
can be sure of it, whatever they send, when there is one of them at most and its type
has one digit. -/
theorem decodes_batch (rs : List Request)
    (hlen : (rs.flatMap Request.bytes).length < ENG_BUF_LEN) :
    (Sound rs → Decodes rs) ∧ (Decodes rs → Sound rs ∨ LengthOverlap rs) ∧
      ((∀ rs' : List Request, SameSenders rs rs' →
          (rs'.flatMap Request.bytes).length < ENG_BUF_LEN → Decodes rs') ↔
        rs = [] ∨ ∃ r : Request, rs = [r] ∧ r.type < 10) :=
  ⟨decodes_of_sound, sound_or_lengthOverlap_of_decodes hlen, forall_decodes_iff rs hlen⟩

/-- `"AT"` from the client on descriptor 7. -/
def Request.at7 : Request := ⟨7, 0, [65, 84], by decide, by decide, by decide, by decide⟩

/-- `"AT"` from the client on descriptor 8. -/
def Request.at8 : Request := ⟨8, 1, [65, 84], by decide, by decide, by decide, by decide⟩

theorem decodes_batch_single :
    (Sound [Request.at7] → Decodes [Request.at7]) ∧
      (Decodes [Request.at7] → Sound [Request.at7] ∨ LengthOverlap [Request.at7]) ∧
      ((∀ rs' : List Request, SameSenders [Request.at7] rs' →
          (rs'.flatMap Request.bytes).length < ENG_BUF_LEN → Decodes rs') ↔
        [Request.at7] = [] ∨ ∃ r : Request, [Request.at7] = [r] ∧ r.type < 10) :=
  decodes_batch [Request.at7] (by decide)

/-- Two requests in one read: the first payload gets two bytes of the second length. -/
theorem not_decodes_pair :
    ¬ ∀ rs : List Request, (rs.flatMap Request.bytes).length < ENG_BUF_LEN → Decodes rs := by
  intro h
  exact absurd (h [Request.at7, Request.at8] (by decide)) (by decide +kernel)

/-- A first payload of two spaces, which `atoi` skips: the batch arrives although it is
not sound. -/
example : Decodes [⟨7, 100, [32, 32], by decide, by decide, by decide, by decide⟩,
    Request.at8] := by
  decide +kernel

end Engcs

end Tarako
