import Tarako.Lib.Splice
import Tarako.Lib.Text

/-!
# Requests between `engservice` and the modem client

`engservice` frames the request of a client as text: a length, the descriptor of
the client, its type and the request itself. `eng_servermodem_comm` reads a batch of
such requests in one go and walks through it with `get_send_fd` and the cursor
`words`. Memory that a pointer points to is the list of the bytes from there to the
end of the array. A call that the code does not survive has no result: it writes
through a null pointer, or it leaves one of its arrays.
-/

namespace Tarako

namespace Engcs

open Text

def ENG_BUF_LEN : ℕ := 2048

def ENG_MAX_RW_SIZE : ℕ := 2048 - 20

/-! ## `engservice` -/

/-- What `setup_send_data` prints: `"%5d;%5d;%d;%s"`. -/
def sendData (fd type : ℕ) (inbuf : List UInt8) : List UInt8 :=
  padded (6 + 6 + 2 + inbuf.length) ++
    0x3B :: (padded fd ++ 0x3B :: (decimal type ++ 0x3B :: inbuf))

/-- A request that `engservice` can pass on. -/
structure Request where
  fd : ℕ
  type : ℕ
  payload : List UInt8
  fd_le : fd ≤ 99999
  type_le : type ≤ 2147483647
  zero_not_mem : 0 ∉ payload
  fits : (sendData fd type payload).length < ENG_MAX_RW_SIZE

namespace Request

def bytes (r : Request) : List UInt8 := sendData r.fd r.type r.payload

def digits (r : Request) : ℕ := (decimal r.type).length

end Request

/-! ## The modem client -/

/-- Up to the next `';'`: the text that is printed into `strtmp[8]`, and the memory
behind the `';'`. -/
def nextField (inbuf : List UInt8) : Option (List UInt8 × List UInt8) :=
  (cutAt 0x3B inbuf).filter fun r => r.1.length < 8

/-- What `get_send_fd` leaves: `*len`, `*fdtype`, `inbuf` with its separators cut and
`outbuf`. -/
structure SendFd where
  len : ℕ
  fd : ℤ
  type : ℤ
  inbuf : List UInt8
  outbuf : Buffer UInt8 ENG_BUF_LEN

/-- The `memcpy` of `get_send_fd`. Its count `*len - (ptr2 - inbuf - 1)` becomes a
huge one when it is negative. -/
def copyData (s s1 s2 rest : List UInt8) (outbuf : Buffer UInt8 ENG_BUF_LEN) :
    Option SendFd :=
  let used := s.length + s1.length + s2.length + 1
  if (used : ℤ) ≤ atoi s ∧ (atoi s).toNat - used ≤ rest.length then
    (outbuf.write? 0 (rest.take ((atoi s).toNat - used))).map fun outbuf =>
      { len := (atoi s).toNat
        fd := atoi s1
        type := atoi s2
        inbuf := s ++ 0 :: (s1 ++ 0 :: (s2 ++ 0 :: rest))
        outbuf }
  else none

def getSendFd (inbuf : List UInt8) (outbuf : Buffer UInt8 ENG_BUF_LEN) : Option SendFd :=
  (nextField inbuf).bind fun (s, ptr) =>
    (nextField ptr).bind fun (s1, ptr1) =>
      (nextField ptr1).bind fun (s2, rest) =>
        copyData s s1 s2 rest outbuf

/-- One request as the loop of `eng_servermodem_comm` sees it: `*fdtype` and the string
in `data.buf`, which goes to `eng_parsecmd`. -/
structure Sent where
  fd : ℤ
  type : ℤ
  data : List UInt8
deriving DecidableEq

def SendFd.sent (f : SendFd) : Sent := ⟨f.fd, f.type, cstring f.outbuf.bytes⟩

/-- The loop of `eng_servermodem_comm` over `words`, `length` and `data.buf`. What it
does with a request, between `get_send_fd` and the next `words`, is `handle`. -/
def commLoop {σ : Type*} (handle : σ → Sent → σ) :
    ℕ → σ → List UInt8 → ℕ → Buffer UInt8 ENG_BUF_LEN → Option σ
  | 0, _, _, _, _ => none
  | fuel + 1, st, words, length, buf =>
      (getSendFd words buf).bind fun f =>
        if ENG_BUF_LEN ≤ length + f.len then some (handle st f.sent)
        else
          -- `words += length` adds what all the requests so far have taken
          match f.inbuf.drop (length + f.len) with
          | [] => none
          | w :: ws =>
              if w = 0 then some (handle st f.sent)
              else commLoop handle fuel (handle st f.sent) (w :: ws) (length + f.len) f.outbuf

/-- `tmp` after `eng_read`. -/
def tmpBuf (read : List UInt8) : Buffer UInt8 ENG_BUF_LEN := (Buffer.fill ENG_BUF_LEN 0).load read

/-- One call of `eng_servermodem_comm` that reads the bytes `read`. -/
def engServermodemComm {σ : Type*} (handle : σ → Sent → σ) (st : σ) (read : List UInt8) :
    Option σ :=
  if read = [] then some st
  else commLoop handle ENG_BUF_LEN st (tmpBuf read).bytes 0 (Buffer.fill ENG_BUF_LEN 0)

/-! ## `get_send_fd` -/

theorem nextField_append {s : List UInt8} (hs : 0x3B ∉ s) (hz : 0 ∉ s) (m : List UInt8) :
    nextField (s ++ 0x3B :: m) = if s.length < 8 then some (s, m) else none := by
  rw [nextField, cutAt_append hs hz]
  by_cases h : s.length < 8
  · simp [h]
  · simpa [h] using Nat.not_lt.mp h

theorem cstring_of_nextField {l s m : List UInt8} (h : nextField l = some (s, m)) :
    cstring l = s ++ 0x3B :: cstring m := by
  rw [nextField, Option.filter_eq_some_iff] at h
  exact cstring_of_cutAt (by decide) h.1

theorem exists_fields_of_getSendFd {words : List UInt8} {buf : Buffer UInt8 ENG_BUF_LEN}
    {f : SendFd} (h : getSendFd words buf = some f) :
    ∃ s s1 s2 rest, cstring words = s ++ 0x3B :: (s1 ++ 0x3B :: (s2 ++ 0x3B :: cstring rest)) ∧
      copyData s s1 s2 rest buf = some f := by
  obtain ⟨⟨s, ptr⟩, hs, h⟩ := Option.bind_eq_some_iff.mp h
  obtain ⟨⟨s1, ptr1⟩, hs1, h⟩ := Option.bind_eq_some_iff.mp h
  obtain ⟨⟨s2, rest⟩, hs2, h⟩ := Option.bind_eq_some_iff.mp h
  refine ⟨s, s1, s2, rest, ?_, h⟩
  rw [cstring_of_nextField hs, cstring_of_nextField hs1, cstring_of_nextField hs2]

/-- A text without separators and NULs. -/
def IsField (s : List UInt8) : Prop := 0x3B ∉ s ∧ 0 ∉ s

theorem getSendFd_append {s s1 s2 : List UInt8} (hs : IsField s) (hs1 : IsField s1)
    (hs2 : IsField s2) (rest : List UInt8) (buf : Buffer UInt8 ENG_BUF_LEN) :
    getSendFd (s ++ 0x3B :: (s1 ++ 0x3B :: (s2 ++ 0x3B :: rest))) buf =
      if s.length < 8 ∧ s1.length < 8 ∧ s2.length < 8 then copyData s s1 s2 rest buf
      else none := by
  rw [getSendFd, nextField_append hs.1 hs.2]
  by_cases h : s.length < 8
  · simp only [if_pos h, Option.bind_some, nextField_append hs1.1 hs1.2]
    by_cases h1 : s1.length < 8
    · simp only [if_pos h1, Option.bind_some, nextField_append hs2.1 hs2.2]
      by_cases h2 : s2.length < 8
      · simp [h, h1, h2]
      · simp [h2]
    · simp [h1]
  · simp [h]

theorem copyData_eq_some_iff {s s1 s2 rest : List UInt8} {buf : Buffer UInt8 ENG_BUF_LEN}
    {f : SendFd} :
    copyData s s1 s2 rest buf = some f ↔
      ∃ n : ℕ, atoi s = (s.length + s1.length + s2.length + 1 + n : ℕ) ∧
        n ≤ rest.length ∧ n ≤ ENG_BUF_LEN ∧ f.len = s.length + s1.length + s2.length + 1 + n ∧
        f.fd = atoi s1 ∧ f.type = atoi s2 ∧
        f.inbuf = s ++ 0 :: (s1 ++ 0 :: (s2 ++ 0 :: rest)) ∧
        f.outbuf.bytes = Splice.splice buf.bytes 0 (rest.take n) := by
  constructor
  · intro h
    rw [copyData] at h
    split_ifs at h with hcount
    obtain ⟨outbuf, hwrite, rfl⟩ := Option.map_eq_some_iff.mp h
    obtain ⟨hle, hbytes⟩ := (Buffer.write?_eq_some_iff _ _ _ _).mp hwrite
    rw [List.length_take, Nat.min_eq_left hcount.2] at hle
    refine ⟨(atoi s).toNat - (s.length + s1.length + s2.length + 1), by omega, hcount.2,
      by omega, ?_, rfl, rfl, rfl, hbytes⟩
    change (atoi s).toNat = _
    omega
  · rintro ⟨n, hatoi, hrest, hbuf, hlen, hfd, htype, hinbuf, houtbuf⟩
    have hcount : (atoi s).toNat - (s.length + s1.length + s2.length + 1) = n := by omega
    have hwrite : buf.write? 0 (rest.take n) = some f.outbuf := by
      rw [Buffer.write?_eq_some_iff, List.length_take, Nat.min_eq_left hrest]
      exact ⟨by omega, houtbuf⟩
    rw [copyData]
    simp only [hcount]
    rw [if_pos ⟨by omega, hrest⟩, hwrite, Option.map_some, Option.some_inj]
    cases f
    simp only at hlen hfd htype hinbuf
    rw [hlen, hfd, htype, hinbuf, hatoi, Int.toNat_natCast]

/-- The length counts the text of its own field and the separator. -/
theorem exists_atoi_eq {s m : List UInt8} (hs : IsField s) {buf : Buffer UInt8 ENG_BUF_LEN}
    {f : SendFd} (h : getSendFd (s ++ 0x3B :: m) buf = some f) :
    ∃ n : ℕ, atoi s = (s.length + 1 + n : ℕ) := by
  rw [getSendFd, nextField_append hs.1 hs.2] at h
  split_ifs at h
  · rw [Option.bind_some] at h
    obtain ⟨⟨s1, ptr1⟩, -, h⟩ := Option.bind_eq_some_iff.mp h
    obtain ⟨⟨s2, rest⟩, -, h⟩ := Option.bind_eq_some_iff.mp h
    obtain ⟨n, hn, -⟩ := copyData_eq_some_iff.mp h
    exact ⟨s1.length + s2.length + n, by omega⟩
  · cases h

theorem getSendFd_eq_none {words : List UInt8} (h : (cstring words).count 0x3B < 3)
    (buf : Buffer UInt8 ENG_BUF_LEN) : getSendFd words buf = none := by
  rw [Option.eq_none_iff_forall_ne_some]
  intro f hf
  obtain ⟨s, s1, s2, rest, hwords, -⟩ := exists_fields_of_getSendFd hf
  simp only [hwords, List.count_append, List.count_cons_self] at h
  omega

/-! ## Fresh memory -/

/-- The string in an array of zeros after the first copy to its start. -/
theorem cstring_splice_fill (d : List UInt8) :
    cstring (Splice.splice (Buffer.fill ENG_BUF_LEN (0 : UInt8)).bytes 0 d) = cstring d := by
  change cstring (Splice.splice (List.replicate ENG_BUF_LEN 0) 0 d) = _
  rw [Splice.splice, List.take_zero, List.nil_append, List.drop_replicate,
    cstring_append_replicate]

/-! ## The loop -/

section Loop

variable {σ : Type*} (handle : σ → Sent → σ)

theorem commLoop_of_none {words : List UInt8} {buf : Buffer UInt8 ENG_BUF_LEN}
    (h : getSendFd words buf = none) (fuel : ℕ) (st : σ) (length : ℕ) :
    commLoop handle fuel st words length buf = none := by
  cases fuel with
  | zero => rfl
  | succ fuel => rw [commLoop, h, Option.bind_none]

theorem commLoop_of_end {words : List UInt8} {buf : Buffer UInt8 ENG_BUF_LEN} {f : SendFd}
    (h : getSendFd words buf = some f) {length : ℕ} {ws : List UInt8}
    (hws : f.inbuf.drop (length + f.len) = 0 :: ws) (fuel : ℕ) (st : σ) :
    commLoop handle (fuel + 1) st words length buf = some (handle st f.sent) := by
  rw [commLoop, h, Option.bind_some, hws]
  by_cases hlen : ENG_BUF_LEN ≤ length + f.len <;> simp [hlen]

theorem exists_of_commLoop {fuel : ℕ} {st : σ} {words : List UInt8} {length : ℕ}
    {buf : Buffer UInt8 ENG_BUF_LEN} {r : σ}
    (h : commLoop handle fuel st words length buf = some r) :
    ∃ f, getSendFd words buf = some f ∧
      (ENG_BUF_LEN ≤ length + f.len ∧ r = handle st f.sent ∨
        ∃ w ws, f.inbuf.drop (length + f.len) = w :: ws ∧
          (w = 0 ∧ r = handle st f.sent ∨
            w ≠ 0 ∧ ∃ n, commLoop handle n (handle st f.sent) (w :: ws) (length + f.len)
              f.outbuf = some r)) := by
  cases fuel with
  | zero => cases h
  | succ fuel =>
      rw [commLoop] at h
      obtain ⟨f, hf, h⟩ := Option.bind_eq_some_iff.mp h
      refine ⟨f, hf, ?_⟩
      by_cases hstop : ENG_BUF_LEN ≤ length + f.len
      · rw [if_pos hstop] at h
        exact Or.inl ⟨hstop, (Option.some.inj h).symm⟩
      · rw [if_neg hstop] at h
        right
        cases hws : f.inbuf.drop (length + f.len) with
        | nil => simp [hws] at h
        | cons w ws =>
            refine ⟨w, ws, rfl, ?_⟩
            simp only [hws] at h
            by_cases hw : w = 0
            · rw [if_pos hw] at h
              exact Or.inl ⟨hw, (Option.some.inj h).symm⟩
            · rw [if_neg hw] at h
              exact Or.inr ⟨hw, fuel, h⟩

/-- What is handled is the list of requests that the loop takes out of `words`, in
order. -/
theorem commLoop_foldl (st : σ) :
    ∀ (fuel : ℕ) (done : List Sent) (words : List UInt8) (length : ℕ)
      (buf : Buffer UInt8 ENG_BUF_LEN),
      commLoop handle fuel (done.foldl handle st) words length buf =
        (commLoop (fun l f => l ++ [f]) fuel done words length buf).map
          (List.foldl handle st)
  | 0, done, words, length, buf => rfl
  | fuel + 1, done, words, length, buf => by
      cases hf : getSendFd words buf with
      | none => rw [commLoop_of_none handle hf, commLoop_of_none _ hf, Option.map_none]
      | some f =>
          have hdone : (done ++ [f.sent]).foldl handle st =
              handle (done.foldl handle st) f.sent := by
            rw [List.foldl_append, List.foldl_cons, List.foldl_nil]
          rw [commLoop, commLoop, hf, Option.bind_some, Option.bind_some, ← hdone]
          by_cases hstop : ENG_BUF_LEN ≤ length + f.len
          · rw [if_pos hstop, if_pos hstop, Option.map_some]
          · rw [if_neg hstop, if_neg hstop]
            cases f.inbuf.drop (length + f.len) with
            | nil => rfl
            | cons w ws =>
                by_cases hw : w = 0
                · simp [hw]
                · simpa [hw] using commLoop_foldl st fuel (done ++ [f.sent]) (w :: ws)
                    (length + f.len) f.outbuf

theorem exists_append_of_commLoop {fuel : ℕ} {done l : List Sent} {words : List UInt8}
    {length : ℕ} {buf : Buffer UInt8 ENG_BUF_LEN}
    (h : commLoop (fun l f => l ++ [f]) fuel done words length buf = some l) :
    ∃ l', commLoop (fun l f => l ++ [f]) fuel [] words length buf = some l' ∧
      l = done ++ l' := by
  have hfoldl := commLoop_foldl (fun (l : List Sent) f => l ++ [f]) done fuel [] words length buf
  rw [List.foldl_nil, h] at hfoldl
  obtain ⟨l', hl', heq⟩ := Option.map_eq_some_iff.mp hfoldl.symm
  refine ⟨l', hl', ?_⟩
  rw [← heq, List.foldl_append_eq_append, ← List.flatMap_def, List.flatMap_singleton']

end Loop

end Engcs

end Tarako
