import Tarako.Engcs.ModemComm

/-!
# Responses that are passed on as they are

For `ENG_AT_NOHANDLE_CMD` the loop of `eng_modem2server` reads the pieces of a response into
`s_ATDictBuf` until `isAtNoHandleEnd` takes them for the whole of it. `ptr` moves on by
`counter`, which counts all of the pieces so far: behind the second one it is beyond the end of
the text.
-/

namespace Tarako

namespace Engcs

open Text

/-- What the loop leaves: `s_ATDictBuf`, `content_len`, and the calls of `read` that are left. -/
structure RawResponse where
  dict : Buffer UInt8 ENG_BUF_LEN
  contentLen : ℕ
  reads : List (Option (List UInt8))

/-- The loop over the calls of `read`, of which some fail. A piece that leaves no room for a
NUL behind it has no result. -/
def readNoHandle : List (Option (List UInt8)) → Buffer UInt8 ENG_BUF_LEN → ℕ → ℕ →
    Option RawResponse
  | [], _, _, _ => none
  | none :: reads, dict, ptr, counter =>
      if isAtNoHandleEnd (cstring dict.bytes) then some ⟨dict, counter, reads⟩
      else readNoHandle reads dict ptr counter
  | some c :: reads, dict, ptr, counter =>
      if c ≠ [] ∧ ENG_BUF_LEN ≤ ptr + c.length then none
      else
        (if c = [] then some dict else dict.write? ptr c).bind fun dict =>
          if isAtNoHandleEnd (cstring dict.bytes) then some ⟨dict, counter + c.length, reads⟩
          else readNoHandle reads dict (ptr + (counter + c.length)) (counter + c.length)

/-! ## The pieces of a response -/

/-- A response that is taken for whole when it is, and not before. -/
structure NoHandleResponse where
  text : List UInt8
  length_lt : text.length < ENG_BUF_LEN
  complete : isAtNoHandleEnd (cstring text) = true
  only_complete : ∀ n < text.length, isAtNoHandleEnd (cstring (text.take n)) = false

namespace NoHandleResponse

variable (w : NoHandleResponse)

theorem text_ne_nil : w.text ≠ [] := by
  intro h
  have hcomplete := w.complete
  rw [h] at hcomplete
  exact absurd hcomplete (by decide)

theorem zero_not_mem : 0 ∉ w.text := by
  intro h
  have hlt : (cstring w.text).length < w.text.length := by
    rcases Nat.lt_or_eq_of_le (length_cstring_le w.text) with hlt | heq
    · exact hlt
    · have hself : cstring w.text = w.text := (List.takeWhile_prefix _).eq_of_length heq
      have hmem : 0 ∈ cstring w.text := by
        rw [hself]
        exact h
      exact absurd hmem (zero_not_mem_cstring w.text)
  have htake : w.text.take (cstring w.text).length = cstring w.text :=
    (List.prefix_iff_eq_take.mp (List.takeWhile_prefix _)).symm
  have honly := w.only_complete _ hlt
  rw [htake, cstring_of_not_mem (zero_not_mem_cstring w.text), w.complete] at honly
  exact absurd honly (by decide)

theorem not_end_of_append {p q : List UInt8} (h : p ++ q = w.text) (hq : q ≠ []) :
    isAtNoHandleEnd p = false := by
  have hlt : p.length < w.text.length := by
    rw [← h, List.length_append]
    exact Nat.lt_add_of_pos_right (List.length_pos_iff.mpr hq)
  have honly := w.only_complete p.length hlt
  have hzero : 0 ∉ p := fun hmem => w.zero_not_mem (h ▸ List.mem_append_left q hmem)
  rwa [← h, List.take_left, cstring_of_not_mem hzero] at honly

end NoHandleResponse

def Reassembles (w : List UInt8) (reads : List (Option (List UInt8))) : Prop :=
  ∃ r, readNoHandle reads (.fill _ 0) 0 0 = some r ∧
    r.dict.bytes = w ++ List.replicate (ENG_BUF_LEN - w.length) 0 ∧ r.contentLen = w.length

/-- A piece that is put behind the end of the text leaves it as it is, so that the loop never
ends. -/
theorem readNoHandle_eq_none {p : List UInt8} (hzero : 0 ∉ p) (hend : isAtNoHandleEnd p = false)
    (reads : List (Option (List UInt8))) :
    ∀ {dict : Buffer UInt8 ENG_BUF_LEN} {ptr : ℕ} (counter : ℕ),
      dict.bytes.take (p.length + 1) = p ++ [0] → p.length < ptr →
      readNoHandle reads dict ptr counter = none := by
  have htext : ∀ {dict : Buffer UInt8 ENG_BUF_LEN},
      dict.bytes.take (p.length + 1) = p ++ [0] → cstring dict.bytes = p := by
    intro dict hdict
    have hmem : 0 ∈ dict.bytes.take (p.length + 1) := by
      rw [hdict]
      exact List.mem_append_right _ (List.mem_singleton_self 0)
    rw [← List.take_append_drop (p.length + 1) dict.bytes, cstring_append_of_mem hmem, hdict,
      cstring_append_of_not_mem hzero]
    exact List.append_nil p
  induction reads with
  | nil => exact fun _ _ _ => rfl
  | cons event reads ih =>
      intro dict ptr counter hdict hptr
      cases event with
      | none =>
          rw [readNoHandle, htext hdict, hend]
          exact ih counter hdict hptr
      | some c =>
          rw [readNoHandle]
          by_cases hroom : c ≠ [] ∧ ENG_BUF_LEN ≤ ptr + c.length
          · rw [if_pos hroom]
          · rw [if_neg hroom]
            cases hwrite : (if c = [] then some dict else dict.write? ptr c) with
            | none => rfl
            | some dict' =>
                have hdict' : dict'.bytes.take (p.length + 1) = p ++ [0] := by
                  split_ifs at hwrite with hc
                  · rw [← Option.some.inj hwrite, hdict]
                  · obtain ⟨hfits, hbytes⟩ := (Buffer.write?_eq_some_iff _ _ _ _).mp hwrite
                    rw [hbytes, Splice.take_splice_of_le hptr (by rw [dict.size_eq]; omega), hdict]
                rw [Option.bind_some, htext hdict', hend]
                exact ih _ hdict' (Nat.lt_add_right _ hptr)

def Holds (p : List UInt8) (dict : Buffer UInt8 ENG_BUF_LEN) : Prop :=
  dict.bytes = p ++ List.replicate (ENG_BUF_LEN - p.length) 0

theorem Holds.cstring_eq {p : List UInt8} {dict : Buffer UInt8 ENG_BUF_LEN} (h : Holds p dict)
    (hzero : 0 ∉ p) : cstring dict.bytes = p := by
  rw [h, cstring_append_replicate, cstring_of_not_mem hzero]

theorem Holds.read {p c : List UInt8} {dict : Buffer UInt8 ENG_BUF_LEN} (h : Holds p dict)
    (hroom : (p ++ c).length < ENG_BUF_LEN) (reads : List (Option (List UInt8))) (counter : ℕ) :
    ∃ dict', Holds (p ++ c) dict' ∧ readNoHandle (some c :: reads) dict p.length counter =
      if isAtNoHandleEnd (cstring dict'.bytes) then some ⟨dict', counter + c.length, reads⟩
      else readNoHandle reads dict' (p.length + (counter + c.length)) (counter + c.length) := by
  rw [List.length_append] at hroom
  have hfits : p.length + c.length ≤ ENG_BUF_LEN := Nat.le_of_lt hroom
  have hbytes : Splice.splice dict.bytes p.length c =
      p ++ c ++ List.replicate (ENG_BUF_LEN - (p ++ c).length) 0 := by
    have hsize : ENG_BUF_LEN - p.length = c.length + (ENG_BUF_LEN - (p ++ c).length) := by
      rw [List.length_append]
      omega
    rw [h, hsize]
    exact Splice.splice_append_replicate
  refine ⟨dict.write p.length c hfits, hbytes, ?_⟩
  have hwrite : (if c = [] then some dict else dict.write? p.length c) =
      some (dict.write p.length c hfits) := by
    split_ifs with hc
    · subst hc
      exact congrArg some (Buffer.ext (Splice.splice_nil _ _).symm)
    · exact dif_pos hfits
  rw [readNoHandle, if_neg (by omega), hwrite, Option.bind_some]

/-! ## When the pieces come together -/

/-- Behind the first call that delivers bytes at most the next one that does not fail delivers
bytes. -/
def AtMostTwo (reads : List (Option (List UInt8))) : Prop :=
  ∀ c ∈ ((reads.filterMap id).dropWhile (· = [])).drop 2, c = []

section Reassembly

variable {w : NoHandleResponse}

theorem readNoHandle_second (reads : List (Option (List UInt8))) :
    ∀ {p : List UInt8} {dict : Buffer UInt8 ENG_BUF_LEN}, Holds p dict → p ≠ [] → p ≠ w.text →
      p ++ (reads.filterMap id).flatten = w.text →
      ((∃ r, readNoHandle reads dict p.length p.length = some r ∧ Holds w.text r.dict ∧
          r.contentLen = w.text.length) ↔ ∀ c ∈ (reads.filterMap id).drop 1, c = []) := by
  induction reads with
  | nil =>
      intro p dict hdict hp hpart hreads
      exact absurd (by simpa using hreads) hpart
  | cons event reads ih =>
      intro p dict hdict hp hpart hreads
      have hmore : (((event :: reads).filterMap id).flatten) ≠ [] := by
        intro hnil
        rw [hnil, List.append_nil] at hreads
        exact hpart hreads
      have hzero : ∀ {q m : List UInt8}, q ++ m = w.text → 0 ∉ q := fun h hmem =>
        w.zero_not_mem (h ▸ List.mem_append_left _ hmem)
      cases event with
      | none =>
          have hend := w.not_end_of_append hreads hmore
          have hskip : readNoHandle (none :: reads) dict p.length p.length =
              readNoHandle reads dict p.length p.length := by
            rw [readNoHandle, hdict.cstring_eq (hzero hreads), hend]
            rfl
          rw [hskip]
          exact ih hdict hp hpart hreads
      | some c =>
          have hsplit : p ++ c ++ (reads.filterMap id).flatten = w.text := by
            rw [List.append_assoc]
            exact hreads
          have hroom : (p ++ c).length < ENG_BUF_LEN := by
            refine Nat.lt_of_le_of_lt ?_ w.length_lt
            rw [← hsplit]
            exact (List.prefix_append _ _).length_le
          obtain ⟨dict', hdict', hread⟩ := hdict.read hroom reads p.length
          rw [hread, hdict'.cstring_eq (hzero hsplit)]
          have hrest : ((some c :: reads).filterMap id).drop 1 = reads.filterMap id := rfl
          rw [hrest, ← List.flatten_eq_nil_iff]
          by_cases hwhole : (reads.filterMap id).flatten = []
          · rw [hwhole, List.append_nil] at hsplit
            have hcomplete := w.complete
            rw [cstring_of_not_mem w.zero_not_mem, ← hsplit] at hcomplete
            rw [if_pos hcomplete]
            refine iff_of_true ⟨_, rfl, hsplit ▸ hdict', ?_⟩ hwhole
            rw [← hsplit, List.length_append]
          · -- the pointer is behind the end of the text from now on
            have hend := w.not_end_of_append hsplit hwhole
            have hpos := List.length_pos_iff.mpr hp
            have hstuck : dict'.bytes.take ((p ++ c).length + 1) = p ++ c ++ [0] := by
              have hsize : ENG_BUF_LEN - (p ++ c).length =
                  ENG_BUF_LEN - (p ++ c).length - 1 + 1 := by omega
              rw [hdict', hsize, List.replicate_succ, List.take_length_add_append]
              rfl
            rw [hend, if_neg Bool.false_ne_true, readNoHandle_eq_none (hzero hsplit) hend reads _
              hstuck (by rw [List.length_append]; omega)]
            refine iff_of_false ?_ hwhole
            rintro ⟨r, hr, -⟩
            exact absurd hr.symm (Option.some_ne_none r)

theorem holds_fill : Holds [] (Buffer.fill ENG_BUF_LEN 0) := rfl

/-- The response comes together just when at most two pieces bring it. -/
theorem reassembles_iff (w : NoHandleResponse) {reads : List (Option (List UInt8))}
    (hreads : (reads.filterMap id).flatten = w.text) :
    Reassembles w.text reads ↔ AtMostTwo reads := by
  have hnil : isAtNoHandleEnd (cstring (Buffer.fill ENG_BUF_LEN (0 : UInt8)).bytes) = false := by
    rw [holds_fill.cstring_eq (List.not_mem_nil)]
    rfl
  induction reads with
  | nil => exact absurd hreads.symm w.text_ne_nil
  | cons event reads ih =>
      cases event with
      | none =>
          have hskip : readNoHandle (none :: reads) (.fill _ 0) 0 0 =
              readNoHandle reads (.fill _ 0) 0 0 := by
            rw [readNoHandle, hnil]
            rfl
          rw [Reassembles, hskip]
          exact ih hreads
      | some c =>
          by_cases hc : c = []
          · subst hc
            have hskip : readNoHandle (some [] :: reads) (.fill _ 0) 0 0 =
                readNoHandle reads (.fill _ 0) 0 0 := by
              rw [readNoHandle, if_neg (fun h => h.1 rfl), if_pos rfl, Option.bind_some, hnil]
              rfl
            have hcond : AtMostTwo (some [] :: reads) ↔ AtMostTwo reads := by
              have hcons : (some [] :: reads).filterMap id = [] :: reads.filterMap id := rfl
              rw [AtMostTwo, AtMostTwo, hcons, List.dropWhile_cons_of_pos (by decide)]
            rw [Reassembles, hskip, hcond]
            exact ih hreads
          · have hsplit : [] ++ c ++ (reads.filterMap id).flatten = w.text := hreads
            have hcond : AtMostTwo (some c :: reads) ↔
                ∀ d ∈ (reads.filterMap id).drop 1, d = [] := by
              have hcons : (some c :: reads).filterMap id = c :: reads.filterMap id := rfl
              rw [AtMostTwo, hcons, List.dropWhile_cons_of_neg (by simpa using hc)]
              rfl
            have hroom : ([] ++ c).length < ENG_BUF_LEN := by
              refine Nat.lt_of_le_of_lt ?_ w.length_lt
              rw [← hsplit]
              exact (List.prefix_append _ _).length_le
            have hzero : 0 ∉ c := fun hmem =>
              w.zero_not_mem (hsplit ▸ List.mem_append_left _ hmem)
            obtain ⟨dict', hdict', hread⟩ := holds_fill.read hroom reads 0
            rw [List.nil_append] at hsplit hdict'
            rw [List.length_nil, Nat.zero_add, Nat.zero_add, hdict'.cstring_eq hzero] at hread
            rw [Reassembles, hread, hcond]
            by_cases hwhole : c = w.text
            · have hcomplete := w.complete
              rw [cstring_of_not_mem w.zero_not_mem, ← hwhole] at hcomplete
              have hrest : (reads.filterMap id).flatten = [] := by
                rw [hwhole] at hsplit
                exact List.append_right_eq_self.mp hsplit
              rw [if_pos hcomplete]
              refine iff_of_true ⟨_, rfl, hwhole ▸ hdict', congrArg List.length hwhole⟩ ?_
              exact fun d hd => List.flatten_eq_nil_iff.mp hrest d (List.mem_of_mem_drop hd)
            · have hrest : (reads.filterMap id).flatten ≠ [] := by
                intro hrest
                rw [hrest, List.append_nil] at hsplit
                exact hwhole hsplit
              rw [w.not_end_of_append hsplit hrest, if_neg Bool.false_ne_true]
              exact readNoHandle_second reads hdict' hc hwhole hsplit

def okResponse : NoHandleResponse where
  text := [13, 10, 79, 75, 13, 10]
  length_lt := by decide
  complete := by decide +kernel
  only_complete := by decide +kernel

theorem reassembles_iff_ok :
    Reassembles okResponse.text [none, some [13, 10, 79], none, some [75, 13, 10]] ↔
      AtMostTwo [none, some [13, 10, 79], none, some [75, 13, 10]] :=
  reassembles_iff okResponse rfl

theorem not_reassembles_ok : ¬ Reassembles okResponse.text [some [13, 10], some [79, 75],
    some [13, 10]] := by
  have hnone : (readNoHandle [some [13, 10], some [79, 75], some [13, 10]] (.fill _ 0) 0 0).isNone =
      true := by decide +kernel
  rintro ⟨r, hr, -⟩
  rw [hr] at hnone
  exact absurd hnone Bool.false_ne_true

end Reassembly

end Engcs

end Tarako
