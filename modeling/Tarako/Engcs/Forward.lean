import Tarako.Engcs.Vdiag

/-!
# Bytes that pass through

What `eng_vdiag_thread` reads from the serial port is meant for the modem, except for
the frames that `eng_diag` handles itself. The thread decides this for a whole chunk:
a chunk in which a handled frame ends is dropped, every other chunk is written to the
pipe. The ledger follows each byte that is read. `conserves_iff_meets` says along which
runs every byte is either in a handled frame or written.
-/

namespace Tarako

namespace Engcs

/-- A byte that was read: the frame that collected it, by the number of its call of
`eng_diag`, and whether the byte was written to the pipe. -/
structure Entry where
  byte : UInt8
  frame : Option ℕ
  written : Bool

theorem UserDiag.put_lt {s : UserDiag} {b : UInt8} (h : b = 0x7E ∧ s.extBufLen = 0) :
    (s.put b).extBufLen < DATA_EXT_DIAG_SIZE := by
  rw [UserDiag.put, h.2]
  decide

theorem UserDiag.put_lt_of_inside {s : UserDiag} (b : UInt8)
    (h : 0 < s.extBufLen ∧ s.extBufLen < DATA_EXT_DIAG_SIZE) :
    (s.put b).extBufLen < DATA_EXT_DIAG_SIZE := h.2

/-- Which bytes of a chunk `get_user_diag_buf` stores. -/
def collectedBytes (s : UserDiag) : List UInt8 → List Bool
  | [] => []
  | b :: buf =>
      if h : b = 0x7E ∧ s.extBufLen = 0 then
        true :: collectedBytes ((s.put b).advance (UserDiag.put_lt h)) buf
      else if h : 0 < s.extBufLen ∧ s.extBufLen < DATA_EXT_DIAG_SIZE then
        if b = 0x7E then true :: buf.map fun _ => false
        else true :: collectedBytes ((s.put b).advance (UserDiag.put_lt_of_inside b h)) buf
      else false :: collectedBytes s buf

def Turn.bytesRead (t : Turn) : List UInt8 :=
  match t.first with
  | none => []
  | some bytes =>
      let bytes := bytes.take (DATA_BUF_SIZE / 2)
      if bytes.length = DATA_BUF_SIZE / 2 then
        bytes ++ (t.second.getD []).take (DATA_BUF_SIZE / 2)
      else bytes

/-- The thread, what became of each byte it has read, and the results of its calls. -/
structure Traced where
  vdiag : Vdiag
  ledger : List Entry
  results : List Int

namespace Traced

def start : Traced := ⟨Vdiag.start, [], []⟩

def entries (s : Traced) (t : Turn) (logData : List UInt8) : List Entry :=
  let complete := (getUserDiagBuf s.vdiag.userDiag logData).2
  (logData.zip (collectedBytes s.vdiag.userDiag logData)).map fun p =>
    ⟨p.1, if p.2 then some s.vdiag.calls.length else none, !(complete && t.engDiag = 1)⟩

def lost (bytes : List UInt8) : List Entry := bytes.map fun b => ⟨b, none, false⟩

def step (s : Traced) (t : Turn) : Traced :=
  if s.vdiag.ended then s
  else
    match t.logData with
    | none => { s with vdiag := s.vdiag.step t }
    | some logData =>
        { vdiag := s.vdiag.step t
          ledger := s.ledger ++ s.entries t logData ++ lost (t.bytesRead.drop logData.length)
          results :=
            if (getUserDiagBuf s.vdiag.userDiag logData).2 then s.results ++ [t.engDiag]
            else s.results }

/-- The byte belongs to a frame for which `eng_diag` returned 1. -/
def Handled (s : Traced) (e : Entry) : Prop := ∃ k, e.frame = some k ∧ s.results[k]? = some 1

/-- Each byte is written, once, exactly when it is not in a handled frame. -/
def Conserves (s : Traced) : Prop := ∀ e ∈ s.ledger, e.written = true ↔ ¬ s.Handled e

/-- No byte is lost to a failing second read, and a chunk in which a handled frame ends
is that frame. -/
def WholeFrames (s : Traced) (t : Turn) : Prop :=
  s.vdiag.ended = false → ∀ logData, t.logData = some logData →
    t.bytesRead.length ≤ logData.length ∧
      ((getUserDiagBuf s.vdiag.userDiag logData).2 = true → t.engDiag = 1 →
        s.vdiag.userDiag.extBufLen = 0 ∧
          ∃ body, 0x7E ∉ body ∧ logData = 0x7E :: (body ++ [0x7E]))

end Traced

/-! ## Collecting a chunk -/

theorem length_collected (s : UserDiag) (l : List UInt8) :
    (collectedBytes s l).length = l.length := by
  induction l generalizing s with
  | nil => rfl
  | cons b l ih =>
      rw [collectedBytes]
      split_ifs <;> simp [ih]

/-- A chunk that ends no frame leaves nothing pending just when nothing was and none of
it is collected. -/
theorem extBufLen_eq_zero_iff {s : UserDiag} {l : List UInt8}
    (h : (getUserDiagBuf s l).2 = false) :
    (getUserDiagBuf s l).1.extBufLen = 0 ↔
      s.extBufLen = 0 ∧ ∀ c ∈ collectedBytes s l, c = false := by
  induction l generalizing s with
  | nil => simp [getUserDiagBuf, collectedBytes]
  | cons b l ih =>
      rw [getUserDiagBuf] at h ⊢
      rw [collectedBytes]
      split_ifs at h ⊢ with hopen hinside
      · rw [ih h]
        simp [UserDiag.advance]
      · rw [ih h]
        simp [UserDiag.advance]
      · rw [ih h]
        simp

theorem collected_of_body {s : UserDiag} {body : List UInt8} (hs : 0 < s.extBufLen)
    (hbody : 0x7E ∉ body) (h : (getUserDiagBuf s (body ++ [0x7E])).2 = true) :
    ∀ c ∈ collectedBytes s (body ++ [0x7E]), c = true := by
  have hroom : s.extBufLen < DATA_EXT_DIAG_SIZE := by
    by_contra hfull
    rw [getUserDiagBuf_of_full (Nat.not_lt.mp hfull)] at h
    exact Bool.false_ne_true h
  induction body generalizing s with
  | nil =>
      rw [List.nil_append, collectedBytes, dif_neg (by omega), dif_pos ⟨hs, hroom⟩, if_pos rfl]
      simp
  | cons b body ih =>
      rw [List.mem_cons, not_or] at hbody
      rw [List.cons_append] at h ⊢
      rw [getUserDiagBuf, dif_neg (by omega), dif_pos ⟨hs, hroom⟩, if_neg (Ne.symm hbody.1)] at h
      rw [collectedBytes, dif_neg (by omega), dif_pos ⟨hs, hroom⟩, if_neg (Ne.symm hbody.1)]
      have hlt : ((s.put b).advance hroom).extBufLen < DATA_EXT_DIAG_SIZE := by
        by_contra hfull
        rw [getUserDiagBuf_of_full (Nat.not_lt.mp hfull)] at h
        exact Bool.false_ne_true h
      exact List.forall_mem_cons.mpr ⟨rfl, ih (Nat.succ_pos _) hbody.2 h hlt⟩

/-- A chunk that is collected from inside a frame to its end is the rest of the frame. -/
theorem eq_body_of_collected {s : UserDiag} {l : List UInt8} (hs : 0 < s.extBufLen)
    (h : (getUserDiagBuf s l).2 = true) (hall : ∀ c ∈ collectedBytes s l, c = true) :
    ∃ body, 0x7E ∉ body ∧ l = body ++ [0x7E] := by
  induction l generalizing s with
  | nil => simp [getUserDiagBuf] at h
  | cons b l ih =>
      rw [getUserDiagBuf, dif_neg (by omega)] at h
      rw [collectedBytes, dif_neg (by omega)] at hall
      split_ifs at h hall with hroom hb
      · subst hb
        have hnil : l = [] := by
          cases l with
          | nil => rfl
          | cons x l => simpa using hall false (by simp)
        subst hnil
        exact ⟨[], List.not_mem_nil, rfl⟩
      · obtain ⟨body, hbody, rfl⟩ := ih (Nat.succ_pos _) h (List.forall_mem_cons.mp hall).2
        refine ⟨b :: body, ?_, rfl⟩
        rw [List.mem_cons, not_or]
        exact ⟨Ne.symm hb, hbody⟩
      · simpa using hall false (by simp)

/-- The chunks of which every byte is in the frame that ends in them. -/
theorem forall_collected_iff {s : UserDiag} {l : List UInt8} (hs : s.extBufLen = 0)
    (h : (getUserDiagBuf s l).2 = true) :
    (∀ c ∈ collectedBytes s l, c = true) ↔
      ∃ body, 0x7E ∉ body ∧ l = 0x7E :: (body ++ [0x7E]) := by
  cases l with
  | nil => simp [getUserDiagBuf] at h
  | cons b l =>
      by_cases hb : b = 0x7E
      · subst hb
        rw [getUserDiagBuf, dif_pos ⟨rfl, hs⟩] at h
        rw [collectedBytes, dif_pos ⟨rfl, hs⟩, List.forall_mem_cons]
        constructor
        · rintro ⟨-, hall⟩
          obtain ⟨body, hbody, rfl⟩ := eq_body_of_collected (Nat.succ_pos _) h hall
          exact ⟨body, hbody, rfl⟩
        · rintro ⟨body, hbody, heq⟩
          obtain rfl := (List.cons.inj heq).2
          exact ⟨rfl, collected_of_body (Nat.succ_pos _) hbody h⟩
      · rw [collectedBytes, dif_neg (fun hopen => hb hopen.1), dif_neg (by omega)]
        constructor
        · intro hall
          simpa using hall false (by simp)
        · rintro ⟨body, -, heq⟩
          exact absurd (List.cons.inj heq).1 hb

namespace Traced

variable {s : Traced} {t : Turn} {l : List UInt8}

theorem map_byte_entries (s : Traced) (t : Turn) (l : List UInt8) :
    (s.entries t l).map Entry.byte = l := by
  rw [entries, List.map_map]
  exact List.map_fst_zip (length_collected _ _).ge

theorem map_frame_entries (s : Traced) (t : Turn) (l : List UInt8) :
    (s.entries t l).map Entry.frame = (collectedBytes s.vdiag.userDiag l).map fun c =>
      if c then some s.vdiag.calls.length else none := by
  conv_rhs => rw [← List.map_snd_zip (length_collected s.vdiag.userDiag l).le]
  rw [entries, List.map_map, List.map_map]
  rfl

theorem written_of_mem_entries {e : Entry} (he : e ∈ s.entries t l) :
    e.written = !((getUserDiagBuf s.vdiag.userDiag l).2 && decide (t.engDiag = 1)) := by
  obtain ⟨p, -, rfl⟩ := List.mem_map.mp he
  rfl

theorem frame_of_mem_entries {e : Entry} (he : e ∈ s.entries t l) :
    e.frame = none ∨ e.frame = some s.vdiag.calls.length := by
  obtain ⟨⟨b, c⟩, -, rfl⟩ := List.mem_map.mp he
  cases c
  · exact .inl rfl
  · exact .inr rfl

theorem forall_entries_frame_iff (s : Traced) (t : Turn) (l : List UInt8) :
    (∀ e ∈ s.entries t l, e.frame = some s.vdiag.calls.length) ↔
      ∀ c ∈ collectedBytes s.vdiag.userDiag l, c = true := by
  rw [← List.forall_mem_map (f := Entry.frame)
    (P := fun x => x = some s.vdiag.calls.length), map_frame_entries, List.forall_mem_map]
  refine forall₂_congr fun c _ => ?_
  cases c <;> simp

theorem forall_entries_frame_ne_iff (s : Traced) (t : Turn) (l : List UInt8) :
    (∀ e ∈ s.entries t l, e.frame ≠ some s.vdiag.calls.length) ↔
      ∀ c ∈ collectedBytes s.vdiag.userDiag l, c = false := by
  rw [← List.forall_mem_map (f := Entry.frame)
    (P := fun x => x ≠ some s.vdiag.calls.length), map_frame_entries, List.forall_mem_map]
  refine forall₂_congr fun c _ => ?_
  cases c <;> simp

/-! ## The ledger along a run -/

/-- How frames are numbered: the bytes of the frame that is being collected have the
number of the next call, and they have been written. -/
structure Numbered (s : Traced) : Prop where
  results_length : s.results.length = s.vdiag.calls.length
  frame_le : ∀ e ∈ s.ledger, ∀ k, e.frame = some k → k ≤ s.vdiag.calls.length
  held_written : ∀ e ∈ s.ledger, e.frame = some s.vdiag.calls.length → e.written = true
  pending_iff : s.vdiag.userDiag.extBufLen = 0 ↔
    ∀ e ∈ s.ledger, e.frame ≠ some s.vdiag.calls.length

theorem numbered_start : start.Numbered := by
  refine ⟨rfl, ?_, ?_, ?_⟩ <;> simp [start, Vdiag.start, initUserDiagBuf]

theorem step_of_incomplete (hended : s.vdiag.ended = false) (hl : t.logData = some l)
    (hno : (getUserDiagBuf s.vdiag.userDiag l).2 = false) :
    s.step t =
      { vdiag := { s.vdiag with
          userDiag := (getUserDiagBuf s.vdiag.userDiag l).1
          pipe := s.vdiag.pipe ++ [l] }
        ledger := s.ledger ++ s.entries t l ++ lost (t.bytesRead.drop l.length)
        results := s.results } := by
  have hpair : getUserDiagBuf s.vdiag.userDiag l =
      ((getUserDiagBuf s.vdiag.userDiag l).1, false) := Prod.ext rfl hno
  have hvdiag := step_of_logData hended hl
  rw [Vdiag.handle, hpair] at hvdiag
  simp only [step, hended, hl, hno, hvdiag, Bool.false_eq_true, if_false]

theorem step_of_complete (hended : s.vdiag.ended = false) (hl : t.logData = some l)
    (hyes : (getUserDiagBuf s.vdiag.userDiag l).2 = true) :
    ∃ call, s.step t =
      { vdiag := { s.vdiag with
          userDiag := initUserDiagBuf
          calls := s.vdiag.calls ++ [call]
          pipe := if t.engDiag = 1 then s.vdiag.pipe else s.vdiag.pipe ++ [l] }
        ledger := s.ledger ++ s.entries t l ++ lost (t.bytesRead.drop l.length)
        results := s.results ++ [t.engDiag] } := by
  have hpair : getUserDiagBuf s.vdiag.userDiag l =
      ((getUserDiagBuf s.vdiag.userDiag l).1, true) := Prod.ext rfl hyes
  have hvdiag := step_of_logData hended hl
  rw [Vdiag.handle, hpair] at hvdiag
  refine ⟨⟨(getUserDiagBuf s.vdiag.userDiag l).1.extDataBuf.bytes,
    (getUserDiagBuf s.vdiag.userDiag l).1.extBufLen⟩, ?_⟩
  simp only [step, hended, hl, hyes, hvdiag, Bool.false_eq_true, if_false, if_true]

theorem step_of_none (h : s.vdiag.ended = true ∨ t.logData = none) :
    (s.step t).ledger = s.ledger ∧ (s.step t).results = s.results ∧
      (s.step t).vdiag.calls = s.vdiag.calls ∧
      (s.step t).vdiag.userDiag = s.vdiag.userDiag ∧
      (s.step t).vdiag.pipe = s.vdiag.pipe := by
  cases hended : s.vdiag.ended with
  | true => simp [step, hended]
  | false =>
      have hnone := h.resolve_left (by simp [hended])
      simp [step, Vdiag.step, hended, hnone]

theorem frame_of_mem_lost {bytes : List UInt8} {e : Entry} (he : e ∈ lost bytes) :
    e.frame = none ∧ e.written = false := by
  obtain ⟨b, -, rfl⟩ := List.mem_map.mp he
  exact ⟨rfl, rfl⟩

theorem Numbered.step (h : s.Numbered) (t : Turn) : (s.step t).Numbered := by
  by_cases hnone : s.vdiag.ended = true ∨ t.logData = none
  · obtain ⟨hledger, hresults, hcalls, huser, -⟩ := step_of_none hnone
    constructor
    · rw [hresults, hcalls]
      exact h.results_length
    · rw [hledger, hcalls]
      exact h.frame_le
    · rw [hledger, hcalls]
      exact h.held_written
    · rw [hledger, hcalls, huser]
      exact h.pending_iff
  · rw [not_or, Bool.not_eq_true, ← ne_eq, Option.ne_none_iff_exists'] at hnone
    obtain ⟨hended, l, hl⟩ := hnone
    have hframe : ∀ e ∈ s.ledger ++ s.entries t l ++ lost (t.bytesRead.drop l.length),
        ∀ k, e.frame = some k → k ≤ s.vdiag.calls.length := by
      intro e he k hk
      rw [List.mem_append, List.mem_append] at he
      rcases he with (hold | hnew) | hlost
      · exact h.frame_le e hold k hk
      · rcases frame_of_mem_entries hnew with hn | hn
        · simp [hn] at hk
        · rw [hn, Option.some.injEq] at hk
          exact hk.ge
      · simp [(frame_of_mem_lost hlost).1] at hk
    cases hfound : (getUserDiagBuf s.vdiag.userDiag l).2 with
    | false =>
        rw [step_of_incomplete hended hl hfound]
        refine ⟨h.results_length, hframe, ?_, ?_⟩
        · intro e he hk
          rw [List.mem_append, List.mem_append] at he
          rcases he with (hold | hnew) | hlost
          · exact h.held_written e hold hk
          · rw [written_of_mem_entries hnew, hfound]
            rfl
          · simp [(frame_of_mem_lost hlost).1] at hk
        · refine (extBufLen_eq_zero_iff hfound).trans ?_
          rw [h.pending_iff, ← forall_entries_frame_ne_iff s t l]
          simp only [List.forall_mem_append]
          refine ⟨fun hboth => ⟨hboth, fun e he => ?_⟩, fun hall => hall.1⟩
          simp [(frame_of_mem_lost he).1]
    | true =>
        obtain ⟨call, hstep⟩ := step_of_complete hended hl hfound
        rw [hstep]
        have hlen : (s.vdiag.calls ++ [call]).length = s.vdiag.calls.length + 1 := by simp
        have hnext : ∀ e ∈ s.ledger ++ s.entries t l ++ lost (t.bytesRead.drop l.length),
            e.frame ≠ some (s.vdiag.calls ++ [call]).length := by
          intro e he hk
          have hle := hframe e he _ hk
          omega
        refine ⟨?_, ?_, ?_, ?_⟩
        · change (s.results ++ [t.engDiag]).length = (s.vdiag.calls ++ [call]).length
          rw [List.length_append, List.length_append, h.results_length]
          rfl
        · intro e he k hk
          change k ≤ (s.vdiag.calls ++ [call]).length
          have hle := hframe e he k hk
          omega
        · exact fun e he hk => absurd hk (hnext e he)
        · exact ⟨fun _ => hnext, fun _ => rfl⟩

theorem not_handled_of_none {e : Entry} (h : e.frame = none) : ¬ s.Handled e := by
  rintro ⟨k, hk, -⟩
  simp [h] at hk

theorem handled_iff {e : Entry} {k : ℕ} (h : e.frame = some k) :
    s.Handled e ↔ s.results[k]? = some 1 := by
  simp [Handled, h]

/-- The lost bytes of a turn keep the conservation just when there are none. -/
theorem forall_lost_iff (s : Traced) (bytes : List UInt8) (n : ℕ) :
    (∀ e ∈ lost (bytes.drop n), e.written = true ↔ ¬ s.Handled e) ↔ bytes.length ≤ n := by
  rw [← List.drop_eq_nil_iff]
  constructor
  · intro h
    by_contra hne
    obtain ⟨b, rest, hb⟩ := List.exists_cons_of_ne_nil hne
    have hfirst := h ⟨b, none, false⟩ (by simp [hb, lost])
    exact Bool.noConfusion (hfirst.mpr (not_handled_of_none rfl))
  · intro h
    simp [h, lost]

theorem forall_entries_of_incomplete (h : s.Numbered)
    (hno : (getUserDiagBuf s.vdiag.userDiag l).2 = false) :
    ∀ e ∈ s.entries t l, e.written = true ↔ ¬ s.Handled e := by
  intro e he
  have hwritten : e.written = true := by
    rw [written_of_mem_entries he, hno]
    rfl
  refine iff_of_true hwritten ?_
  rcases frame_of_mem_entries he with hn | hn
  · exact not_handled_of_none hn
  · rw [handled_iff hn, ← h.results_length, List.getElem?_eq_none (Nat.le_refl _)]
    simp

theorem handled_next_iff {s' : Traced} (h : s.Numbered) {r : Int}
    (hresults : s'.results = s.results ++ [r]) {e : Entry}
    (he : e.frame = some s.vdiag.calls.length) : s'.Handled e ↔ r = 1 := by
  rw [handled_iff he, hresults, ← h.results_length, List.getElem?_concat_length,
    Option.some.injEq]

theorem forall_ledger_of_complete {s' : Traced} (h : s.Numbered) (hc : s.Conserves)
    (hresults : s'.results = s.results ++ [t.engDiag]) :
    (∀ e ∈ s.ledger, e.written = true ↔ ¬ s'.Handled e) ↔
      (t.engDiag = 1 → s.vdiag.userDiag.extBufLen = 0) := by
  have hold : ∀ e ∈ s.ledger, e.frame ≠ some s.vdiag.calls.length →
      (s'.Handled e ↔ s.Handled e) := by
    intro e he hne
    cases hk : e.frame with
    | none => exact iff_of_false (not_handled_of_none hk) (not_handled_of_none hk)
    | some k =>
        have hlt : k < s.results.length := by
          rw [h.results_length]
          exact lt_of_le_of_ne (h.frame_le e he k hk) (fun heq => hne (heq ▸ hk))
        rw [handled_iff hk, handled_iff hk, hresults, List.getElem?_append_left hlt]
  rw [h.pending_iff]
  constructor
  · intro hall hone e he hk
    exact ((hall e he).mp (h.held_written e he hk)) ((handled_next_iff h hresults hk).mpr hone)
  · intro hnone e he
    by_cases hk : e.frame = some s.vdiag.calls.length
    · refine iff_of_true (h.held_written e he hk) fun hhandled => ?_
      exact hnone ((handled_next_iff h hresults hk).mp hhandled) e he hk
    · rw [hold e he hk]
      exact hc e he

theorem forall_entries_of_complete {s' : Traced} (h : s.Numbered)
    (hyes : (getUserDiagBuf s.vdiag.userDiag l).2 = true)
    (hresults : s'.results = s.results ++ [t.engDiag]) :
    (∀ e ∈ s.entries t l, e.written = true ↔ ¬ s'.Handled e) ↔
      (t.engDiag = 1 → ∀ c ∈ collectedBytes s.vdiag.userDiag l, c = true) := by
  rw [← forall_entries_frame_iff s t l]
  constructor
  · intro hall hone e he
    have hwritten := written_of_mem_entries he
    rw [hyes, hone] at hwritten
    have hhandled : s'.Handled e := by
      by_contra hnot
      have htrue := (hall e he).mpr hnot
      rw [hwritten] at htrue
      exact absurd htrue (by decide)
    exact (frame_of_mem_entries he).resolve_left fun hn => not_handled_of_none hn hhandled
  · intro hall e he
    have hwritten := written_of_mem_entries he
    rw [hyes, Bool.true_and] at hwritten
    by_cases hone : t.engDiag = 1
    · have hhandled := (handled_next_iff h hresults (hall hone e he)).mpr hone
      rw [hwritten, decide_eq_true hone]
      exact iff_of_false Bool.noConfusion (not_not.mpr hhandled)
    · rw [hwritten, decide_eq_false hone]
      refine iff_of_true rfl fun hhandled => ?_
      rcases frame_of_mem_entries he with hn | hn
      · exact not_handled_of_none hn hhandled
      · exact hone ((handled_next_iff h hresults hn).mp hhandled)

/-- A turn keeps the conservation exactly when its chunk is whole frames. -/
theorem conserves_step_iff (h : s.Numbered) (hc : s.Conserves) (t : Turn) :
    (s.step t).Conserves ↔ s.WholeFrames t := by
  by_cases hnone : s.vdiag.ended = true ∨ t.logData = none
  · obtain ⟨hledger, hresults, -⟩ := step_of_none hnone
    refine iff_of_true ?_ ?_
    · intro e he
      rw [hledger] at he
      simpa [Handled, hresults] using hc e he
    · intro hended l hl
      simp [hended, hl] at hnone
  · rw [not_or, Bool.not_eq_true, ← ne_eq, Option.ne_none_iff_exists'] at hnone
    obtain ⟨hended, l, hl⟩ := hnone
    have hwhole : s.WholeFrames t ↔ t.bytesRead.length ≤ l.length ∧
        ((getUserDiagBuf s.vdiag.userDiag l).2 = true → t.engDiag = 1 →
          s.vdiag.userDiag.extBufLen = 0 ∧
            ∃ body, 0x7E ∉ body ∧ l = 0x7E :: (body ++ [0x7E])) := by
      constructor
      · exact fun hw => hw hended l hl
      · intro hw _ l' hl'
        obtain rfl := Option.some.inj (hl.symm.trans hl')
        exact hw
    rw [hwhole]
    cases hfound : (getUserDiagBuf s.vdiag.userDiag l).2 with
    | false =>
        rw [step_of_incomplete hended hl hfound, Conserves, List.forall_mem_append,
          List.forall_mem_append, forall_lost_iff]
        refine ⟨fun hall => ⟨hall.2, nofun⟩, fun hw => ⟨⟨hc, ?_⟩, hw.1⟩⟩
        exact forall_entries_of_incomplete h hfound
    | true =>
        obtain ⟨call, hstep⟩ := step_of_complete hended hl hfound
        have hresults : (s.step t).results = s.results ++ [t.engDiag] := by rw [hstep]
        have hledger : (s.step t).ledger =
            s.ledger ++ s.entries t l ++ lost (t.bytesRead.drop l.length) := by rw [hstep]
        rw [Conserves, hledger, List.forall_mem_append, List.forall_mem_append,
          forall_lost_iff, forall_ledger_of_complete h hc hresults,
          forall_entries_of_complete h hfound hresults]
        constructor
        · rintro ⟨⟨hpending, hall⟩, hlen⟩
          refine ⟨hlen, fun _ hone => ⟨hpending hone, ?_⟩⟩
          exact (forall_collected_iff (hpending hone) hfound).mp (hall hone)
        · rintro ⟨hlen, hw⟩
          refine ⟨⟨fun hone => (hw rfl hone).1, fun hone => ?_⟩, hlen⟩
          exact (forall_collected_iff (hw rfl hone).1 hfound).mpr (hw rfl hone).2

/-- What goes into the chunk is the start of what the reads deliver. -/
theorem prefix_bytesRead {t : Turn} {l : List UInt8} (h : t.logData = some l) :
    l <+: t.bytesRead := by
  unfold Turn.logData at h
  unfold Turn.bytesRead
  cases hfirst : t.first with
  | none => simp [hfirst] at h
  | some bytes =>
      simp only [hfirst, Option.map_some, Option.some.injEq] at h
      subst h
      by_cases hfull : (bytes.take (DATA_BUF_SIZE / 2)).length = DATA_BUF_SIZE / 2
      · simp only [hfull, if_true]
        cases t.second with
        | none => exact (List.take_prefix _ _).trans (List.prefix_append _ _)
        | some more => exact List.prefix_rfl
      · simp only [hfull, if_false]
        exact List.prefix_rfl

theorem bytesRead_of_none {t : Turn} (h : t.logData = none) : t.bytesRead = [] := by
  have hfirst : t.first = none := by simpa [Turn.logData] using h
  rw [Turn.bytesRead, hfirst]

theorem map_byte_lost (bytes : List UInt8) : (lost bytes).map Entry.byte = bytes := by
  rw [lost, List.map_map]
  exact List.map_id bytes

theorem ledger_step (s : Traced) (t : Turn) :
    (s.step t).ledger.map Entry.byte = s.ledger.map Entry.byte ++
      if s.vdiag.ended then [] else t.bytesRead := by
  cases hended : s.vdiag.ended with
  | true => simp [step, hended]
  | false =>
      cases hl : t.logData with
      | none => simp [step, hended, hl, bytesRead_of_none hl]
      | some l =>
          obtain ⟨rest, hrest⟩ := prefix_bytesRead hl
          have hledger : (s.step t).ledger =
              s.ledger ++ s.entries t l ++ lost (t.bytesRead.drop l.length) := by
            simp [step, hended, hl]
          rw [hledger, List.map_append, List.map_append, map_byte_entries, map_byte_lost,
            ← hrest, List.drop_left, List.append_assoc]
          rfl

/-- The bytes in the pipe are those that the ledger says were written. -/
def Piped (s : Traced) : Prop :=
  s.vdiag.pipe.flatten = (s.ledger.filter Entry.written).map Entry.byte

theorem filter_lost (bytes : List UInt8) : (lost bytes).filter Entry.written = [] := by
  rw [List.filter_eq_nil_iff]
  intro e he
  simp [(frame_of_mem_lost he).2]

theorem Piped.step (h : s.Piped) (t : Turn) : (s.step t).Piped := by
  by_cases hnone : s.vdiag.ended = true ∨ t.logData = none
  · obtain ⟨hledger, -, -, -, hpipe⟩ := step_of_none hnone
    rw [Piped, hledger, hpipe]
    exact h
  · rw [not_or, Bool.not_eq_true, ← ne_eq, Option.ne_none_iff_exists'] at hnone
    obtain ⟨hended, l, hl⟩ := hnone
    have hwritten : ∀ e ∈ s.entries t l, e.written =
        !((getUserDiagBuf s.vdiag.userDiag l).2 && decide (t.engDiag = 1)) :=
      fun e he => written_of_mem_entries he
    have hall : (∀ e ∈ s.entries t l, e.written = true) →
        ((s.entries t l).filter Entry.written).map Entry.byte = l := by
      intro htrue
      rw [List.filter_eq_self.mpr htrue, map_byte_entries]
    cases hfound : (getUserDiagBuf s.vdiag.userDiag l).2 with
    | false =>
        rw [step_of_incomplete hended hl hfound, Piped, List.filter_append, List.filter_append,
          filter_lost, List.append_nil, List.map_append, hall, ← h]
        · simp
        · intro e he
          rw [hwritten e he, hfound]
          rfl
    | true =>
        obtain ⟨call, hstep⟩ := step_of_complete hended hl hfound
        rw [hstep, Piped, List.filter_append, List.filter_append, filter_lost, List.append_nil,
          List.map_append, ← h]
        by_cases hone : t.engDiag = 1
        · have hnil : (s.entries t l).filter Entry.written = [] := by
            rw [List.filter_eq_nil_iff]
            intro e he
            rw [hwritten e he, hfound, decide_eq_true hone]
            decide
          simp [hone, hnil]
        · rw [hall]
          · simp [hone]
          · intro e he
            rw [hwritten e he, hfound, decide_eq_false hone]
            rfl

theorem vdiag_step (s : Traced) (t : Turn) : (s.step t).vdiag = s.vdiag.step t := by
  cases hended : s.vdiag.ended with
  | true => simp [step, Vdiag.step, hended]
  | false =>
      cases hl : t.logData with
      | none => simp [step, hended, hl]
      | some l => simp [step, hended, hl]

end Traced

def readBytes : Vdiag → List Turn → List UInt8
  | _, [] => []
  | s, t :: ts => (if s.ended then [] else t.bytesRead) ++ readBytes (s.step t) ts

namespace Traced

theorem run_vdiag (s : Traced) (es : List Turn) :
    (Run.run step s es).vdiag = Run.run Vdiag.step s.vdiag es := by
  induction es generalizing s with
  | nil => rfl
  | cons t es ih => rw [Run.run_cons, Run.run_cons, ih, vdiag_step]

theorem run_ledger (s : Traced) (es : List Turn) :
    (Run.run step s es).ledger.map Entry.byte =
      s.ledger.map Entry.byte ++ readBytes s.vdiag es := by
  induction es generalizing s with
  | nil => simp [readBytes]
  | cons t es ih =>
      rw [Run.run_cons, ih, ledger_step, vdiag_step, readBytes, List.append_assoc]

theorem run_piped (es : List Turn) {s : Traced} (h : s.Piped) : (Run.run step s es).Piped := by
  induction es generalizing s with
  | nil => exact h
  | cons t es ih => exact ih (h.step t)

end Traced

/-- The ledger of a run has the bytes that were read, in order, and the pipe has those of
them that were written. In every state of the run each byte is either in a handled frame
or written, exactly when every turn meets `WholeFrames`. -/
theorem conserves_iff_meets (es : List Turn) :
    let s := Run.run Traced.step Traced.start es
    s.vdiag = Run.run Vdiag.step Vdiag.start es ∧
      s.ledger.map Entry.byte = readBytes Vdiag.start es ∧
      s.vdiag.pipe.flatten = (s.ledger.filter Entry.written).map Entry.byte ∧
      ((∀ fs, fs <+: es → (Run.run Traced.step Traced.start fs).Conserves) ↔
        Run.Meets Traced.step Traced.WholeFrames Traced.start es) := by
  refine ⟨Traced.run_vdiag _ es, Traced.run_ledger _ es, Traced.run_piped es rfl, ?_⟩
  exact @Run.forall_prefix_iff_meets _ _ _ _ Traced.Numbered _ (fun s t h => h.step t)
    (fun s t h hc => Traced.conserves_step_iff h hc t) _ Traced.numbered_start
    (fun e he => nomatch he) es

/-- A frame with type `0x0D` and subtype `7`, which `eng_diag` handles, that is read in
two pieces: its first piece goes to the pipe. -/
theorem not_conserves_split_frame :
    let es : List Turn :=
      [⟨some [0x7E, 1, 0, 0, 0, 8, 0, 0x0D, 7], none, true, 0⟩, ⟨some [0x7E], none, true, 1⟩]
    (Run.run Vdiag.step Vdiag.start es).calls.length = 1 ∧
      (Run.run Vdiag.step Vdiag.start es).pipe = [[0x7E, 1, 0, 0, 0, 8, 0, 0x0D, 7]] ∧
      ¬ (Run.run Traced.step Traced.start es).Conserves := by
  refine ⟨rfl, rfl, fun h => ?_⟩
  have hfirst := h ⟨0x7E, some 0, true⟩ (List.mem_of_getElem? (i := 0) rfl)
  exact hfirst.mp rfl ⟨0, rfl, rfl⟩

end Engcs

end Tarako
