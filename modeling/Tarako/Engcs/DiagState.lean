import Tarako.Engcs.Vdiag

/-!
# The states of the diag assembler

Every state that calls of `get_user_diag_buf` can reach holds nothing or the start of a frame. In
all of them but one kind two frames more make a call report a frame: when `ext_data_buf` is full,
neither branch of the loop stores or compares a byte, and `ext_buf_len` never changes again.
-/

namespace Tarako

namespace Engcs

/-- The states that calls with any bytes lead to; `init_user_diag_buf` leads back to the first
one. -/
inductive Fed : UserDiag → Prop
  | init : Fed initUserDiagBuf
  | feed {s : UserDiag} (hs : Fed s) (buf : List UInt8) : Fed (getUserDiagBuf s buf).1

/-- A call reports what is a frame from its first flag to its last. -/
def ReportsFrame (r : UserDiag × Bool) : Prop :=
  r.2 = true ∧ ∃ body : List UInt8, (0x7E : UInt8) ∉ body ∧
    r.1.extDataBuf.bytes.take (r.1.extBufLen + 1) = 0x7E :: (body ++ [0x7E])

/-- One of the calls with these chunks does. -/
def Reports : UserDiag → List (List UInt8) → Prop
  | _, [] => False
  | s, c :: chunks => ReportsFrame (getUserDiagBuf s c) ∨ Reports (getUserDiagBuf s c).1 chunks

/-! ## What is held -/

/-- Nothing, or the start of a frame. -/
def UserDiag.Assembling (s : UserDiag) : Prop :=
  s.held = [] ∨ ∃ body : List UInt8, (0x7E : UInt8) ∉ body ∧ s.held = 0x7E :: body

namespace UserDiag

variable {s : UserDiag}

theorem held_eq_nil_iff : s.held = [] ↔ s.extBufLen = 0 := by
  rw [← s.length_held, List.length_eq_zero_iff]

theorem held_put (b : UInt8) : (s.put b).held = s.held :=
  List.take_set_of_le (Nat.le_refl _)

theorem Assembling.exists_body (h : s.Assembling) (hpos : 0 < s.extBufLen) :
    ∃ body : List UInt8, (0x7E : UInt8) ∉ body ∧ s.held = 0x7E :: body := by
  rcases h with hnil | hbody
  · exact absurd (held_eq_nil_iff.mp hnil) (Nat.ne_of_gt hpos)
  · exact hbody

end UserDiag

theorem getUserDiagBuf_assembling (c : List UInt8) :
    ∀ {s : UserDiag}, s.Assembling →
      (getUserDiagBuf s c).1.Assembling ∧
        ((getUserDiagBuf s c).2 = true → ReportsFrame (getUserDiagBuf s c)) := by
  induction c with
  | nil => exact fun hs => ⟨hs, fun h => absurd h Bool.false_ne_true⟩
  | cons b c ih =>
      intro s hs
      rw [getUserDiagBuf]
      split_ifs with hopen hinside hclose
      · refine ih (.inr ⟨[], List.not_mem_nil, (s.held_advance_put b _).trans ?_⟩)
        rw [UserDiag.held_eq_nil_iff.mpr hopen.2, hopen.1]
        rfl
      · obtain ⟨body, hbody, hheld⟩ := hs.exists_body hinside.1
        refine ⟨.inr ⟨body, hbody, (s.held_put b).trans hheld⟩, fun _ => ⟨rfl, body, hbody, ?_⟩⟩
        have hstored := s.held_advance_put b hinside.2
        rw [hheld, hclose] at hstored
        rw [hclose]
        exact hstored
      · obtain ⟨body, hbody, hheld⟩ := hs.exists_body hinside.1
        refine ih (.inr ⟨body ++ [b], ?_, (s.held_advance_put b _).trans ?_⟩)
        · rw [List.mem_append, List.mem_singleton]
          rintro (h | h)
          · exact hbody h
          · exact hclose h.symm
        · rw [hheld]
          rfl
      · exact ih hs

theorem Fed.assembling {s : UserDiag} (h : Fed s) : s.Assembling := by
  induction h with
  | init => exact .inl UserDiag.held_initUserDiagBuf
  | feed _ buf ih => exact (getUserDiagBuf_assembling buf ih).1

/-! ## The full buffer -/

/-- Bytes without a flag behind the start of a frame fill the buffer and no more. -/
theorem extBufLen_getUserDiagBuf {c : List UInt8} (hc : (0x7E : UInt8) ∉ c) :
    ∀ {s : UserDiag}, 0 < s.extBufLen →
      (getUserDiagBuf s c).1.extBufLen = min (s.extBufLen + c.length) DATA_EXT_DIAG_SIZE := by
  induction c with
  | nil => exact fun {s} _ => (Nat.min_eq_left s.len_le).symm
  | cons b c ih =>
      intro s hpos
      have hb : b ≠ 0x7E := fun h => hc (List.mem_cons.mpr (.inl h.symm))
      have hrest : (0x7E : UInt8) ∉ c := fun h => hc (List.mem_cons_of_mem b h)
      rw [getUserDiagBuf, dif_neg (fun h => hb h.1)]
      split_ifs with hroom
      · rw [ih hrest (Nat.succ_pos _)]
        change min (s.extBufLen + 1 + c.length) _ = _
        rw [List.length_cons]
        congr 1
        omega
      · have hle := s.len_le
        rw [ih hrest hpos, List.length_cons]
        omega

theorem not_reports_of_full {s : UserDiag} (hs : DATA_EXT_DIAG_SIZE ≤ s.extBufLen)
    (chunks : List (List UInt8)) : ¬Reports s chunks := by
  induction chunks with
  | nil => exact not_false
  | cons c chunks ih =>
      rw [Reports, getUserDiagBuf_of_full hs]
      rintro (h | h)
      · exact Bool.false_ne_true h.1
      · exact ih h

/-! ## Room in the buffer -/

/-- The chunks are read as one, up to the first one that completes a frame. -/
theorem getUserDiagBuf_append (c d : List UInt8) :
    ∀ s : UserDiag, getUserDiagBuf s (c ++ d) =
      if (getUserDiagBuf s c).2 then getUserDiagBuf s c
      else getUserDiagBuf (getUserDiagBuf s c).1 d := by
  induction c with
  | nil => exact fun _ => rfl
  | cons b c ih =>
      intro s
      rw [List.cons_append, getUserDiagBuf, getUserDiagBuf]
      by_cases hopen : b = 0x7E ∧ s.extBufLen = 0
      · rw [dif_pos hopen, dif_pos hopen]
        exact ih _
      · rw [dif_neg hopen, dif_neg hopen]
        by_cases hinside : 0 < s.extBufLen ∧ s.extBufLen < DATA_EXT_DIAG_SIZE
        · rw [dif_pos hinside, dif_pos hinside]
          by_cases hclose : b = 0x7E
          · rw [if_pos hclose, if_pos hclose]
            rfl
          · rw [if_neg hclose, if_neg hclose]
            exact ih _
        · rw [dif_neg hinside, dif_neg hinside]
          exact ih s

theorem reports_of_flatten {chunks : List (List UInt8)} :
    ∀ {s : UserDiag}, s.Assembling → (getUserDiagBuf s chunks.flatten).2 = true →
      Reports s chunks := by
  induction chunks with
  | nil => exact fun _ h => absurd h Bool.false_ne_true
  | cons c chunks ih =>
      intro s hs h
      obtain ⟨hnext, hreport⟩ := getUserDiagBuf_assembling c hs
      rw [List.flatten_cons, getUserDiagBuf_append] at h
      by_cases hc : (getUserDiagBuf s c).2 = true
      · exact .inl (hreport hc)
      · rw [if_neg hc] at h
        exact .inr (ih hnext h)

theorem getUserDiagBuf_frame (f : Frame) {s : UserDiag}
    (hs : s.extBufLen < DATA_EXT_DIAG_SIZE) (rest : List UInt8) :
    (getUserDiagBuf s (f.bytes ++ rest)).2 = true := by
  by_cases hzero : s.extBufLen = 0
  · have hnil := UserDiag.held_eq_nil_iff.mpr hzero
    obtain ⟨s', hheld, hrun⟩ := getUserDiagBuf_of_prefix f (0x7E :: rest) (0x7E :: f.body) s
      (by rw [hnil]; exact List.prefix_rfl)
    have hsplit : f.bytes ++ rest = 0x7E :: f.body ++ 0x7E :: rest := by
      rw [Frame.bytes, List.cons_append, List.append_assoc]
      rfl
    rw [hnil] at hheld
    rw [hsplit, hrun, getUserDiagBuf_flag f hheld]
  · rw [Frame.bytes, List.cons_append, getUserDiagBuf, dif_neg (fun h => hzero h.2),
      dif_pos ⟨Nat.pos_of_ne_zero hzero, hs⟩, if_pos rfl]

/-- Two frames, in any chunks, make a call report a frame if and only if the buffer has room. -/
theorem reports_iff {s : UserDiag} (hs : Fed s) (f g : Frame) {chunks : List (List UInt8)}
    (hchunks : chunks.flatten = f.bytes ++ g.bytes) :
    Reports s chunks ↔ s.extBufLen < DATA_EXT_DIAG_SIZE := by
  constructor
  · intro h
    by_contra hfull
    exact not_reports_of_full (Nat.not_lt.mp hfull) chunks h
  · intro hroom
    refine reports_of_flatten hs.assembling ?_
    rw [hchunks]
    exact getUserDiagBuf_frame f hroom g.bytes

theorem reports_iff_single :
    Reports initUserDiagBuf
        [(Frame.single 1 (by decide)).bytes, (Frame.single 2 (by decide)).bytes] ↔
      initUserDiagBuf.extBufLen < DATA_EXT_DIAG_SIZE :=
  reports_iff .init (.single 1 (by decide)) (.single 2 (by decide)) rfl

/-- The start of a frame and bytes without a flag that fill the buffer. -/
def fullDiag : UserDiag :=
  (getUserDiagBuf (getUserDiagBuf initUserDiagBuf [0x7E]).1
    (List.replicate DATA_EXT_DIAG_SIZE 0)).1

theorem extBufLen_fullDiag : fullDiag.extBufLen = DATA_EXT_DIAG_SIZE := by
  have hflag : (0x7E : UInt8) ∉ List.replicate DATA_EXT_DIAG_SIZE 0 :=
    fun h => absurd (List.eq_of_mem_replicate h) (by decide)
  have hone : (getUserDiagBuf initUserDiagBuf [0x7E]).1.extBufLen = 1 := rfl
  rw [fullDiag, extBufLen_getUserDiagBuf hflag (by rw [hone]; exact Nat.one_pos), hone,
    List.length_replicate]
  exact Nat.min_eq_right (Nat.le_add_left _ _)

theorem fed_fullDiag : Fed fullDiag := by
  rw [fullDiag]
  exact .feed (.feed .init _) _

theorem not_reports_fullDiag :
    ¬∀ s, Fed s → ∀ f g : Frame, Reports s [f.bytes, g.bytes] := by
  intro h
  have hreports := h fullDiag fed_fullDiag (.single 1 (by decide)) (.single 2 (by decide))
  exact not_reports_of_full (Nat.le_of_eq extBufLen_fullDiag.symm) _ hreports

end Engcs

end Tarako
