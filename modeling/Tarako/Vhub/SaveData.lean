import Tarako.Lib.Blocks
import Tarako.Lib.Ring
import Tarako.Lib.Run

/-!
# The segments of the vhub log

`save_data` appends what it is given to the open segment file. A segment that has
taken `fd_out_data_max` bytes is followed by the next one, whose number is taken
modulo `fd_out_data_segment_max` and whose file is truncated when it is opened, and
the rest of the buffer is saved there. Writes are complete, and
`fd_out_data_segment` stays below its limit.
-/

namespace Tarako

namespace Vhub

open Blocks

/-- The fields of `tcmd` that belong to the log, and the segment files: `files i` is
the file `fd_out_name` with `i` appended, `fdOut` the one that is open. -/
structure Tcmd where
  files : ℕ → Option (List UInt8)
  fdOut : ℕ
  fdOutDataMax : ℕ
  fdOutDataPointer : ℕ
  fdOutDataSegment : ℕ
  fdOutDataSegmentMax : ℕ
  data_max_pos : 0 < fdOutDataMax
  segment_max_pos : 0 < fdOutDataSegmentMax

namespace Tcmd

/-- `vhub_open_new(fd_out_name, fd_out_data_segment++, fd_out_data_segment_max,
&fd_out, O_TRUNC)`. -/
def vhubOpenNew (s : Tcmd) : Tcmd :=
  let index := s.fdOutDataSegment % s.fdOutDataSegmentMax
  { s with
    files := Function.update s.files index (some [])
    fdOut := index
    fdOutDataSegment := s.fdOutDataSegment + 1 }

/-- `write(fd_out, buf, m)` in full, and `*n -= m`. -/
def write (s : Tcmd) (buf : List UInt8) : Tcmd :=
  { s with
    files := Function.update s.files s.fdOut ((s.files s.fdOut).map (· ++ buf))
    fdOutDataPointer := s.fdOutDataPointer - buf.length }

/-- The log is full: `fd_out_data_pointer = fd_out_data_max`, and the next segment. -/
def rotate (s : Tcmd) : Tcmd :=
  vhubOpenNew { s with fdOutDataPointer := s.fdOutDataMax }

/-- What `main` sets up before any data is saved. -/
def start (files : ℕ → Option (List UInt8)) (dataMax segmentMax : ℕ)
    (hd : 0 < dataMax) (hm : 0 < segmentMax) : Tcmd :=
  let s := vhubOpenNew ⟨files, 0, dataMax, dataMax, 0, segmentMax, hd, hm⟩
  { s with fdOutDataPointer := dataMax }

end Tcmd

/-- `m`: what the open segment takes of a buffer. -/
def Tcmd.m (s : Tcmd) (buf : List UInt8) : ℕ :=
  if buf.length < s.fdOutDataPointer then buf.length else s.fdOutDataPointer

/-- `save_data`. A call that starts with a full segment saves nothing in it, so the
recursion goes down in the length of the buffer or leaves the pointer above 0. -/
def saveData (s : Tcmd) (buf : List UInt8) : Tcmd :=
  if buf = [] then s
  else if (s.write (buf.take (s.m buf))).fdOutDataPointer = 0 then
    if buf.drop (s.m buf) = [] then (s.write (buf.take (s.m buf))).rotate
    else saveData (s.write (buf.take (s.m buf))).rotate (buf.drop (s.m buf))
  else s.write (buf.take (s.m buf))
termination_by (buf.length, if s.fdOutDataPointer = 0 then 1 else 0)
decreasing_by
  rename_i hbuf _ _
  have hpos := List.length_pos_iff.mpr hbuf
  have hdata : s.fdOutDataMax ≠ 0 := Nat.ne_of_gt s.data_max_pos
  rcases Nat.eq_zero_or_pos s.fdOutDataPointer with hzero | hptr
  · simp [hzero, Tcmd.m, Tcmd.rotate, Tcmd.vhubOpenNew, Tcmd.write, hdata, Prod.lex_def]
  · apply Prod.Lex.left
    rw [List.length_drop, Tcmd.m]
    split_ifs <;> omega

/-! ## The segments that are kept -/

namespace Tcmd

def kept (s : Tcmd) : ℕ := min s.fdOutDataSegment s.fdOutDataSegmentMax

def keptSegments (s : Tcmd) : List ℕ := List.range' (s.fdOutDataSegment - s.kept) s.kept

def segmentFile (s : Tcmd) (j : ℕ) : Option (List UInt8) :=
  s.files (j % s.fdOutDataSegmentMax)

def retained (s : Tcmd) : List UInt8 :=
  s.keptSegments.flatMap fun j => (s.segmentFile j).getD []

theorem mem_keptSegments {s : Tcmd} {j : ℕ} : j ∈ s.keptSegments ↔
    j < s.fdOutDataSegment ∧ s.fdOutDataSegment ≤ j + s.fdOutDataSegmentMax := by
  rw [keptSegments, List.mem_range'_1, kept]
  omega

/-- After the stream `l`: every kept segment holds its block of `l`, the open one has
room for `fd_out_data_pointer` bytes more, and the other files are as in `files`. -/
structure Holds (s : Tcmd) (files : ℕ → Option (List UInt8)) (l : List UInt8) : Prop where
  segment_pos : 0 < s.fdOutDataSegment
  pointer_le : s.fdOutDataPointer ≤ s.fdOutDataMax
  length_eq : l.length + s.fdOutDataPointer = s.fdOutDataSegment * s.fdOutDataMax
  fdOut_eq : s.fdOut = (s.fdOutDataSegment - 1) % s.fdOutDataSegmentMax
  file_eq : ∀ j ∈ s.keptSegments, s.segmentFile j = some (block s.fdOutDataMax l j)
  other_eq : ∀ i, (∀ j ∈ s.keptSegments, j % s.fdOutDataSegmentMax ≠ i) → s.files i = files i

variable {files : ℕ → Option (List UInt8)} {s : Tcmd} {l : List UInt8}

theorem segmentFile_ne {max segment j k : ℕ} (hjk : j < k) (hk : k < segment)
    (hj : segment ≤ j + max) : j % max ≠ k % max := by
  have hne := @Ring.slot_ne max j 0 (k - j) (by omega) (by omega)
  rwa [Nat.add_zero, Nat.add_sub_cancel' hjk.le] at hne

theorem Holds.full_le (h : s.Holds files l) {j : ℕ} (hj : j + 1 < s.fdOutDataSegment) :
    (j + 1) * s.fdOutDataMax ≤ l.length := by
  have hmul : (j + 2) * s.fdOutDataMax ≤ s.fdOutDataSegment * s.fdOutDataMax :=
    Nat.mul_le_mul_right _ hj
  have hlen := h.length_eq
  have hle := h.pointer_le
  rw [Nat.add_mul] at hmul ⊢
  omega

theorem Holds.write (h : s.Holds files l) {buf : List UInt8}
    (hbuf : buf.length ≤ s.fdOutDataPointer) : (s.write buf).Holds files (l ++ buf) := by
  have hseg := h.segment_pos
  have hmax := s.segment_max_pos
  have hlen := h.length_eq
  have hlast : s.fdOutDataSegment - 1 + 1 = s.fdOutDataSegment := Nat.sub_add_cancel hseg
  refine ⟨hseg, (Nat.sub_le _ _).trans h.pointer_le, ?_, h.fdOut_eq, ?_, ?_⟩
  · rw [List.length_append]
    change l.length + buf.length + (s.fdOutDataPointer - buf.length) =
      s.fdOutDataSegment * s.fdOutDataMax
    omega
  · intro j hj
    change j ∈ s.keptSegments at hj
    obtain ⟨hlt, hkept⟩ := mem_keptSegments.mp hj
    change Function.update s.files s.fdOut _ (j % s.fdOutDataSegmentMax) =
      some (block s.fdOutDataMax (l ++ buf) j)
    rcases Nat.lt_or_ge (j + 1) s.fdOutDataSegment with hfull | hopen
    · have hne : j % s.fdOutDataSegmentMax ≠ s.fdOut := by
        rw [h.fdOut_eq]
        exact segmentFile_ne (by omega) (by omega) hkept
      rw [Function.update_of_ne hne, block_append_of_le (h.full_le hfull)]
      exact h.file_eq j hj
    · obtain rfl : j = s.fdOutDataSegment - 1 := by omega
      have hfile := h.file_eq _ hj
      rw [segmentFile, ← h.fdOut_eq] at hfile
      rw [← h.fdOut_eq, Function.update_self, hfile, block_append_of_room]
      · rfl
      · have hmul := congrArg (· * s.fdOutDataMax) hlast
        have hle := h.pointer_le
        simp only [Nat.add_mul] at hmul
        omega
      · rw [hlast]
        omega
  · intro i hi
    have hopen : s.fdOut ≠ i := by
      rw [h.fdOut_eq]
      exact hi _ (mem_keptSegments.mpr (by
        change s.fdOutDataSegment - 1 < s.fdOutDataSegment ∧
          s.fdOutDataSegment ≤ s.fdOutDataSegment - 1 + s.fdOutDataSegmentMax
        omega))
    exact (Function.update_of_ne hopen.symm _ _).trans (h.other_eq i hi)

theorem Holds.rotate (h : s.Holds files l) (hfull : s.fdOutDataPointer = 0) :
    s.rotate.Holds files l := by
  have hmax := s.segment_max_pos
  have hlen := h.length_eq
  have hkept : ∀ j, j ∈ s.rotate.keptSegments ↔
      j < s.fdOutDataSegment + 1 ∧ s.fdOutDataSegment + 1 ≤ j + s.fdOutDataSegmentMax :=
    fun j => mem_keptSegments
  rw [hfull, Nat.add_zero] at hlen
  refine ⟨Nat.succ_pos _, le_rfl, ?_, rfl, ?_, ?_⟩
  · change l.length + s.fdOutDataMax = (s.fdOutDataSegment + 1) * s.fdOutDataMax
    rw [hlen, Nat.add_mul, Nat.one_mul]
  · intro j hj
    obtain ⟨hlt, hle⟩ := (hkept j).mp hj
    change Function.update s.files (s.fdOutDataSegment % s.fdOutDataSegmentMax) (some [])
      (j % s.fdOutDataSegmentMax) = some (block s.fdOutDataMax l j)
    rcases Nat.lt_or_ge j s.fdOutDataSegment with hold | hnew
    · rw [Function.update_of_ne (segmentFile_ne hold (Nat.lt_succ_self _) hle)]
      exact h.file_eq j (mem_keptSegments.mpr (by omega))
    · obtain rfl : j = s.fdOutDataSegment := by omega
      rw [Function.update_self, block_of_length_le hlen.le]
  · intro i hi
    have hnew : s.fdOutDataSegment % s.fdOutDataSegmentMax ≠ i :=
      hi _ ((hkept _).mpr (by omega))
    refine (Function.update_of_ne hnew.symm _ _).trans (h.other_eq i ?_)
    intro j hj
    obtain ⟨hlt, hle⟩ := mem_keptSegments.mp hj
    rcases Nat.lt_or_ge s.fdOutDataSegment (j + s.fdOutDataSegmentMax) with hlater | holdest
    · exact hi j ((hkept j).mpr (by omega))
    · -- the file of the oldest segment is the one that is opened again
      rw [show s.fdOutDataSegment = j + s.fdOutDataSegmentMax by omega,
        Nat.add_mod_right] at hnew
      exact hnew

theorem holds_start (files : ℕ → Option (List UInt8)) {dataMax segmentMax : ℕ}
    (hd : 0 < dataMax) (hm : 0 < segmentMax) :
    (start files dataMax segmentMax hd hm).Holds files [] := by
  have hkept : ∀ j, j ∈ (start files dataMax segmentMax hd hm).keptSegments ↔
      j < 1 ∧ 1 ≤ j + segmentMax := fun j => mem_keptSegments
  refine ⟨Nat.succ_pos _, le_rfl, ?_, rfl, ?_, ?_⟩
  · change 0 + dataMax = (0 + 1) * dataMax
    rw [Nat.zero_add, Nat.zero_add, Nat.one_mul]
  · intro j hj
    obtain rfl : j = 0 := Nat.lt_one_iff.mp ((hkept j).mp hj).1
    change Function.update files (0 % segmentMax) (some []) (0 % segmentMax) = _
    rw [Function.update_self, block_of_length_le (Nat.zero_le _)]
  · intro i hi
    have hfirst : 0 % segmentMax ≠ i := hi 0 ((hkept 0).mpr (by omega))
    exact Function.update_of_ne hfirst.symm _ _

theorem length_take_m_le (s : Tcmd) (buf : List UInt8) :
    (buf.take (s.m buf)).length ≤ s.fdOutDataPointer := by
  rw [List.length_take, m]
  split_ifs <;> omega

theorem le_m_of_pointer_ne_zero {buf : List UInt8}
    (h : (s.write (buf.take (s.m buf))).fdOutDataPointer ≠ 0) : buf.length ≤ s.m buf := by
  change s.fdOutDataPointer - (buf.take _).length ≠ 0 at h
  rw [List.length_take] at h
  rw [m] at h ⊢
  split_ifs at h ⊢ <;> omega

theorem Holds.saveData (h : s.Holds files l) (buf : List UInt8) :
    (saveData s buf).Holds files (l ++ buf) := by
  have hwrite := h.write (length_take_m_le s buf)
  induction s, buf using Vhub.saveData.induct generalizing l with
  | case1 s => simpa [Vhub.saveData] using h
  | case2 s buf hbuf hfull hleft =>
      rw [Vhub.saveData, if_neg hbuf, if_pos hfull, if_pos hleft]
      have hall : buf.take (s.m buf) = buf :=
        List.take_of_length_le (List.drop_eq_nil_iff.mp hleft)
      simpa only [hall] using hwrite.rotate hfull
  | case3 s buf hbuf hfull hleft ih =>
      rw [Vhub.saveData, if_neg hbuf, if_pos hfull, if_neg hleft]
      have hrotate := hwrite.rotate hfull
      have hrest := ih hrotate (hrotate.write (length_take_m_le _ _))
      rwa [List.append_assoc, List.take_append_drop] at hrest
  | case4 s buf hbuf hroom =>
      rw [Vhub.saveData, if_neg hbuf, if_neg hroom]
      have hall : buf.take (s.m buf) = buf :=
        List.take_of_length_le (le_m_of_pointer_ne_zero hroom)
      simpa only [hall] using hwrite

/-- Any number of calls: the kept segments hold their blocks of the whole stream. -/
theorem Holds.run (h : s.Holds files l) (bufs : List (List UInt8)) :
    (Run.run Vhub.saveData s bufs).Holds files (l ++ bufs.flatten) := by
  induction bufs generalizing s l with
  | nil => simpa using h
  | cons buf bufs ih =>
      rw [Run.run_cons, List.flatten_cons, ← List.append_assoc]
      exact ih (h.saveData buf)

theorem saveData_sizes (s : Tcmd) (buf : List UInt8) :
    (Vhub.saveData s buf).fdOutDataMax = s.fdOutDataMax ∧
      (Vhub.saveData s buf).fdOutDataSegmentMax = s.fdOutDataSegmentMax := by
  induction s, buf using Vhub.saveData.induct with
  | case1 s => simp [Vhub.saveData]
  | case2 s buf hbuf hfull hleft =>
      rw [Vhub.saveData, if_neg hbuf, if_pos hfull, if_pos hleft]
      exact ⟨rfl, rfl⟩
  | case3 s buf hbuf hfull hleft ih =>
      rw [Vhub.saveData, if_neg hbuf, if_pos hfull, if_neg hleft]
      exact ih
  | case4 s buf hbuf hroom =>
      rw [Vhub.saveData, if_neg hbuf, if_neg hroom]
      exact ⟨rfl, rfl⟩

theorem run_sizes (s : Tcmd) (bufs : List (List UInt8)) :
    (Run.run Vhub.saveData s bufs).fdOutDataMax = s.fdOutDataMax ∧
      (Run.run Vhub.saveData s bufs).fdOutDataSegmentMax = s.fdOutDataSegmentMax := by
  induction bufs generalizing s with
  | nil => exact ⟨rfl, rfl⟩
  | cons buf bufs ih =>
      obtain ⟨hd, hm⟩ := ih (Vhub.saveData s buf)
      obtain ⟨hd', hm'⟩ := saveData_sizes s buf
      exact ⟨hd.trans hd', hm.trans hm'⟩

theorem Holds.retained_eq (h : s.Holds files l) :
    s.retained = l.drop ((s.fdOutDataSegment - s.kept) * s.fdOutDataMax) := by
  have hkept : s.kept ≤ s.fdOutDataSegment := Nat.min_le_left _ _
  have hblocks : s.retained = s.keptSegments.flatMap (block s.fdOutDataMax l) := by
    apply List.flatMap_congr
    intro j hj
    rw [h.file_eq j hj, Option.getD_some]
  have hlen := h.length_eq
  rw [hblocks, keptSegments, flatMap_block_of_length_le]
  rw [Nat.sub_add_cancel hkept]
  omega

end Tcmd

/-- What the segment files keep of everything saved so far: their concatenation from
the oldest to the newest is an end of it, at least as long as all but one of the
segments, no file is longer than a segment, and no other file was touched. -/
theorem save_data_retains (files : ℕ → Option (List UInt8)) {dataMax segmentMax : ℕ}
    (hd : 0 < dataMax) (hm : 0 < segmentMax) (bufs : List (List UInt8)) :
    let s : Tcmd := Run.run saveData (Tcmd.start files dataMax segmentMax hd hm) bufs
    s.retained <:+ bufs.flatten ∧
      min bufs.flatten.length ((segmentMax - 1) * dataMax) ≤ s.retained.length ∧
      (∀ j ∈ s.keptSegments, ∃ file, s.segmentFile j = some file ∧ file.length ≤ dataMax) ∧
      ∀ i, (∀ j ∈ s.keptSegments, j % segmentMax ≠ i) → s.files i = files i := by
  intro s
  have h : s.Holds files bufs.flatten := (Tcmd.holds_start files hd hm).run bufs
  obtain ⟨hdata, hmax⟩ : s.fdOutDataMax = dataMax ∧ s.fdOutDataSegmentMax = segmentMax :=
    Tcmd.run_sizes _ bufs
  refine ⟨?_, ?_, ?_, ?_⟩
  · rw [h.retained_eq]
    exact List.drop_suffix _ _
  · have hlen := h.length_eq
    have hle := h.pointer_le
    rw [h.retained_eq, List.length_drop, Tcmd.kept, hmax]
    rw [hdata] at hlen hle ⊢
    rcases Nat.le_total s.fdOutDataSegment segmentMax with hfew | hmany
    · rw [Nat.min_eq_left hfew, Nat.sub_self, Nat.zero_mul]
      exact Nat.min_le_left _ _
    · have hsplit : s.fdOutDataSegment * dataMax =
          (s.fdOutDataSegment - segmentMax) * dataMax + (segmentMax - 1) * dataMax +
            dataMax := by
        rw [← Nat.add_mul, ← Nat.succ_mul]
        congr 1
        omega
      rw [Nat.min_eq_right hmany]
      refine (Nat.min_le_right _ _).trans ?_
      omega
  · intro j hj
    exact ⟨_, h.file_eq j hj, hdata ▸ length_block_le _ _ _⟩
  · rw [← hmax]
    exact h.other_eq

/-- Two segments of two bytes, the first of them already replaced. -/
theorem save_data_retains_five :
    (Run.run saveData (Tcmd.start (fun _ => none) 2 2 (by decide) (by decide))
      [[1, 2, 3], [4, 5]]).retained <:+ [1, 2, 3, 4, 5] :=
  (save_data_retains (fun _ => none) (by decide) (by decide) [[1, 2, 3], [4, 5]]).1

end Vhub

end Tarako
