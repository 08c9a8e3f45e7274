import Mathlib.Data.List.Basic
import Tarako.Lib.SlotTable

/-!
# Descriptors and their files

A process holds files under descriptors, the lowest free number first. A number is used
again once it has been closed, so that a call of `close` that comes late can close a file
that it is not for. Files are numbered in the order in which they are opened, and every
call of `close` is kept with the file it is for and the file that has the number.
-/

namespace Handles

open SlotTable

/-- A call of `close`: the file it is for, and the one that it closes. -/
structure Close where
  owner : ℕ
  hit : Option ℕ
deriving DecidableEq

end Handles

/-- The descriptors of a process and its calls of `close`. -/
structure Handles where
  slots : List (Option ℕ)
  /-- The number of files so far. -/
  next : ℕ
  closes : List Handles.Close

namespace Handles

open SlotTable

/-- The files `0`, …, `n - 1` are open. -/
def start (n : ℕ) : Handles := ⟨(List.range n).map some, n, []⟩

/-- A new file under the lowest free number. -/
def openFile (h : Handles) : Handles :=
  { h with slots := alloc h.slots h.next, next := h.next + 1 }

/-- `close (fd)` for the file `owner`; a free number closes nothing. -/
def close (h : Handles) (owner fd : ℕ) : Handles :=
  { h with slots := free h.slots fd, closes := h.closes ++ [⟨owner, get h.slots fd⟩] }

/-- How often `file` has been closed. -/
def closed (h : Handles) (file : ℕ) : ℕ := h.closes.countP (·.hit == some file)

def IsOpen (h : Handles) (file : ℕ) : Prop := ∃ fd, get h.slots fd = some file

/-- Every file is open under one number or has been closed once, by a call that is
for it. -/
structure Valid (h : Handles) : Prop where
  lt : ∀ {fd file}, get h.slots fd = some file → file < h.next
  inj : ∀ {fd fd' file}, get h.slots fd = some file → get h.slots fd' = some file → fd = fd'
  opened : ∀ {fd file}, get h.slots fd = some file → h.closed file = 0
  once : ∀ {file}, file < h.next → ¬ h.IsOpen file → h.closed file = 1
  fresh : ∀ {file}, h.next ≤ file → h.closed file = 0
  owned : ∀ call ∈ h.closes, ∀ file, call.hit = some file → file = call.owner

theorem get_start {n fd file : ℕ} : get (start n).slots fd = some file ↔ fd < n ∧ file = fd := by
  rw [start, SlotTable.get, List.getElem?_map]
  by_cases hfd : fd < n
  · rw [List.getElem?_eq_getElem (by simpa using hfd), List.getElem_range]
    simp [hfd, eq_comm]
  · rw [List.getElem?_eq_none (by simpa using hfd)]
    simp [hfd]

theorem valid_start (n : ℕ) : (start n).Valid where
  lt h := by
    obtain ⟨hfd, rfl⟩ := get_start.mp h
    exact hfd
  inj h h' := by
    obtain ⟨-, rfl⟩ := get_start.mp h
    exact (get_start.mp h').2
  opened _ := rfl
  once hlt hopen := absurd ⟨_, get_start.mpr ⟨hlt, rfl⟩⟩ hopen
  fresh _ := rfl
  owned := by
    intro call hcall
    cases hcall

theorem closed_close (h : Handles) (owner fd file : ℕ) :
    (h.close owner fd).closed file =
      h.closed file + if get h.slots fd = some file then 1 else 0 := by
  rw [closed, close, List.countP_append, List.countP_singleton, closed]
  simp only [beq_iff_eq]

variable {h : Handles}

theorem Valid.openFile (hv : h.Valid) : h.openFile.Valid where
  lt := by
    intro fd file hfile
    rw [Handles.openFile, get_alloc] at hfile
    split_ifs at hfile
    · cases hfile
      exact Nat.lt_succ_self _
    · exact Nat.lt_succ_of_lt (hv.lt hfile)
  inj := by
    intro fd fd' file hfile hfile'
    rw [Handles.openFile, get_alloc] at hfile hfile'
    split_ifs at hfile hfile' with h1 h2 h2
    · exact h1.trans h2.symm
    · cases hfile
      exact absurd (hv.lt hfile') (Nat.lt_irrefl _)
    · cases hfile'
      exact absurd (hv.lt hfile) (Nat.lt_irrefl _)
    · exact hv.inj hfile hfile'
  opened := by
    intro fd file hfile
    rw [Handles.openFile, get_alloc] at hfile
    split_ifs at hfile
    · cases hfile
      exact hv.fresh (Nat.le_refl _)
    · exact hv.opened hfile
  once := by
    intro file hlt hopen
    have hold : ¬ h.IsOpen file := by
      rintro ⟨fd, hfd⟩
      refine hopen ⟨fd, ?_⟩
      rw [Handles.openFile, get_alloc, if_neg, hfd]
      rintro rfl
      -- the lowest free number holds nothing
      have hfree : get h.slots (lowestFree h.slots) = none := get_lowestFree h.slots
      rw [hfree] at hfd
      cases hfd
    have hne : file ≠ h.next := by
      rintro rfl
      refine hopen ⟨lowestFree h.slots, ?_⟩
      rw [Handles.openFile, get_alloc, if_pos rfl]
    exact hv.once (Nat.lt_of_le_of_ne (Nat.le_of_lt_succ hlt) hne) hold
  fresh hle := hv.fresh (Nat.le_of_succ_le hle)
  owned := hv.owned

/-- `close` on a number that is free or that the file it is for has. -/
theorem Valid.close (hv : h.Valid) {owner fd : ℕ}
    (hfd : ∀ file, get h.slots fd = some file → file = owner) : (h.close owner fd).Valid where
  lt := by
    intro i file hfile
    rw [Handles.close, get_free] at hfile
    split_ifs at hfile
    exact hv.lt hfile
  inj := by
    intro i j file hi hj
    rw [Handles.close, get_free] at hi hj
    split_ifs at hi hj
    exact hv.inj hi hj
  opened := by
    intro i file hfile
    rw [Handles.close, get_free] at hfile
    split_ifs at hfile with hi
    rw [closed_close, hv.opened hfile, if_neg]
    intro hfd'
    exact hi (hv.inj hfile hfd')
  once := by
    intro file hlt hopen
    rw [closed_close]
    by_cases hhit : get h.slots fd = some file
    · rw [if_pos hhit, hv.opened hhit]
    · have hold : ¬ h.IsOpen file := by
        rintro ⟨i, hi⟩
        refine hopen ⟨i, ?_⟩
        rw [Handles.close, get_free, if_neg, hi]
        rintro rfl
        exact hhit hi
      rw [if_neg hhit, hv.once hlt hold]
  fresh := by
    intro file hle
    rw [closed_close, hv.fresh hle, if_neg]
    intro hhit
    exact absurd (hv.lt hhit) (Nat.not_lt.mpr hle)
  owned := by
    intro call hcall file hhit
    rcases List.mem_append.mp hcall with hold | hnew
    · exact hv.owned call hold file hhit
    · rw [List.mem_singleton] at hnew
      subst hnew
      exact hfd file hhit

theorem Valid.closed_eq (hv : h.Valid) {file : ℕ} (hlt : file < h.next) :
    h.closed file = 1 ∨ h.closed file = 0 ∧ h.IsOpen file := by
  by_cases hopen : h.IsOpen file
  · obtain ⟨fd, hfd⟩ := hopen
    exact Or.inr ⟨hv.opened hfd, fd, hfd⟩
  · exact Or.inl (hv.once hlt hopen)

end Handles
