import Mathlib.Logic.Function.Basic
import Tarako.Lib.Run
import Tarako.Lib.SlotTable

/-!
# The poll table of vhub

`pfds`, `stime` and `etime` are indexed by descriptors, and a descriptor between those of the
first and the last pty is taken for a pty, numbered by its distance from the first. The kernel
gives out the lowest free descriptor. `pollTable_sound` says in which runs that goes well.
-/

namespace Tarako

namespace Vhub

open Run SlotTable

def TCMD_CLIENT_MAX : ℕ := 16

/-- What a descriptor is open on. -/
inductive Peer
  | other
  | inotify
  | pty (i : ℕ)
  | segment
  | listen
  | client
deriving DecidableEq

/-- An index that `tcmd_pts_handler` has computed, and what its descriptor was open on. -/
structure PtsUse where
  index : ℤ
  peer : Option Peer

/-- The fields of `tcmd` and `vhb` that hold descriptors, with the descriptors of the process.
`pfds i` is `pfds[i].fd` and `vhc i` is `vhc[i].fd`; `vhcBefore` stands where `vhc[-1].fd` would.
The last two fields are no part of the program: the indices used in the arrays of `tcmd`, and
those of ptys. -/
structure PollTable where
  crashed : Bool
  fdTable : List (Option Peer)
  pfds : ℕ → ℤ
  vhc : ℕ → ℤ
  vhcMax : ℕ
  vhcBefore : ℤ
  fdInotify : ℤ
  fdOut : ℤ
  fdListen : ℤ
  used : List ℤ
  ptsUses : List PtsUse

/-- A turn of the loop in `main` for an entry that is ready, with what the system calls do:
whether `read` returns something, whether `accept` and the `open` of a pty work, and the
`open` of each segment that `save_data` goes on to. -/
structure Ready where
  ifd : ℕ
  data : Bool
  accepts : Bool
  opens : Bool
  segments : List Bool

namespace PollTable

def fdTerminal : ℤ := 888

def use (s : PollTable) (i : ℤ) : PollTable := { s with used := s.used ++ [i] }

/-- `close`, which does nothing for a negative number. -/
def close (s : PollTable) (fd : ℤ) : PollTable :=
  { s with fdTable := if fd < 0 then s.fdTable else free s.fdTable fd.toNat }

/-- `pfd_set`; a negative index is used and writes before the array. -/
def pfdSet (s : PollTable) (fd : ℤ) : PollTable :=
  { s.use fd with pfds := if fd < 0 then s.pfds else Function.update s.pfds fd.toNat fd }

def pfdClr (s : PollTable) (ifd : ℕ) : PollTable :=
  { s.use ifd with pfds := Function.update s.pfds ifd 0 }

/-- `create_pts`. When `open` fails `ptsname` gives a null pointer to `strncpy`. -/
def createPts (s : PollTable) (i : ℕ) (ok : Bool) : PollTable :=
  if ok then
    let fd := lowestFree s.fdTable
    { s with
      fdTable := alloc s.fdTable (.pty i)
      vhc := Function.update s.vhc i fd }.pfdSet fd
  else { s with crashed := true }

/-- `vhub_open_new`: the segment is closed, and the next one opened. -/
def vhubOpenNew (s : PollTable) (ok : Bool) : PollTable :=
  let t := (if s.fdOut = 0 then s else s.close s.fdOut).fdTable
  { s with
    fdTable := if ok then alloc t .segment else t
    fdOut := if ok then lowestFree t else -1 }

/-- `save_data`, by the segments that it goes on to. -/
def saveData (s : PollTable) (segments : List Bool) : PollTable :=
  segments.foldl vhubOpenNew s

def tcmdPtsHandler (s : PollTable) (fd : ℤ) (e : Ready) : PollTable :=
  let index := fd - s.vhc 0
  let s := { s with ptsUses := s.ptsUses ++ [PtsUse.mk index (get s.fdTable fd.toNat)] }
  if e.data then s.saveData e.segments
  else ((s.close fd).pfdClr e.ifd).createPts index.toNat e.opens

def tcmdListenHandler (s : PollTable) (e : Ready) : PollTable :=
  if e.accepts then
    { s with fdTable := alloc s.fdTable .client }.pfdSet (lowestFree s.fdTable)
  else s

def tcmdClientHandler (s : PollTable) (fd : ℤ) (e : Ready) : PollTable :=
  if e.data then s.saveData e.segments else ((s.use e.ifd).close fd).pfdClr e.ifd

/-- The descriptor is between those of the first and the last pty, `vhc[vhc_max - 1]`. -/
def isPts (s : PollTable) (fd : ℤ) : Bool :=
  s.vhc 0 ≤ fd && fd ≤ if s.vhcMax = 0 then s.vhcBefore else s.vhc (s.vhcMax - 1)

def step (s : PollTable) (e : Ready) : PollTable :=
  if s.crashed then s
  else if e.ifd < TCMD_CLIENT_MAX then
    let fd := s.pfds e.ifd
    let s := s.use e.ifd
    if s.isPts fd then s.tcmdPtsHandler fd e
    else if fd = fdTerminal then s.saveData e.segments
    else if fd = s.fdListen then s.tcmdListenHandler e
    else if fd = s.fdInotify then s
    else s.tcmdClientHandler fd e
  else s

/-! ## The start -/

/-- What a start finds: the descriptors that the process has inherited, `n` options `-p`, what
stands before `vhc`, whether there is an observer, and which of the calls before the loop work. -/
structure Boot where
  inherited : List Bool
  n : ℕ
  before : ℤ
  observer : Bool
  inotify : Bool
  segment : Bool
  socket : Bool
  listens : Bool

def inotifyInit (b : Boot) : PollTable :=
  let table := b.inherited.map fun used => if used then some Peer.other else none
  { crashed := false
    fdTable := if b.inotify then alloc table .inotify else table
    pfds := fun _ => 0
    vhc := fun _ => 0
    vhcMax := b.n
    vhcBefore := b.before
    fdInotify := if b.inotify then lowestFree table else -1
    fdOut := 0
    fdListen := 0
    used := []
    ptsUses := [] }

/-- The tables with the entry of `fd_inotify` when there is an observer. -/
def init (b : Boot) : PollTable :=
  let s := inotifyInit b
  if b.observer && b.inotify then s.pfdSet s.fdInotify else s

/-- `create_pts` for the first `i` ptys. -/
def createAll (s : PollTable) : ℕ → PollTable
  | 0 => s
  | i + 1 => (createAll s i).createPts i true

/-- `init_net_ipc`; a socket that cannot be bound stays open. -/
def initNetIpc (s : PollTable) (socket listens : Bool) : PollTable :=
  if !socket then { s with fdListen := -1 }
  else if !listens then { s with fdTable := alloc s.fdTable .listen, fdListen := -1 }
  else
    let t := { s with fdTable := alloc s.fdTable .listen, fdListen := lowestFree s.fdTable }
    if 0 < t.fdListen then t.pfdSet t.fdListen else t

/-- What `main` has set up before its loop. -/
def start (b : Boot) : PollTable :=
  (((init b).createAll b.n).vhubOpenNew b.segment).initNetIpc b.socket b.listens

/-! ## What is asked for -/

/-- Every index is inside the arrays, and every index of a pty is that of the pty whose
descriptor it is for. -/
structure Sound (s : PollTable) : Prop where
  used : ∀ i ∈ s.used, 0 ≤ i ∧ i < TCMD_CLIENT_MAX
  ptsUses : ∀ u ∈ s.ptsUses, ∃ i : ℕ, u.index = i ∧ u.peer = some (.pty i)

/-- There is a pty, the ptys have consecutive descriptors, and these and that of the listening
socket are below `TCMD_CLIENT_MAX`. -/
structure Fits (s : PollTable) : Prop where
  pos : 0 < s.vhcMax
  consecutive : ∀ i < s.vhcMax, s.vhc i = s.vhc 0 + i
  ptys : s.vhc 0 + s.vhcMax ≤ TCMD_CLIENT_MAX
  listen : s.fdListen < TCMD_CLIENT_MAX

/-- A connection is accepted while a descriptor below `TCMD_CLIENT_MAX` is free, and descriptor
0, which is in every entry that has been cleared, is not read to its end. -/
structure Steady (s : PollTable) (e : Ready) : Prop where
  accepted : s.pfds e.ifd = s.fdListen → e.accepts → lowestFree s.fdTable < TCMD_CLIENT_MAX
  kept : s.pfds e.ifd = 0 → e.data

/-! ## The descriptors of the ptys -/

/-- The descriptors below `base` are in use, and the first `m` ptys have those from `base` on.
An entry that is set is that of its own descriptor, which is not the segment's and not below
`base` but for that of `fd_inotify`. `fd_out` is the segment's descriptor, or not above 0. -/
structure Ptys (base m : ℕ) (s : PollTable) : Prop where
  low : ∀ i < base, ∃ p, get s.fdTable i = some p
  vhc : ∀ i < m, s.vhc i = (base + i : ℕ)
  pty : ∀ i < m, get s.fdTable (base + i) = some (.pty i)
  below : base + m ≤ TCMD_CLIENT_MAX
  entries : ∀ i, s.pfds i = 0 ∨ s.pfds i = i ∧ (base ≤ i ∨ (i : ℤ) = s.fdInotify) ∧
    ∃ p, get s.fdTable i = some p ∧ p ≠ .segment
  out : s.fdOut ≤ 0 ∨ (base : ℤ) ≤ s.fdOut ∧ get s.fdTable s.fdOut.toNat = some .segment
  sound : s.Sound

/-- The same for all ptys, of which there is one. -/
structure Inv (base : ℕ) (s : PollTable) : Prop where
  pos : 0 < s.vhcMax
  ptys : Ptys base s.vhcMax s

theorem Sound.use {s : PollTable} (hs : s.Sound) {i : ℤ} (h0 : 0 ≤ i)
    (hlt : i < TCMD_CLIENT_MAX) : (s.use i).Sound := by
  refine ⟨?_, hs.ptsUses⟩
  rw [PollTable.use, List.forall_mem_append, List.forall_mem_singleton]
  exact ⟨hs.used, h0, hlt⟩

namespace Ptys

variable {base m : ℕ} {s : PollTable}

theorem use (hs : Ptys base m s) {i : ℤ} (h0 : 0 ≤ i) (hlt : i < TCMD_CLIENT_MAX) :
    Ptys base m (s.use i) :=
  ⟨hs.low, hs.vhc, hs.pty, hs.below, hs.entries, hs.out, hs.sound.use h0 hlt⟩

theorem base_le_lowestFree (hs : Ptys base m s) : base ≤ lowestFree s.fdTable := by
  by_contra hlt
  obtain ⟨p, hp⟩ := hs.low _ (Nat.not_le.mp hlt)
  rw [get_lowestFree] at hp
  cases hp

theorem alloc_other (hs : Ptys base m s) (p : Peer) :
    Ptys base m { s with fdTable := alloc s.fdTable p } := by
  refine ⟨fun i hi => ?_, hs.vhc, fun i hi => get_alloc_of_some (hs.pty i hi) p, hs.below,
    fun i => ?_, ?_, ⟨hs.sound.used, hs.sound.ptsUses⟩⟩
  · obtain ⟨q, hq⟩ := hs.low i hi
    exact ⟨q, get_alloc_of_some hq p⟩
  · refine (hs.entries i).imp_right ?_
    rintro ⟨hself, hbase, q, hq, hseg⟩
    exact ⟨hself, hbase, q, get_alloc_of_some hq p, hseg⟩
  · refine hs.out.imp_right ?_
    rintro ⟨hbase, hout⟩
    exact ⟨hbase, get_alloc_of_some hout p⟩

/-- The entry of a descriptor that is open on something else than the segment. -/
theorem pfdSet (hs : Ptys base m s) {fd : ℕ} {p : Peer} (hget : get s.fdTable fd = some p)
    (hp : p ≠ .segment) (hbase : base ≤ fd ∨ (fd : ℤ) = s.fdInotify)
    (hlt : fd < TCMD_CLIENT_MAX) : Ptys base m (s.pfdSet fd) := by
  have hneg : ¬ (fd : ℤ) < 0 := by omega
  refine ⟨hs.low, hs.vhc, hs.pty, hs.below, fun i => ?_, hs.out, ?_⟩
  · simp only [PollTable.pfdSet, PollTable.use, if_neg hneg, Int.toNat_natCast]
    by_cases hi : i = fd
    · rw [hi, Function.update_self]
      exact Or.inr ⟨rfl, hbase, p, hget, hp⟩
    · rw [Function.update_of_ne hi]
      exact hs.entries i
  · have hsound := hs.sound.use (Int.natCast_nonneg fd) (by exact_mod_cast hlt)
    exact ⟨hsound.used, hsound.ptsUses⟩

theorem pfdSet_alloc (hs : Ptys base m s) {p : Peer} (hp : p ≠ .segment)
    (hlt : lowestFree s.fdTable < TCMD_CLIENT_MAX) :
    Ptys base m
      ({ s with fdTable := alloc s.fdTable p }.pfdSet (lowestFree s.fdTable)) := by
  have hget := get_alloc s.fdTable p (lowestFree s.fdTable)
  rw [if_pos rfl] at hget
  exact (hs.alloc_other p).pfdSet hget hp (Or.inl hs.base_le_lowestFree) hlt

theorem closeOut (hs : Ptys base m s) :
    Ptys base m { s with
      fdTable := (if s.fdOut = 0 then s else s.close s.fdOut).fdTable, fdOut := -1 } := by
  have hkeep : ∀ {i p}, get s.fdTable i = some p → i < base ∨ p ≠ .segment →
      get (if s.fdOut = 0 then s else s.close s.fdOut).fdTable i = some p := by
    intro i p hi hp
    split_ifs with h0
    · exact hi
    · rw [close]
      split_ifs with hneg
      · exact hi
      · have hne : i ≠ s.fdOut.toNat := by
          rintro rfl
          rcases hs.out with hout | ⟨hbase, hout⟩
          · omega
          · rw [hi, Option.some.injEq] at hout
            rcases hp with hlow | hp
            · omega
            · exact hp hout
        simp only [get_free, if_neg hne, hi]
  refine ⟨fun i hi => ?_, hs.vhc, fun i hi => hkeep (hs.pty i hi) (Or.inr (by simp)), hs.below,
    fun i => ?_, Or.inl (by simp), ⟨hs.sound.used, hs.sound.ptsUses⟩⟩
  · obtain ⟨p, hp⟩ := hs.low i hi
    exact ⟨p, hkeep hp (Or.inl hi)⟩
  · refine (hs.entries i).imp_right ?_
    rintro ⟨hself, hbase, p, hp, hseg⟩
    exact ⟨hself, hbase, p, hkeep hp (Or.inr hseg), hseg⟩

theorem vhubOpenNew (hs : Ptys base m s) (ok : Bool) : Ptys base m (s.vhubOpenNew ok) := by
  have hclosed := hs.closeOut
  cases ok with
  | false => exact hclosed
  | true =>
      have hnew := hclosed.alloc_other .segment
      have hget := get_alloc (if s.fdOut = 0 then s else s.close s.fdOut).fdTable Peer.segment
        (lowestFree (if s.fdOut = 0 then s else s.close s.fdOut).fdTable)
      rw [if_pos rfl] at hget
      exact ⟨hnew.low, hs.vhc, hnew.pty, hs.below, hnew.entries,
        Or.inr ⟨Int.ofNat_le.mpr hclosed.base_le_lowestFree, hget⟩,
        ⟨hs.sound.used, hs.sound.ptsUses⟩⟩

theorem saveData (hs : Ptys base m s) (segments : List Bool) :
    Ptys base m (s.saveData segments) := by
  induction segments generalizing s with
  | nil => exact hs
  | cons ok segments ih => exact ih (hs.vhubOpenNew ok)

theorem createPts (hs : Ptys base m s) (hfree : lowestFree s.fdTable = base + m)
    (hlt : base + m < TCMD_CLIENT_MAX) : Ptys base (m + 1) (s.createPts m true) := by
  have hnew := hs.alloc_other (.pty m)
  have hget := get_alloc s.fdTable (Peer.pty m) (base + m)
  rw [hfree, if_pos rfl] at hget
  have hopen : Ptys base (m + 1) { s with
      fdTable := alloc s.fdTable (.pty m)
      vhc := Function.update s.vhc m (base + m : ℕ) } := by
    refine ⟨hnew.low, fun i hi => ?_, fun i hi => ?_, hlt, hnew.entries, hnew.out,
      ⟨hs.sound.used, hs.sound.ptsUses⟩⟩
    · change Function.update s.vhc m _ i = _
      by_cases him : i = m
      · rw [him, Function.update_self]
      · rw [Function.update_of_ne him, hs.vhc i (by omega)]
    · by_cases him : i = m
      · rw [him]
        exact hget
      · exact hnew.pty i (by omega)
  have hset := hopen.pfdSet hget (by simp) (Or.inl (Nat.le_add_right _ _)) hlt
  rw [← hfree] at hset
  exact hset

end Ptys

namespace Inv

variable {base : ℕ} {s : PollTable}

theorem isPts_iff (hs : Inv base s) (fd : ℤ) :
    s.isPts fd ↔ ∃ i < s.vhcMax, fd = (base + i : ℕ) := by
  have hpos := hs.pos
  rw [isPts, if_neg (by omega), hs.ptys.vhc 0 hpos, hs.ptys.vhc (s.vhcMax - 1) (by omega)]
  simp only [Bool.and_eq_true, decide_eq_true_eq]
  constructor
  · rintro ⟨hle, hge⟩
    exact ⟨(fd - base).toNat, by omega, by omega⟩
  · rintro ⟨i, hi, rfl⟩
    omega

theorem close_client (hs : Inv base s) {ifd : ℕ} (hifd : ifd < TCMD_CLIENT_MAX)
    (hpts : ¬ s.isPts (s.pfds ifd)) (hinotify : s.pfds ifd ≠ s.fdInotify)
    (hzero : s.pfds ifd ≠ 0) : Inv base ((s.close (s.pfds ifd)).pfdClr ifd) := by
  obtain ⟨hself, hbase, p, hp, hseg⟩ := (hs.ptys.entries ifd).resolve_left hzero
  have hle : base ≤ ifd := hbase.resolve_right fun h => hinotify (hself.trans h)
  have hget : ∀ i, get ((s.close (s.pfds ifd)).pfdClr ifd).fdTable i =
      if i = ifd then none else get s.fdTable i := by
    intro i
    have hneg : ¬ (ifd : ℤ) < 0 := by omega
    simp only [PollTable.pfdClr, PollTable.use, PollTable.close, hself, if_neg hneg, get_free,
      Int.toNat_natCast]
  refine ⟨hs.pos, fun i hi => ?_, hs.ptys.vhc, fun i hi => ?_, hs.ptys.below, fun i => ?_, ?_, ?_⟩
  · rw [hget, if_neg (by omega)]
    exact hs.ptys.low i hi
  · have hne : base + i ≠ ifd := by
      rintro rfl
      exact hpts ((hs.isPts_iff _).mpr ⟨i, hi, hself⟩)
    rw [hget, if_neg hne]
    exact hs.ptys.pty i hi
  · change Function.update s.pfds ifd 0 i = 0 ∨ Function.update s.pfds ifd 0 i = i ∧ _
    by_cases hi : i = ifd
    · left
      rw [hi, Function.update_self]
    · rw [Function.update_of_ne hi, hget, if_neg hi]
      exact hs.ptys.entries i
  · refine hs.ptys.out.imp_right ?_
    rintro ⟨hge, hout⟩
    have hne : s.fdOut.toNat ≠ ifd := by
      intro heq
      rw [heq, hp, Option.some.injEq] at hout
      exact hseg hout
    refine ⟨hge, ?_⟩
    change get ((s.close (s.pfds ifd)).pfdClr ifd).fdTable s.fdOut.toNat = _
    rw [hget, if_neg hne]
    exact hout
  · have hsound := hs.ptys.sound.use (Int.natCast_nonneg ifd) (by exact_mod_cast hifd)
    exact ⟨hsound.used, hsound.ptsUses⟩

/-- All descriptors below a pty's are in use, so that it gets its own one back. -/
theorem lowestFree_free (hs : Inv base s) {i : ℕ} (hi : i < s.vhcMax) :
    lowestFree (free s.fdTable (base + i)) = base + i := by
  apply Nat.le_antisymm
  · apply lowestFree_le_of_get
    rw [get_free, if_pos rfl]
  · by_contra hlt
    have hnone := get_lowestFree (free s.fdTable (base + i))
    generalize lowestFree (free s.fdTable (base + i)) = f at hlt hnone
    rw [get_free, if_neg (by omega)] at hnone
    rcases Nat.lt_or_ge f base with hlow | hge
    · obtain ⟨p, hp⟩ := hs.ptys.low f hlow
      rw [hp] at hnone
      cases hnone
    · obtain ⟨j, rfl⟩ := Nat.exists_eq_add_of_le hge
      rw [hs.ptys.pty j (by omega)] at hnone
      cases hnone

theorem reopen (hs : Inv base s) {ifd i : ℕ} (hifd : ifd < TCMD_CLIENT_MAX)
    (hi : i < s.vhcMax) (hfd : s.pfds ifd = (base + i : ℕ)) (hzero : s.pfds ifd ≠ 0) :
    Inv base (((s.close (base + i : ℕ)).pfdClr ifd).createPts i true) := by
  have hf := hs.lowestFree_free hi
  obtain ⟨hself, -⟩ := (hs.ptys.entries ifd).resolve_left hzero
  obtain rfl : ifd = base + i := by omega
  have hneg : ¬ ((base + i : ℕ) : ℤ) < 0 := by omega
  have hget : ∀ x, get (alloc (free s.fdTable (base + i)) (Peer.pty i)) x =
      get s.fdTable x := by
    intro x
    rw [get_alloc, hf, get_free]
    split_ifs with hx
    · rw [hx, hs.ptys.pty i hi]
    · rfl
  have hpfds : Function.update (Function.update s.pfds (base + i) 0) (base + i)
      ((base + i : ℕ) : ℤ) = s.pfds := by
    rw [Function.update_idem, ← hfd, Function.update_eq_self]
  have hvhc : Function.update s.vhc i ((base + i : ℕ) : ℤ) = s.vhc := by
    rw [← hs.ptys.vhc i hi, Function.update_eq_self]
  have heq : ((s.close (base + i : ℕ)).pfdClr (base + i)).createPts i true =
      { s with
        fdTable := alloc (free s.fdTable (base + i)) (.pty i)
        used := s.used ++ [((base + i : ℕ) : ℤ)] ++ [((base + i : ℕ) : ℤ)] } := by
    simp only [PollTable.createPts, PollTable.pfdSet, PollTable.pfdClr, PollTable.use,
      PollTable.close, if_neg hneg, Int.toNat_natCast, hf, if_true, hpfds, hvhc]
  have hsound := (hs.ptys.sound.use (Int.natCast_nonneg (base + i)) (by exact_mod_cast hifd)).use
    (Int.natCast_nonneg (base + i)) (by exact_mod_cast hifd)
  rw [heq]
  refine ⟨hs.pos, fun x hx => ?_, hs.ptys.vhc, fun x hx => ?_, hs.ptys.below, fun x => ?_, ?_,
    ⟨hsound.used, hsound.ptsUses⟩⟩
  · rw [hget]
    exact hs.ptys.low x hx
  · rw [hget]
    exact hs.ptys.pty x hx
  · rw [hget]
    exact hs.ptys.entries x
  · rw [hget]
    exact hs.ptys.out

/-- A pty that cannot be opened again ends the program with its descriptor closed: what has been
used is what the invariant bounds. -/
theorem sound_close (hs : Inv base s) {ifd : ℕ} (hifd : ifd < TCMD_CLIENT_MAX) (fd : ℤ)
    (i : ℕ) : (((s.close fd).pfdClr ifd).createPts i false).Sound :=
  have hsound := hs.ptys.sound.use (Int.natCast_nonneg ifd) (by exact_mod_cast hifd)
  ⟨hsound.used, hsound.ptsUses⟩

theorem use (hs : Inv base s) {ifd : ℕ} (hifd : ifd < TCMD_CLIENT_MAX) : Inv base (s.use ifd) :=
  ⟨hs.pos, hs.ptys.use (Int.natCast_nonneg ifd) (by exact_mod_cast hifd)⟩

theorem ptsUse (hs : Inv base s) {i : ℕ} (hi : i < s.vhcMax) :
    Inv base { s with
      ptsUses := s.ptsUses ++
        [PtsUse.mk ((base + i : ℕ) - s.vhc 0) (get s.fdTable (base + i))] } := by
  refine ⟨hs.pos, hs.ptys.low, hs.ptys.vhc, hs.ptys.pty, hs.ptys.below, hs.ptys.entries,
    hs.ptys.out, hs.ptys.sound.used, ?_⟩
  rw [List.forall_mem_append, List.forall_mem_singleton]
  refine ⟨hs.ptys.sound.ptsUses, i, ?_, hs.ptys.pty i hi⟩
  change ((base + i : ℕ) : ℤ) - s.vhc 0 = i
  rw [hs.ptys.vhc 0 hs.pos]
  omega

theorem vhcMax_saveData (s : PollTable) (segments : List Bool) :
    (s.saveData segments).vhcMax = s.vhcMax := by
  induction segments generalizing s with
  | nil => rfl
  | cons ok segments ih => exact ih (s.vhubOpenNew ok)

theorem saveData (hs : Inv base s) (segments : List Bool) : Inv base (s.saveData segments) := by
  have hmax := vhcMax_saveData s segments
  refine ⟨by rw [hmax]; exact hs.pos, ?_⟩
  rw [hmax]
  exact hs.ptys.saveData segments

end Inv

/-- The invariant, or the end of a program in which it held. -/
def Kept (base : ℕ) (s : PollTable) : Prop := Inv base s ∨ s.crashed ∧ s.Sound

namespace Inv

variable {base : ℕ} {s : PollTable}

theorem tcmdPtsHandler (hs : Inv base s) {e : Ready} (hifd : e.ifd < TCMD_CLIENT_MAX) {i : ℕ}
    (hi : i < s.vhcMax) (hfd : s.pfds e.ifd = (base + i : ℕ))
    (hzero : ¬ e.data → s.pfds e.ifd ≠ 0) : Kept base (s.tcmdPtsHandler (base + i : ℕ) e) := by
  have huse := hs.ptsUse hi
  rw [PollTable.tcmdPtsHandler]
  split_ifs with hdata
  · exact Or.inl (huse.saveData e.segments)
  · have hindex : (((base + i : ℕ) : ℤ) - s.vhc 0).toNat = i := by
      rw [hs.ptys.vhc 0 hs.pos]
      omega
    rw [hindex]
    cases hopens : e.opens with
    | true => exact Or.inl (huse.reopen hifd hi hfd (hzero hdata))
    | false => exact Or.inr ⟨rfl, huse.sound_close hifd _ i⟩

theorem step (hs : Inv base s) {e : Ready} (he : s.Steady e) : Kept base (s.step e) := by
  rw [PollTable.step]
  by_cases hcrashed : s.crashed
  case pos =>
    rw [if_pos hcrashed]
    exact Or.inl hs
  by_cases hifd : e.ifd < TCMD_CLIENT_MAX
  case neg =>
    rw [if_neg hcrashed, if_neg hifd]
    exact Or.inl hs
  have hused : Inv base (s.use e.ifd) := hs.use hifd
  have hzero : ¬ e.data → s.pfds e.ifd ≠ 0 := mt he.kept
  rw [if_neg hcrashed, if_pos hifd]
  dsimp only
  split_ifs with hpts hterminal hlisten hinotify
  · obtain ⟨i, hi, hfd⟩ := (hused.isPts_iff _).mp hpts
    rw [hfd]
    exact hused.tcmdPtsHandler hifd hi hfd hzero
  · exact Or.inl (hused.saveData e.segments)
  · rw [PollTable.tcmdListenHandler]
    split_ifs with haccepts
    · exact Or.inl ⟨hs.pos, hused.ptys.pfdSet_alloc (by simp) (he.accepted hlisten haccepts)⟩
    · exact Or.inl hused
  · exact Or.inl hused
  · rw [PollTable.tcmdClientHandler]
    split_ifs with hdata
    · exact Or.inl (hused.saveData e.segments)
    · exact Or.inl ((hused.use hifd).close_client hifd hpts hinotify (hzero hdata))

end Inv

namespace Kept

variable {base : ℕ} {s : PollTable}

theorem sound (h : Kept base s) : s.Sound := h.elim (fun hs => hs.ptys.sound) And.right

theorem step (h : Kept base s) {e : Ready} (he : s.Steady e) : Kept base (s.step e) := by
  rcases h with hs | ⟨hcrashed, hsound⟩
  · exact hs.step he
  · rw [PollTable.step, if_pos hcrashed]
    exact Or.inr ⟨hcrashed, hsound⟩

end Kept

/-! ## Runs -/

theorem ptys_inotifyInit {b : Boot}
    (hlt : lowestFree (inotifyInit b).fdTable ≤ TCMD_CLIENT_MAX) :
    Ptys (lowestFree (inotifyInit b).fdTable) 0 (inotifyInit b) where
  low i hi := by
    refine Option.ne_none_iff_exists'.mp fun hnone => ?_
    exact absurd (lowestFree_le_of_get hnone) (Nat.not_le.mpr hi)
  vhc i hi := absurd hi (Nat.not_lt_zero i)
  pty i hi := absurd hi (Nat.not_lt_zero i)
  below := hlt
  entries _ := Or.inl rfl
  out := Or.inl (Int.le_refl 0)
  sound := ⟨by simp [inotifyInit], by simp [inotifyInit]⟩

theorem fdTable_init (b : Boot) : (init b).fdTable = (inotifyInit b).fdTable := by
  rw [init]
  split_ifs <;> rfl

theorem vhcMax_init (b : Boot) : (init b).vhcMax = b.n := by
  rw [init]
  split_ifs <;> rfl

theorem ptys_init {b : Boot} (hlt : lowestFree (init b).fdTable ≤ TCMD_CLIENT_MAX) :
    Ptys (lowestFree (init b).fdTable) 0 (init b) := by
  rw [fdTable_init] at hlt ⊢
  have hbare := ptys_inotifyInit hlt
  rw [init]
  split_ifs with hset
  · obtain ⟨-, hinotify⟩ := Bool.and_eq_true_iff.mp hset
    obtain ⟨table, htable, hfd⟩ : ∃ table, (inotifyInit b).fdTable = alloc table .inotify ∧
        (inotifyInit b).fdInotify = lowestFree table :=
      ⟨_, if_pos hinotify, if_pos hinotify⟩
    have hget := get_alloc table Peer.inotify (lowestFree table)
    rw [if_pos rfl, ← htable] at hget
    have hbelow : lowestFree table < lowestFree (inotifyInit b).fdTable := by
      by_contra hle
      have hnone := get_lowestFree (inotifyInit b).fdTable
      rcases Nat.lt_or_eq_of_le (Nat.not_lt.mp hle) with h | h
      · rw [htable, get_alloc, if_neg (by rw [← htable]; omega), ← htable] at hnone
        exact absurd (lowestFree_le_of_get hnone) (by omega)
      · rw [h, hget] at hnone
        cases hnone
    have hpfd := hbare.pfdSet hget (by simp) (Or.inr hfd.symm) (by omega)
    rw [← hfd] at hpfd
    exact hpfd
  · exact hbare

theorem vhc_createAll (s : PollTable) {i j : ℕ} (hij : i < j) :
    (s.createAll j).vhc i = lowestFree (s.createAll i).fdTable := by
  induction j with
  | zero => exact absurd hij (Nat.not_lt_zero i)
  | succ j ih =>
      change Function.update (s.createAll j).vhc j _ i = _
      rcases Nat.lt_or_eq_of_le (Nat.le_of_lt_succ hij) with hlt | rfl
      · rw [Function.update_of_ne (Nat.ne_of_lt hlt), ih hlt]
      · rw [Function.update_self]

theorem ptys_createAll {s : PollTable} {base n : ℕ} (hs : Ptys base 0 s)
    (hfree : ∀ i < n, lowestFree (s.createAll i).fdTable = base + i)
    (hlt : base + n ≤ TCMD_CLIENT_MAX) {i : ℕ} (hi : i ≤ n) : Ptys base i (s.createAll i) := by
  induction i with
  | zero => exact hs
  | succ i ih => exact (ih (by omega)).createPts (hfree i (by omega)) (by omega)

theorem vhcMax_createAll (s : PollTable) (i : ℕ) : (s.createAll i).vhcMax = s.vhcMax := by
  induction i with
  | zero => rfl
  | succ i ih => exact ih

theorem initNetIpc_keeps (s : PollTable) (socket listens : Bool) :
    (s.initNetIpc socket listens).vhc = s.vhc ∧
      (s.initNetIpc socket listens).vhcMax = s.vhcMax := by
  rw [initNetIpc]
  dsimp only
  split_ifs <;> exact ⟨rfl, rfl⟩

theorem Ptys.initNetIpc {base m : ℕ} {s : PollTable} (hs : Ptys base m s) {socket listens : Bool}
    (hlt : (s.initNetIpc socket listens).fdListen < TCMD_CLIENT_MAX) :
    Ptys base m (s.initNetIpc socket listens) := by
  have hlisten : ∀ {t : PollTable} (fd : ℤ), Ptys base m t →
      Ptys base m { t with fdListen := fd } := fun fd ht =>
    ⟨ht.low, ht.vhc, ht.pty, ht.below, ht.entries, ht.out, ht.sound.used, ht.sound.ptsUses⟩
  rw [PollTable.initNetIpc] at hlt ⊢
  dsimp only at hlt ⊢
  split_ifs at hlt ⊢
  · exact hlisten _ hs
  · exact hlisten _ (hs.alloc_other .listen)
  · exact (hlisten (lowestFree s.fdTable) hs).pfdSet_alloc (by simp) (Int.ofNat_lt.mp hlt)
  · exact hlisten _ (hs.alloc_other .listen)

theorem inv_start {b : Boot} (h : (start b).Fits) :
    Inv (lowestFree (init b).fdTable) (start b) := by
  obtain ⟨hvhc, hmax⟩ := initNetIpc_keeps (((init b).createAll b.n).vhubOpenNew b.segment)
    b.socket b.listens
  replace hmax : (start b).vhcMax = b.n :=
    hmax.trans ((vhcMax_createAll _ _).trans (vhcMax_init b))
  have hpos : 0 < b.n := hmax ▸ h.pos
  have hentry : ∀ i < b.n, (start b).vhc i = lowestFree ((init b).createAll i).fdTable := by
    intro i hi
    rw [start, hvhc]
    exact vhc_createAll (init b) hi
  have hfirst : (start b).vhc 0 = lowestFree (init b).fdTable := hentry 0 hpos
  have hptys := h.ptys
  rw [hfirst, hmax] at hptys
  have hfree : ∀ i < b.n,
      lowestFree ((init b).createAll i).fdTable = lowestFree (init b).fdTable + i := by
    intro i hi
    have hnext := h.consecutive i (by omega)
    rw [hentry i hi, hfirst] at hnext
    omega
  have hcreated := ptys_createAll (ptys_init (by omega)) hfree (by omega) (Nat.le_refl b.n)
  refine ⟨h.pos, ?_⟩
  rw [hmax]
  exact (hcreated.vhubOpenNew b.segment).initNetIpc h.listen

end PollTable

/-- In every run from a start with ptys on consecutive descriptors, these and that of the
listening socket below `TCMD_CLIENT_MAX`, in which connections are accepted while a descriptor
below `TCMD_CLIENT_MAX` is free and descriptor 0 stays, every index is sound. -/
theorem pollTable_sound {b : PollTable.Boot} (h : (PollTable.start b).Fits) {es : List Ready}
    (hes : Meets PollTable.step PollTable.Steady (.start b) es) :
    ∀ fs, fs <+: es → (run PollTable.step (.start b) fs).Sound := by
  intro fs hfs
  have hstep : ∀ s e, PollTable.Steady s e →
      s.Kept (lowestFree (PollTable.init b).fdTable) →
      (s.step e).Kept (lowestFree (PollTable.init b).fdTable) := fun s e he hs => hs.step he
  exact (Run.invariant_prefix hstep hfs hes (Or.inl (PollTable.inv_start h))).sound

/-- The descriptors 0 to 2, inotify on 3, `n` ptys from 4 on, the segment and the listening
socket. -/
def PollTable.Boot.usual (n : ℕ) : PollTable.Boot :=
  ⟨[true, true, true], n, 0, true, true, true, true, true⟩

theorem fits_usual : (PollTable.start (.usual 2)).Fits :=
  ⟨by decide, by decide, by decide, by decide⟩

def hangUps : List Ready :=
  [⟨7, true, true, true, []⟩, ⟨5, false, true, true, []⟩, ⟨4, false, true, true, []⟩,
    ⟨8, false, true, true, []⟩]

theorem pollTable_sound_hangUps : (run PollTable.step (.start (.usual 2)) hangUps).Sound := by
  have hsteady : Meets PollTable.step PollTable.Steady (.start (.usual 2)) hangUps := by
    refine ⟨?_, ?_, ?_, ?_, trivial⟩ <;> exact ⟨by decide, by decide⟩
  exact pollTable_sound fits_usual hsteady hangUps List.prefix_rfl

theorem not_pollTable_sound_clients :
    ¬ ∀ (b : PollTable.Boot) (es : List Ready),
      (run PollTable.step (.start b) es).Sound := by
  intro h
  have hused := (h (.usual 2) (List.replicate 9 ⟨7, true, true, true, []⟩)).used 16 (by decide)
  exact absurd hused (by decide)

end Vhub

end Tarako
