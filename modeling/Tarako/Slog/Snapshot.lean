import Mathlib.Algebra.Order.Ring.Int
import Tarako.Slog.ParseConf

/-!
# The snapshot thread

`snapshot_log_handler` passes over the entries, records those whose interval is over, and
sleeps until the next one is due. The time that has passed for an entry is kept in its
`state`, which `calloc` has left 0. An entry never oversleeps, so that it is recorded at the
multiples of its interval: `snapshot_punctual`.
-/

namespace Tarako

namespace Slog

/-- An entry, what its `state` holds, and when `record_snap` was called for it. -/
structure Snap where
  info : SlogInfo
  state : ℤ
  recorded : List ℤ

namespace Snap

def start (info : SlogInfo) : Snap := ⟨info, 0, []⟩

/-- The turn of an entry in the pass at time `now`: the entry behind it, and `tmp`. -/
def turn (sleepSecs now : ℤ) (s : Snap) : Snap × ℤ :=
  let state := s.state + sleepSecs
  let s := if state ≥ s.info.interval then
    { s with state := 0, recorded := s.recorded ++ [now] } else { s with state := state }
  (s, s.info.interval - s.state)

end Snap

/-- A pass over the entries: the entries behind it, and `next_sleep_secs`. An entry that is
above the level of `misc_log`, or has no interval, is left out. -/
def passFrom (level sleepSecs now : ℤ) : ℤ → List Snap → List Snap × ℤ
  | nextSleepSecs, [] => ([], nextSleepSecs)
  | nextSleepSecs, s :: entries =>
      if s.info.level > level ∨ s.info.interval = 0 then
        let r := passFrom level sleepSecs now nextSleepSecs entries
        (s :: r.1, r.2)
      else
        let (s, tmp) := s.turn sleepSecs now
        let nextSleepSecs := if tmp < nextSleepSecs ∨ nextSleepSecs = 0 then tmp
          else nextSleepSecs
        let r := passFrom level sleepSecs now nextSleepSecs entries
        (s :: r.1, r.2)

structure Sched where
  entries : List Snap
  sleepSecs : ℤ
  now : ℤ

namespace Sched

def start (infos : List SlogInfo) : Sched := ⟨infos.map Snap.start, 0, 0⟩

def pass (level : ℤ) (s : Sched) : Sched :=
  let now := s.now + s.sleepSecs
  let r := passFrom level s.sleepSecs now 0 s.entries
  ⟨r.1, r.2, now⟩

/-- `n` passes; the loop ends when there is nothing to sleep for. -/
def passes (level : ℤ) : ℕ → Sched → Sched
  | 0, s => s
  | n + 1, s =>
      let s := s.pass level
      if s.sleepSecs = 0 then s else passes level n s

end Sched

/-! ## What a pass keeps -/

/-- At time `now` an entry has been recorded at the multiples of its interval, and its
`state` is the time since the last one. -/
structure Snap.Punctual (level now : ℤ) (s : Snap) : Prop where
  state_eq : s.info.level ≤ level → s.state = now % s.info.interval
  sorted : s.recorded.Pairwise (· < ·)
  mem_iff : ∀ t, t ∈ s.recorded ↔
    s.info.level ≤ level ∧ 0 < t ∧ t ≤ now ∧ s.info.interval ∣ t

/-- The sleep that comes next is not too long for any entry. -/
structure Sched.Inv (level : ℤ) (s : Sched) : Prop where
  now_nonneg : 0 ≤ s.now
  sleep_nonneg : 0 ≤ s.sleepSecs
  punctual : ∀ e ∈ s.entries, e.Punctual level s.now
  sleep_le : ∀ e ∈ s.entries, e.info.level ≤ level → e.state + s.sleepSecs ≤ e.info.interval

/-- Between two times that are less than an interval apart there is one multiple at most. -/
theorem dvd_iff_of_le {k now sleep t : ℤ} (hk : 0 < k) (hsleep : now % k + sleep ≤ k)
    (hlt : now < t) (hle : t ≤ now + sleep) :
    k ∣ t ↔ t = now + sleep ∧ now % k + sleep = k := by
  have hnonneg := Int.emod_nonneg now (Int.ne_of_gt hk)
  have hmod : t % k = (now % k + (t - now)) % k := by
    rw [Int.emod_add_emod, add_sub_cancel]
  rw [Int.dvd_iff_emod_eq_zero, hmod]
  constructor
  · intro hzero
    by_contra hne
    rw [Int.emod_eq_of_lt (by omega) (by omega)] at hzero
    omega
  · rintro ⟨rfl, heq⟩
    rw [add_sub_cancel_left, heq, Int.emod_self]

namespace Snap

variable {level now sleep : ℤ} {s : Snap}

theorem turn_of_le (h : s.info.interval ≤ s.state + sleep) : s.turn sleep now =
    ({ s with state := 0, recorded := s.recorded ++ [now] }, s.info.interval - 0) := by
  unfold Snap.turn
  simp only [if_pos h]

theorem turn_of_lt (h : s.state + sleep < s.info.interval) : s.turn sleep now =
    ({ s with state := s.state + sleep }, s.info.interval - (s.state + sleep)) := by
  unfold Snap.turn
  simp only [if_neg (Int.not_le.mpr h)]

theorem Punctual.record (h : s.Punctual level now) (hpos : 0 < s.info.interval)
    (hlevel : s.info.level ≤ level) (hnow : 0 ≤ now)
    (hdue : now % s.info.interval + sleep = s.info.interval) :
    Snap.Punctual level (now + sleep)
      { s with state := 0, recorded := s.recorded ++ [now + sleep] } := by
  have hlt := Int.emod_lt_of_pos now hpos
  have hlater : now < now + sleep := by omega
  refine ⟨fun _ => ?_, ?_, fun t => ?_⟩
  · change 0 = (now + sleep) % s.info.interval
    rw [← Int.emod_add_emod, hdue, Int.emod_self]
  · refine List.pairwise_append.mpr ⟨h.sorted, List.pairwise_singleton _ _, ?_⟩
    intro t ht t' ht'
    obtain ⟨-, -, hbefore, -⟩ := (h.mem_iff t).mp ht
    rw [List.mem_singleton.mp ht']
    omega
  · change t ∈ s.recorded ++ [now + sleep] ↔ s.info.level ≤ level ∧ _
    have hnew := fun t => @dvd_iff_of_le _ now sleep t hpos (Int.le_of_eq hdue)
    rw [List.mem_append, List.mem_singleton, h.mem_iff]
    constructor
    · rintro (⟨-, ht, hbefore, hdvd⟩ | rfl)
      · exact ⟨hlevel, ht, by omega, hdvd⟩
      · exact ⟨hlevel, by omega, Int.le_refl _, (hnew _ hlater (Int.le_refl _)).mpr ⟨rfl, hdue⟩⟩
    · rintro ⟨-, ht, hbefore, hdvd⟩
      by_cases hold : t ≤ now
      · exact Or.inl ⟨hlevel, ht, hold, hdvd⟩
      · exact Or.inr ((hnew t (Int.not_le.mp hold) hbefore).mp hdvd).1

theorem Punctual.wait (h : s.Punctual level now) (hpos : 0 < s.info.interval)
    (hlevel : s.info.level ≤ level) (hsleep : 0 ≤ sleep)
    (hwait : now % s.info.interval + sleep < s.info.interval) :
    Snap.Punctual level (now + sleep) { s with state := now % s.info.interval + sleep } := by
  have hnonneg := Int.emod_nonneg now (Int.ne_of_gt hpos)
  refine ⟨fun _ => ?_, h.sorted, fun t => ?_⟩
  · change now % s.info.interval + sleep = (now + sleep) % s.info.interval
    rw [← Int.emod_add_emod]
    exact (Int.emod_eq_of_lt (by omega) hwait).symm
  · change t ∈ s.recorded ↔ s.info.level ≤ level ∧ _
    rw [h.mem_iff]
    constructor
    · rintro ⟨-, ht, hbefore, hdvd⟩
      exact ⟨hlevel, ht, by omega, hdvd⟩
    · rintro ⟨-, ht, hbefore, hdvd⟩
      by_cases hold : t ≤ now
      · exact ⟨hlevel, ht, hold, hdvd⟩
      · have hnew := dvd_iff_of_le hpos (Int.le_of_lt hwait) (Int.not_le.mp hold) hbefore
        have heq := (hnew.mp hdvd).2
        omega

theorem Punctual.turn (h : s.Punctual level now)
    (hpos : 0 < s.info.interval) (hlevel : s.info.level ≤ level) (hnow : 0 ≤ now)
    (hsleep : 0 ≤ sleep) (hle : s.state + sleep ≤ s.info.interval) :
    (s.turn sleep (now + sleep)).1.Punctual level (now + sleep) ∧
      (s.turn sleep (now + sleep)).1.info = s.info ∧
      (s.turn sleep (now + sleep)).2 = s.info.interval - (s.turn sleep (now + sleep)).1.state ∧
      1 ≤ (s.turn sleep (now + sleep)).2 := by
  have hstate := h.state_eq hlevel
  rcases Int.lt_or_le (s.state + sleep) s.info.interval with hwait | hdue
  · rw [turn_of_lt hwait]
    refine ⟨?_, rfl, rfl, ?_⟩
    · rw [hstate] at hwait ⊢
      exact h.wait hpos hlevel hsleep hwait
    · change 1 ≤ s.info.interval - (s.state + sleep)
      omega
  · rw [turn_of_le hdue]
    refine ⟨?_, rfl, rfl, ?_⟩
    · rw [hstate] at hle hdue
      exact h.record hpos hlevel hnow (Int.le_antisymm hle hdue)
    · change 1 ≤ s.info.interval - 0
      omega

theorem Punctual.skip {now' : ℤ} (h : s.Punctual level now)
    (hlevel : level < s.info.level) : s.Punctual level now' := by
  have hno : ¬ s.info.level ≤ level := Int.not_le.mpr hlevel
  refine ⟨fun hle => absurd hle hno, h.sorted, fun t => ?_⟩
  rw [h.mem_iff]
  simp [hno]

end Snap

/-- The pass at time `now + sleep`: every entry is punctual then, and what is slept next is
at least a second and not too long for any of them. -/
theorem passFrom_spec {level now sleep : ℤ} (hnow : 0 ≤ now) (hsleep : 0 ≤ sleep)
    {entries : List Snap} (hpos : ∀ e ∈ entries, 0 < e.info.interval)
    (hpunctual : ∀ e ∈ entries, e.Punctual level now)
    (hle : ∀ e ∈ entries, e.info.level ≤ level → e.state + sleep ≤ e.info.interval)
    {next : ℤ} (hnext : 0 ≤ next) :
    let r := passFrom level sleep (now + sleep) next entries
    r.1.map Snap.info = entries.map Snap.info ∧
      (∀ e ∈ r.1, e.Punctual level (now + sleep)) ∧
      (∀ e ∈ r.1, e.info.level ≤ level → 1 ≤ r.2 ∧ e.state + r.2 ≤ e.info.interval) ∧
      0 ≤ r.2 ∧ (next ≠ 0 → 1 ≤ r.2 ∧ r.2 ≤ next) := by
  induction entries generalizing next with
  | nil =>
      refine ⟨rfl, List.forall_mem_nil _, List.forall_mem_nil _, hnext, fun hne => ?_⟩
      have hone : 1 ≤ next := by omega
      exact ⟨hone, Int.le_refl _⟩
  | cons s entries ih =>
      obtain ⟨hpos₁, hpos⟩ := List.forall_mem_cons.mp hpos
      obtain ⟨hpunctual₁, hpunctual⟩ := List.forall_mem_cons.mp hpunctual
      obtain ⟨hle₁, hle⟩ := List.forall_mem_cons.mp hle
      rw [passFrom]
      by_cases hskip : s.info.level > level ∨ s.info.interval = 0
      · have habove : level < s.info.level := by omega
        obtain ⟨hinfo, hpunct, hbound, hnonneg, hmin⟩ := ih hpos hpunctual hle hnext
        simp only [if_pos hskip]
        refine ⟨?_, List.forall_mem_cons.mpr ⟨hpunctual₁.skip habove, hpunct⟩,
          List.forall_mem_cons.mpr ⟨fun hlevel => absurd hlevel (by omega), hbound⟩,
          hnonneg, hmin⟩
        rw [List.map_cons, List.map_cons, hinfo]
      · have hlevel : s.info.level ≤ level := by omega
        obtain ⟨hpunct₁, hinfo₁, htmp, hone⟩ :=
          hpunctual₁.turn hpos₁ hlevel hnow hsleep (hle₁ hlevel)
        simp only [if_neg hskip]
        generalize s.turn sleep (now + sleep) = turned at *
        -- what is slept at most when this entry has had its turn
        have hmin : ∃ next', next' = (if turned.2 < next ∨ next = 0 then turned.2 else next) ∧
            1 ≤ next' ∧ next' ≤ turned.2 ∧ (next ≠ 0 → next' ≤ next) := by
          refine ⟨_, rfl, ?_⟩
          split_ifs <;> omega
        obtain ⟨next', hnext', hpos', hle', hold⟩ := hmin
        rw [← hnext']
        obtain ⟨hinfo, hpunct, hbound, hnonneg, hmin⟩ :=
          ih hpos hpunctual hle (Int.le_of_lt hpos')
        obtain ⟨hone', hleast⟩ := hmin (by omega)
        refine ⟨?_, List.forall_mem_cons.mpr ⟨hpunct₁, hpunct⟩,
          List.forall_mem_cons.mpr ⟨fun _ => ⟨hone', ?_⟩, hbound⟩, hnonneg, fun hne => ?_⟩
        · rw [List.map_cons, List.map_cons, hinfo, hinfo₁]
        · rw [hinfo₁]
          omega
        · exact ⟨hone', hleast.trans (hold hne)⟩

namespace Sched

variable {level : ℤ}

theorem Inv.pass {s : Sched} (h : s.Inv level) (hpos : ∀ e ∈ s.entries, 0 < e.info.interval) :
    (s.pass level).Inv level ∧
      (s.pass level).entries.map Snap.info = s.entries.map Snap.info ∧
      ∀ e ∈ (s.pass level).entries, e.info.level ≤ level → 1 ≤ (s.pass level).sleepSecs := by
  obtain ⟨hinfo, hpunct, hbound, hnonneg, -⟩ :=
    passFrom_spec h.now_nonneg h.sleep_nonneg hpos h.punctual h.sleep_le (Int.le_refl 0)
  refine ⟨⟨Int.add_nonneg h.now_nonneg h.sleep_nonneg, hnonneg, hpunct, ?_⟩, hinfo, ?_⟩
  · exact fun e he hlevel => (hbound e he hlevel).2
  · exact fun e he hlevel => (hbound e he hlevel).1

theorem inv_start {infos : List SlogInfo} (hpos : ∀ info ∈ infos, 0 < info.interval) :
    (start infos).Inv level := by
  refine ⟨Int.le_refl 0, Int.le_refl 0, fun e he => ?_, fun e he _ => ?_⟩
  · obtain ⟨info, -, rfl⟩ := List.mem_map.mp he
    refine ⟨fun _ => (Int.zero_emod _).symm, List.Pairwise.nil, fun t => ?_⟩
    constructor
    · exact fun hmem => absurd hmem List.not_mem_nil
    · rintro ⟨-, hlt, hle, -⟩
      exact absurd hlt (Int.not_lt.mpr hle)
  · obtain ⟨info, hinfo, rfl⟩ := List.mem_map.mp he
    exact Int.le_of_lt (hpos info hinfo)

theorem Inv.passes {s : Sched} (h : s.Inv level) (hpos : ∀ e ∈ s.entries, 0 < e.info.interval)
    (n : ℕ) : (passes level n s).Inv level ∧
      (passes level n s).entries.map Snap.info = s.entries.map Snap.info ∧
      (0 < n → ∀ e ∈ (passes level n s).entries, e.info.level ≤ level →
        1 ≤ (passes level n s).sleepSecs) := by
  induction n generalizing s with
  | zero => exact ⟨h, rfl, fun hn => absurd hn (Nat.lt_irrefl 0)⟩
  | succ n ih =>
      obtain ⟨hinv, hinfo, hsleep⟩ := h.pass hpos
      rw [Sched.passes]
      by_cases hend : (s.pass level).sleepSecs = 0
      · simp only [if_pos hend]
        exact ⟨hinv, hinfo, fun _ => hsleep⟩
      · simp only [if_neg hend]
        have hpos' : ∀ e ∈ (s.pass level).entries, 0 < e.info.interval := by
          have hinfos : ∀ info ∈ s.entries.map Snap.info, 0 < info.interval :=
            List.forall_mem_map.mpr hpos
          rw [← hinfo] at hinfos
          exact fun e he => hinfos e.info (List.mem_map_of_mem he)
        obtain ⟨hinv', hinfo', hsleep'⟩ := ih hinv hpos'
        refine ⟨hinv', hinfo'.trans hinfo, fun _ => ?_⟩
        cases n with
        | zero => exact hsleep
        | succ n => exact hsleep' (Nat.succ_pos n)

end Sched

/-- After any number of passes the entries are the ones of the list, each has been recorded
at the positive multiples of its interval up to now, once each, if its level passes, and
never otherwise, and the last sleep that was computed is at least a second. -/
theorem snapshot_punctual (level : ℤ) (infos : List SlogInfo)
    (hpos : ∀ info ∈ infos, 0 < info.interval) (n : ℕ) :
    let s := (Sched.start infos).passes level n
    s.entries.map Snap.info = infos ∧
      (∀ e ∈ s.entries, e.recorded.Pairwise (· < ·) ∧ ∀ t, t ∈ e.recorded ↔
        e.info.level ≤ level ∧ 0 < t ∧ t ≤ s.now ∧ e.info.interval ∣ t) ∧
      (0 < n → ∀ info ∈ infos, info.level ≤ level → 1 ≤ s.sleepSecs) := by
  have hstart : ∀ e ∈ (Sched.start infos).entries, 0 < e.info.interval := by
    intro e he
    obtain ⟨info, hinfo, rfl⟩ := List.mem_map.mp he
    exact hpos info hinfo
  have hsame : (Sched.start infos).entries.map Snap.info = infos := by
    change (infos.map Snap.start).map Snap.info = infos
    rw [List.map_map]
    exact List.map_id infos
  obtain ⟨hinv, hinfo, hsleep⟩ := (Sched.inv_start hpos).passes hstart n
  rw [hsame] at hinfo
  refine ⟨hinfo, fun e he => ⟨(hinv.punctual e he).sorted, (hinv.punctual e he).mem_iff⟩, ?_⟩
  intro hn info hinfo₁ hlevel
  rw [← hinfo] at hinfo₁
  obtain ⟨e, he, rfl⟩ := List.mem_map.mp hinfo₁
  exact hsleep hn e he hlevel

def threeInfos : List SlogInfo :=
  [snapInfo [97] [102] 5 2 [47], snapInfo [98] [102] 5 3 [47], snapInfo [99] [102] 7 1 [47]]

theorem snapshot_punctual_threeInfos :
    ((Sched.start threeInfos).passes 5 6).now = 8 ∧
      ∀ e ∈ ((Sched.start threeInfos).passes 5 6).entries, ∀ t, t ∈ e.recorded ↔
        e.info.level ≤ 5 ∧ 0 < t ∧ t ≤ 8 ∧ e.info.interval ∣ t := by
  have hnow : ((Sched.start threeInfos).passes 5 6).now = 8 := by decide +kernel
  have hpos : ∀ info ∈ threeInfos, 0 < info.interval := by decide +kernel
  obtain ⟨-, hrecorded, -⟩ := snapshot_punctual 5 threeInfos hpos 6
  refine ⟨hnow, fun e he => ?_⟩
  rw [← hnow]
  exact (hrecorded e he).2

end Slog

end Tarako
