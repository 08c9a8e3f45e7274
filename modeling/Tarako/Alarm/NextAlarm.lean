import Mathlib.Data.List.MinMax
import Tarako.Alarm.SecList

/-!
# The choice of the next alarm

On its first calls `get_latest_alarm_time` leaves one alarm late that should have rung
within the last minute, and otherwise it looks for the least time to wait. The loop marks
that it has no minimum yet with -1, which is also how late an alarm is after one second:
what comes behind such an alarm takes its place.
-/

namespace Tarako

namespace Alarm

def callWith (st : State) (call : Tm × List AlarmSec) : State :=
  (getLatestAlarmTime call.1 { st with secList := call.2 }).2.2

/-- The two static variables after any calls with alarms of the week. -/
def ReachedFlags (firstRing firstAlarm : Bool) : Prop :=
  ∃ (st : State) (calls : List (Tm × List AlarmSec)),
    st.firstRing = false ∧ st.firstAlarm = false ∧ (∀ call ∈ calls, InWeek call.2) ∧
      (Run.run callWith st calls).firstRing = firstRing ∧
      (Run.run callWith st calls).firstAlarm = firstAlarm

def MayBeLate (now : Tm) (st : State) : Prop :=
  st.firstAlarm = false ∧ ∃ p ∈ st.secList, Late now.weekSecs p

/-- The alarm that `get_latest_alarm_time` chooses, and the time it returns. -/
structure Chosen (now : Tm) (st : State) : Prop where
  nonneg : 0 ≤ (getLatestAlarmTime now st).1
  late : MayBeLate now st → (getLatestAlarmTime now st).1 = 0 ∧
    ∃ p ∈ st.secList, (getLatestAlarmTime now st).2.2.alarmCur = some p ∧
      Late now.weekSecs p
  next : ¬ MayBeLate now st →
    (∃ p ∈ st.secList, (getLatestAlarmTime now st).2.2.alarmCur = some p ∧
      (getLatestAlarmTime now st).1 = (p.secs - now.weekSecs) % WEEK) ∧
    ∀ q ∈ st.secList, (getLatestAlarmTime now st).1 ≤ (q.secs - now.weekSecs) % WEEK

/-- The first late alarm is late by one second, and alarms come behind it. -/
def takenForNone (cur : ℤ) : List AlarmSec → Bool
  | [] => false
  | p :: rest =>
      if Late cur p then p.secs = cur - 1 && !rest.isEmpty else takenForNone cur rest

/-! ### The least time to wait -/

section Least

variable {cur : ℤ} {sc : Scan} {l : List AlarmSec}

theorem wait_eq_emod {secs : ℤ} (hcur : 0 ≤ cur ∧ cur < WEEK) (hsecs : 0 ≤ secs ∧ secs < WEEK) :
    wait cur secs = (secs - cur) % WEEK := by
  unfold wait WEEK at *
  split_ifs with hlt
  · rw [Int.emod_def]
    omega
  · rw [Int.emod_eq_of_lt (by omega) (by omega)]

def Scan.Best (cur : ℤ) (sc : Scan) : Option AlarmSec → Prop
  | none => sc.min = -1
  | some p => sc.alarmCur = some p ∧ sc.min = wait cur p.secs ∧ 0 ≤ sc.min

/-- The order in which `List.argmin` goes through the waits. -/
def sooner (cur : ℤ) (p q : AlarmSec) : Prop := wait cur p.secs < wait cur q.secs

instance (cur : ℤ) : DecidableRel (sooner cur) :=
  fun p q => inferInstanceAs (Decidable (wait cur p.secs < wait cur q.secs))

theorem Scan.Best.look {o : Option AlarmSec} {p : AlarmSec} (hcur : cur < WEEK)
    (hp : 0 ≤ p.secs) (h : sc.firstAlarm = true ∨ ¬ Late cur p) (hbest : sc.Best cur o) :
    (sc.look cur p).Best cur (List.argAux (sooner cur) o p) := by
  have hwait := wait_nonneg hcur hp
  rw [look_of_not_late h]
  cases o with
  | none =>
      have hmin : sc.min = -1 := hbest
      rw [if_pos (Or.inl hmin)]
      exact ⟨rfl, rfl, hwait⟩
  | some q =>
      obtain ⟨hcurrent, hmin, hnonneg⟩ := hbest
      by_cases hlt : sooner cur p q
      · have harg : List.argAux (sooner cur) (some q) p = some p := if_pos hlt
        unfold sooner at hlt
        rw [harg, if_pos (by omega)]
        exact ⟨rfl, rfl, hwait⟩
      · have harg : List.argAux (sooner cur) (some q) p = some q := if_neg hlt
        unfold sooner at hlt
        rw [harg, if_neg (by omega)]
        exact ⟨hcurrent, hmin, hnonneg⟩

/-- Without an alarm that is left late the loop finds the least wait. -/
theorem Scan.best_foldl {o : Option AlarmSec} (hcur : cur < WEEK) (hl : InWeek l)
    (h : sc.firstAlarm = true ∨ ∀ p ∈ l, ¬ Late cur p) (hbest : sc.Best cur o) :
    (l.foldl (Scan.look cur) sc).Best cur (l.foldl (List.argAux (sooner cur)) o) ∧
      (l.foldl (Scan.look cur) sc).firstAlarm = sc.firstAlarm := by
  induction l generalizing sc o with
  | nil => exact ⟨hbest, rfl⟩
  | cons p rest ih =>
      obtain ⟨hp, hrest⟩ := inWeek_cons.mp hl
      have hnot : sc.firstAlarm = true ∨ ¬ Late cur p :=
        h.imp_right fun hlate => hlate p List.mem_cons_self
      have hfirst := Scan.look_firstAlarm hnot
      have hnext : (sc.look cur p).firstAlarm = true ∨ ∀ q ∈ rest, ¬ Late cur q := by
        rw [hfirst]
        exact h.imp_right fun hlate q hq => hlate q (List.mem_cons_of_mem p hq)
      have hrun := ih hrest hnext (hbest.look hcur hp.1 hnot)
      rw [hfirst] at hrun
      exact hrun

theorem Scan.exists_foldl (sc : Scan) (hcur : cur < WEEK) (hl : InWeek l) (hne : l ≠ [])
    (h : sc.firstAlarm = true ∨ ∀ p ∈ l, ¬ Late cur p) (hmin : sc.min = -1) :
    (∃ p ∈ l, (l.foldl (Scan.look cur) sc).alarmCur = some p ∧
      (l.foldl (Scan.look cur) sc).min = wait cur p.secs) ∧
    (∀ q ∈ l, (l.foldl (Scan.look cur) sc).min ≤ wait cur q.secs) ∧
    0 ≤ (l.foldl (Scan.look cur) sc).min := by
  have hnone : sc.Best cur none := hmin
  obtain ⟨hbest, -⟩ := best_foldl hcur hl h hnone
  have hargmin : l.foldl (List.argAux (sooner cur)) none = l.argmin fun p => wait cur p.secs :=
    rfl
  rw [hargmin] at hbest
  cases hp : l.argmin fun p => wait cur p.secs with
  | none => exact absurd (List.argmin_eq_none.mp hp) hne
  | some p =>
      rw [hp] at hbest
      obtain ⟨halarm, hwait, hnonneg⟩ := hbest
      refine ⟨⟨p, List.argmin_mem hp, halarm, hwait⟩, fun q hq => ?_, hnonneg⟩
      rw [hwait]
      exact List.le_of_mem_argmin (f := fun p : AlarmSec => wait cur p.secs) hq hp

end Least

/-! ### An alarm that is left late -/

section Late

variable {cur : ℤ} {sc : Scan} {l : List AlarmSec}

/-- The loop ends with a minimum in the past, of a late alarm. -/
def Scan.LeftLate (cur : ℤ) (l : List AlarmSec) (sc : Scan) : Prop :=
  sc.min < 0 ∧ ∃ p ∈ l, sc.alarmCur = some p ∧ Late cur p

def Scan.Waits (cur : ℤ) (l : List AlarmSec) (sc : Scan) : Prop :=
  0 ≤ sc.min ∧ ∃ p ∈ l, sc.alarmCur = some p ∧ sc.min = wait cur p.secs

theorem Scan.foldl_of_late (sc : Scan) (hcur : cur < WEEK) (hl : InWeek l) (h : sc.firstAlarm = false)
    (hmin : -1 ≤ sc.min) (hlate : ∃ p ∈ l, Late cur p) :
    if takenForNone cur l then (l.foldl (Scan.look cur) sc).Waits cur l
    else (l.foldl (Scan.look cur) sc).LeftLate cur l := by
  induction l generalizing sc with
  | nil =>
      obtain ⟨p, hp, -⟩ := hlate
      cases hp
  | cons p rest ih =>
      obtain ⟨hp, hrest⟩ := inWeek_cons.mp hl
      rw [takenForNone, List.foldl_cons]
      by_cases hpl : Late cur p
      · have hleft : Scan.LeftLate cur (p :: rest) ⟨p.secs - cur, some p, true⟩ := by
          have hlt := hpl.1
          exact ⟨by dsimp only; omega, p, List.mem_cons_self, rfl, hpl⟩
        rw [if_pos hpl, look_of_late hpl h hmin]
        by_cases hone : p.secs = cur - 1
        · cases rest with
          | nil =>
              rw [if_neg (by simp)]
              exact hleft
          | cons q rest =>
              rw [if_pos (by simp [hone])]
              have hunset : (⟨p.secs - cur, some p, true⟩ : Scan).min = -1 := by
                dsimp only
                omega
              obtain ⟨⟨r, hr, hfound⟩, -, hnonneg⟩ :=
                exists_foldl _ hcur hrest (List.cons_ne_nil q rest) (Or.inl rfl) hunset
              exact ⟨hnonneg, r, List.mem_cons_of_mem p hr, hfound⟩
        · have hlt := hpl.1
          rw [if_neg (by simp [hone]), foldl_of_lost hcur hrest rfl (by dsimp only; omega)]
          exact hleft
      · have hfirst : (sc.look cur p).firstAlarm = false := by
          rw [look_firstAlarm (Or.inr hpl), h]
        have hwait := wait_nonneg hcur hp.1
        have hnext : -1 ≤ (sc.look cur p).min := by
          rw [look_of_not_late (Or.inr hpl)]
          split_ifs
          · dsimp only
            omega
          · exact hmin
        have hlater : ∃ q ∈ rest, Late cur q := by
          rwa [List.exists_mem_cons_iff, or_iff_right hpl] at hlate
        have hrun := ih _ hrest hfirst hnext hlater
        rw [if_neg hpl]
        split_ifs at hrun ⊢
        · obtain ⟨hnonneg, q, hq, hfound⟩ := hrun
          exact ⟨hnonneg, q, List.mem_cons_of_mem p hq, hfound⟩
        · obtain ⟨hneg, q, hq, hfound⟩ := hrun
          exact ⟨hneg, q, List.mem_cons_of_mem p hq, hfound⟩

end Late

theorem exists_late_of_takenForNone {cur : ℤ} {l : List AlarmSec}
    (h : takenForNone cur l = true) : ∃ p ∈ l, Late cur p := by
  induction l with
  | nil => cases h
  | cons p rest ih =>
      rw [List.exists_mem_cons_iff]
      by_cases hp : Late cur p
      · exact Or.inl hp
      · rw [takenForNone, if_neg hp] at h
        exact Or.inr (ih h)

/-! ### The flags -/

theorem getLatestAlarmTime_of_ne_nil (now : Tm) (st : State) (hne : st.secList ≠ []) :
    let sc := st.secList.foldl (Scan.look now.weekSecs) ⟨-1, st.alarmCur, st.firstAlarm⟩
    (getLatestAlarmTime now st).1 = (nextRing now st.firstRing sc.min).1 ∧
      (getLatestAlarmTime now st).2.2.alarmCur = sc.alarmCur ∧
      (getLatestAlarmTime now st).2.2.firstAlarm = sc.firstAlarm ∧
      (getLatestAlarmTime now st).2.2.firstRing = (nextRing now st.firstRing sc.min).2 := by
  unfold getLatestAlarmTime
  rw [if_neg hne]
  exact ⟨rfl, rfl, rfl, rfl⟩

theorem Scan.firstAlarm_foldl (cur : ℤ) (sc : Scan) (l : List AlarmSec) :
    (l.foldl (Scan.look cur) sc).firstAlarm = (sc.firstAlarm || l.any (Late cur ·)) := by
  induction l generalizing sc with
  | nil => exact (Bool.or_false _).symm
  | cons p rest ih =>
      have hlook : (sc.look cur p).firstAlarm = (sc.firstAlarm || decide (Late cur p)) := by
        by_cases hset : sc.firstAlarm = true ∨ ¬ Late cur p
        · rw [look_firstAlarm hset]
          obtain h | h := hset
          · rw [h, Bool.true_or]
          · rw [decide_eq_false h, Bool.or_false]
        · obtain ⟨hset, hlate⟩ := not_or.mp hset
          have hunset : sc.firstAlarm = false := Bool.eq_false_iff.mpr hset
          rw [look_eq, hunset, lookAt_of_late (not_not.mp hlate),
            decide_eq_true (not_not.mp hlate)]
          split_ifs
          · rfl
          · rfl
      rw [List.foldl_cons, ih, hlook, List.any_cons, Bool.or_assoc]

/-- `first_ring` is set behind `first_alarm` only. -/
def FlagsAgree (st : State) : Prop := st.firstRing = true → st.firstAlarm = true

theorem flagsAgree_callWith {st : State} {call : Tm × List AlarmSec} (hl : InWeek call.2)
    (h : FlagsAgree st) : FlagsAgree (callWith st call) := by
  obtain ⟨now, l⟩ := call
  have hcur := now.weekSecs_bounds.2
  unfold callWith
  dsimp only at hl ⊢
  by_cases hne : l = []
  · have hsame : getLatestAlarmTime now { st with secList := l } =
        (-1, none, { st with secList := l }) := if_pos hne
    rw [hsame]
    exact h
  · obtain ⟨-, -, hfirst, hring⟩ :=
      getLatestAlarmTime_of_ne_nil now { st with secList := l } hne
    dsimp only at hfirst hring
    unfold FlagsAgree
    rw [hfirst, hring, Scan.firstAlarm_foldl]
    dsimp only
    by_cases hlate : st.firstAlarm = true ∨ ∃ p ∈ l, Late now.weekSecs p
    · intro _
      rw [Bool.or_eq_true, List.any_eq_true]
      exact hlate.imp_right fun ⟨p, hp, hpl⟩ => ⟨p, hp, decide_eq_true hpl⟩
    · obtain ⟨hunset, hnone⟩ := not_or.mp hlate
      have hnonneg := (Scan.exists_foldl ⟨-1, st.alarmCur, st.firstAlarm⟩ hcur hl hne
        (Or.inr fun p hp hpl => hnone ⟨p, hp, hpl⟩) rfl).2.2
      rw [nextRing_of_nonneg now st.firstRing hnonneg]
      exact fun hring => absurd (h hring) hunset

theorem firstAlarm_of_reached {firstRing firstAlarm : Bool}
    (h : ReachedFlags firstRing firstAlarm) : firstRing = true → firstAlarm = true := by
  obtain ⟨st, calls, hring, hfirst, hcalls, rfl, rfl⟩ := h
  have hinit : FlagsAgree st := fun hset => absurd (hring.symm.trans hset) Bool.false_ne_true
  clear hring hfirst
  induction calls generalizing st with
  | nil => exact hinit
  | cons call rest ih =>
      obtain ⟨hcall, hrest⟩ := List.forall_mem_cons.mp hcalls
      exact ih _ hrest (flagsAgree_callWith hcall hinit)

/-! ### The choice -/

section Choice

variable {now : Tm} {st : State}

theorem chosen_of_not_mayBeLate (hl : InWeek st.secList) (hne : st.secList ≠ [])
    (h : ¬ MayBeLate now st) : Chosen now st := by
  have hcur := now.weekSecs_bounds
  obtain ⟨hret, halarm, -, -⟩ := getLatestAlarmTime_of_ne_nil now st hne
  have hnone : st.firstAlarm = true ∨ ∀ p ∈ st.secList, ¬ Late now.weekSecs p := by
    by_contra hcon
    obtain ⟨hunset, hlate⟩ := not_or.mp hcon
    refine h ⟨Bool.eq_false_iff.mpr hunset, ?_⟩
    by_contra hno
    exact hlate fun p hp hpl => hno ⟨p, hp, hpl⟩
  obtain ⟨⟨p, hp, hfound, hwait⟩, hleast, hnonneg⟩ :=
    Scan.exists_foldl ⟨-1, st.alarmCur, st.firstAlarm⟩ hcur.2 hl hne hnone rfl
  rw [nextRing_of_nonneg now st.firstRing hnonneg] at hret
  refine ⟨hret ▸ hnonneg, fun hlate => absurd hlate h, fun _ => ⟨⟨p, hp, ?_, ?_⟩, ?_⟩⟩
  · rw [halarm, hfound]
  · rw [hret, ← wait_eq_emod hcur (hl p hp)]
    exact hwait
  · intro q hq
    rw [hret, ← wait_eq_emod hcur (hl q hq)]
    exact hleast q hq

/-- A late alarm is chosen unless the loop takes its mark for none. -/
theorem chosen_iff_of_mayBeLate (hl : InWeek st.secList)
    (hring : st.firstRing = false) (h : MayBeLate now st) :
    Chosen now st ↔ takenForNone now.weekSecs st.secList = false := by
  have hcur := now.weekSecs_bounds.2
  obtain ⟨hunset, hlate⟩ := h
  have hne : st.secList ≠ [] := by
    obtain ⟨p, hp, -⟩ := hlate
    exact List.ne_nil_of_mem hp
  obtain ⟨hret, halarm, -, -⟩ := getLatestAlarmTime_of_ne_nil now st hne
  have hloop := Scan.foldl_of_late ⟨-1, st.alarmCur, st.firstAlarm⟩ hcur hl hunset
    (Int.le_refl _) hlate
  cases htaken : takenForNone now.weekSecs st.secList with
  | true =>
      rw [htaken, if_pos rfl] at hloop
      obtain ⟨hnonneg, p, hp, hfound, hwait⟩ := hloop
      refine iff_of_false (fun hchosen => ?_) nofun
      obtain ⟨hzero, q, -, hq, hql⟩ := hchosen.late ⟨hunset, hlate⟩
      rw [nextRing_of_nonneg now st.firstRing hnonneg] at hret
      have hnow : p.secs = now.weekSecs := by
        rw [← wait_eq_zero_iff hcur (hl p hp).1, ← hwait, ← hzero, hret]
      have hsame : some p = some q := by rw [← hfound, ← hq, halarm]
      obtain rfl := Option.some.inj hsame
      exact absurd hql.1 (by omega)
  | false =>
      rw [htaken, if_neg Bool.false_ne_true] at hloop
      obtain ⟨hneg, p, hp, hfound, hpl⟩ := hloop
      refine iff_of_true ?_ rfl
      have hzero : (getLatestAlarmTime now st).1 = 0 := by
        rw [hret, hring, nextRing, if_pos hneg]
        rfl
      refine ⟨Int.le_of_eq hzero.symm, fun _ => ⟨hzero, p, hp, ?_, hpl⟩, fun hnot => ?_⟩
      · rw [halarm, hfound]
      · exact absurd ⟨hunset, hlate⟩ hnot

end Choice

/-- For alarms of the week and flags that calls have left, the choice is right exactly if
`first_alarm` is set, or the first late alarm is not late by one second or is the last of
the list. -/
theorem chosen_iff (now : Tm) (st : State) (hl : InWeek st.secList) (hne : st.secList ≠ [])
    (hflags : ReachedFlags st.firstRing st.firstAlarm) :
    Chosen now st ↔ st.firstAlarm = true ∨ takenForNone now.weekSecs st.secList = false := by
  by_cases hlate : MayBeLate now st
  · have hring : st.firstRing = false := by
      rw [Bool.eq_false_iff]
      intro hset
      have hfirst := firstAlarm_of_reached hflags hset
      rw [hlate.1] at hfirst
      cases hfirst
    rw [chosen_iff_of_mayBeLate hl hring hlate, or_iff_right]
    rw [hlate.1]
    exact Bool.false_ne_true
  · refine iff_of_true (chosen_of_not_mayBeLate hl hne hlate) ?_
    by_contra hcon
    obtain ⟨hunset, htaken⟩ := not_or.mp hcon
    exact hlate ⟨Bool.eq_false_iff.mpr hunset,
      exists_late_of_takenForNone (Bool.not_eq_false _ ▸ htaken)⟩

def pastSeven : Tm := localtime (fun _ => 0) (4 * 86400 + 7 * 3600 + 1)

def mondayAlarm (secs : ℤ) : AlarmSec := ⟨0, 0, "", secs, 1⟩

def firstCall (times : List ℤ) : State := ⟨times.map mondayAlarm, none, false, false⟩

theorem reachedFlags_firstCall (times : List ℤ) :
    ReachedFlags (firstCall times).firstRing (firstCall times).firstAlarm :=
  ⟨firstCall times, [], rfl, rfl, fun _ h => (nomatch h), rfl, rfl⟩

theorem chosen_iff_pastSeven : Chosen pastSeven (firstCall [25800, 25200]) :=
  (chosen_iff pastSeven (firstCall [25800, 25200]) (by unfold InWeek; decide) (by decide)
    (reachedFlags_firstCall _)).mpr (Or.inr (by decide))

/-- When the alarm at ten past seven comes behind it, that one is chosen. -/
theorem not_chosen_pastSeven :
    (getLatestAlarmTime pastSeven (firstCall [25200, 25800])).1 = 599 ∧
      (getLatestAlarmTime pastSeven (firstCall [25200, 25800])).2.2.alarmCur =
        some (mondayAlarm 25800) ∧
      ¬ Chosen pastSeven (firstCall [25200, 25800]) := by
  refine ⟨by decide, by decide, fun h => ?_⟩
  have hlate : MayBeLate pastSeven (firstCall [25200, 25800]) :=
    ⟨rfl, mondayAlarm 25200, List.mem_cons_self, by decide⟩
  exact absurd (h.late hlate).1 (by decide)

end Alarm

end Tarako
