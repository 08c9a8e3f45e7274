import Mathlib.Data.List.Basic
import Mathlib.Data.Nat.Bitwise
import Mathlib.Tactic.Common
import Tarako.Lib.Run

/-!
# The alarm times of the boot alarm

`alarm.c` keeps the alarms that can still ring in `g_alarm_sec_list`, each with the
second of the week (from Monday, 00:00) at which it rings. The list is made once from
the alarm database and the ring file; a snooze moves one of its elements;
`get_latest_alarm_time` says how long the next one is away. Memory for a new element
is always found.
-/

namespace Tarako

namespace Alarm

def WEEK : ℤ := 7 * 24 * 60 * 60

/-- The broken-down local time, as far as the alarms read it; Sunday is day 0. -/
structure Tm where
  wday : ℕ
  hour : ℕ
  min : ℕ
  sec : ℕ
  wday_lt : wday < 7
  hour_lt : hour < 24
  min_lt : min < 60
  sec_lt : sec < 60

namespace Tm

/-- `(tm->tm_wday == 0) ? 6 : (tm->tm_wday - 1)`: Monday is day 0. -/
def weekday (tm : Tm) : ℤ := if tm.wday = 0 then 6 else (tm.wday : ℤ) - 1

def daySecs (tm : Tm) : ℤ := tm.hour * 3600 + tm.min * 60 + tm.sec

def weekSecs (tm : Tm) : ℤ := tm.weekday * 24 * 3600 + tm.daySecs

theorem weekday_bounds (tm : Tm) : 0 ≤ tm.weekday ∧ tm.weekday ≤ 6 := by
  have hwday := tm.wday_lt
  unfold weekday
  split <;> omega

theorem daySecs_bounds (tm : Tm) : 0 ≤ tm.daySecs ∧ tm.daySecs < 86400 := by
  have hhour := tm.hour_lt
  have hmin := tm.min_lt
  have hsec := tm.sec_lt
  unfold daySecs
  omega

theorem weekSecs_bounds (tm : Tm) : 0 ≤ tm.weekSecs ∧ tm.weekSecs < WEEK := by
  have hday := tm.weekday_bounds
  have hsecs := tm.daySecs_bounds
  unfold weekSecs WEEK
  omega

end Tm

/-- A local time without leap seconds; `zone` is the offset from UTC in force at each
time. The first of January 1970 was a Thursday. -/
def localtime (zone : ℕ → ℤ) (t : ℕ) : Tm where
  wday := (((t + zone t) / 86400 + 4) % 7).toNat
  hour := ((t + zone t) % 86400 / 3600).toNat
  min := ((t + zone t) % 3600 / 60).toNat
  sec := ((t + zone t) % 60).toNat
  wday_lt := by omega
  hour_lt := by omega
  min_lt := by omega
  sec_lt := by omega

theorem weekday_localtime (zone : ℕ → ℤ) (t : ℕ) :
    (localtime zone t).weekday = ((t + zone t) / 86400 + 3) % 7 := by
  simp only [Tm.weekday, localtime]
  omega

theorem daySecs_localtime (zone : ℕ → ℤ) (t : ℕ) :
    (localtime zone t).daySecs = (t + zone t) % 86400 := by
  simp only [Tm.daySecs, localtime]
  generalize (t + zone t : ℤ) = secs
  omega

theorem weekSecs_localtime (zone : ℕ → ℤ) (t : ℕ) :
    (localtime zone t).weekSecs = (t + zone t + 3 * 86400) % WEEK := by
  rw [Tm.weekSecs, weekday_localtime, daySecs_localtime, WEEK]
  generalize (t + zone t : ℤ) = secs
  omega

structure AlarmDb where
  id : ℤ
  hour : ℕ
  min : ℕ
  dayofweek : ℕ
  enable : Bool
  vibrate : ℤ
  alert : String
  hour_lt : hour < 24
  min_lt : min < 60

structure AlarmSec where
  day : ℤ
  vibrate : ℤ
  alert : String
  secs : ℤ
  dbId : ℤ
  deriving DecidableEq

/-- The day on which a one-time alarm rings: today, or tomorrow when its time is more
than 40 seconds ago. -/
def checkAlarmDay (now : Tm) (daySecs : ℤ) : ℤ :=
  let weekday := if now.daySecs - 40 > daySecs then now.weekday + 1 else now.weekday
  if weekday = 7 then 0 else weekday

namespace AlarmDb

def daySecs (p : AlarmDb) : ℤ := p.hour * 60 * 60 + p.min * 60

def once (now : Tm) (p : AlarmDb) : AlarmSec where
  day := -1
  vibrate := p.vibrate
  alert := p.alert
  secs := p.daySecs + checkAlarmDay now p.daySecs * 24 * 60 * 60
  dbId := p.id

def weekly (p : AlarmDb) (dayth : ℕ) : AlarmSec where
  day := dayth
  vibrate := p.vibrate
  alert := p.alert
  secs := dayth * 24 * 60 * 60 + p.daySecs
  dbId := p.id

/-- The turn of the outer loop of `creat_alarm_sec_list` on one alarm. -/
def secItems (now : Tm) (p : AlarmDb) : List AlarmSec :=
  if p.enable then
    if p.dayofweek = 0 then [p.once now]
    else ((List.range 7).filter (p.dayofweek.testBit ·)).map p.weekly
  else []

end AlarmDb

/-- The element for the time in the ring file, unless the list has that time. -/
def addRingFileTime (items : List AlarmSec) : Option Tm → Option AlarmSec
  | none => none
  | some tm =>
      if items.any (·.secs = tm.weekSecs) then none
      else some
        { day := tm.weekday, vibrate := 1, alert := "0", secs := tm.weekSecs, dbId := 12 }

/-- `ring` is the time in the ring file, when it can be read. -/
def creatAlarmSecList (db : List AlarmDb) (now : Tm) (ring : Option Tm) : List AlarmSec :=
  if db = [] then []
  else
    let items := db.flatMap (AlarmDb.secItems now)
    items ++ (addRingFileTime items ring).toList

/-- The first element with the time of `fireAlarm` rings `snoozetime` from now. -/
def updateAlarmSecList (now : Tm) (fireAlarm snoozetime : ℤ) : List AlarmSec → List AlarmSec
  | [] => []
  | p :: rest =>
      if p.secs = fireAlarm then { p with secs := now.weekSecs + snoozetime } :: rest
      else p :: updateAlarmSecList now fireAlarm snoozetime rest

/-- The loop of `get_latest_alarm_time`: `min`, `alarm_cur` and `first_alarm`. -/
structure Scan where
  min : ℤ
  alarmCur : Option AlarmSec
  firstAlarm : Bool

/-- `tmp` and `first_alarm` after the look at one element. An alarm that is late by a
minute at most is left late once. -/
def lookAt (cur secs : ℤ) (firstAlarm : Bool) : ℤ × Bool :=
  let tmp := secs - cur
  if tmp < 0 then
    if firstAlarm ∨ tmp < -60 then (tmp + WEEK, firstAlarm) else (tmp, true)
  else (tmp, firstAlarm)

/-- One turn of the loop; -1 stands for no minimum yet. -/
def Scan.look (cur : ℤ) (sc : Scan) (p : AlarmSec) : Scan :=
  let (tmp, firstAlarm) := lookAt cur p.secs sc.firstAlarm
  if sc.min = -1 ∨ sc.min > tmp then ⟨tmp, some p, firstAlarm⟩
  else { sc with firstAlarm := firstAlarm }

/-- `g_alarm_sec_list`, `alarm_cur`, and the static variables of
`get_latest_alarm_time`. -/
structure State where
  secList : List AlarmSec
  alarmCur : Option AlarmSec
  firstRing : Bool
  firstAlarm : Bool

def remainSecs (now : Tm) : ℤ :=
  (6 - now.weekday) * 24 * 60 * 60 + (23 - now.hour) * 60 * 60 + (59 - now.min) * 60 +
    (60 - now.sec)

/-- The result, and `first_ring`, for the minimum of the loop. -/
def nextRing (now : Tm) (firstRing : Bool) (min : ℤ) : ℤ × Bool :=
  if min < 0 then
    if firstRing then (min + remainSecs now, firstRing) else (0, true)
  else (min, firstRing)

/-- `get_latest_alarm_time`: the result, what it stores in `fire_alarm`, and the state.
The database is told that a one-time alarm rings; the list does not change. -/
def getLatestAlarmTime (now : Tm) (st : State) : ℤ × Option AlarmSec × State :=
  if st.secList = [] then (-1, none, st)
  else
    let sc := st.secList.foldl (Scan.look now.weekSecs) ⟨-1, st.alarmCur, st.firstAlarm⟩
    let next := nextRing now st.firstRing sc.min
    (next.1, if next.1 = 0 then sc.alarmCur else none,
      { st with alarmCur := sc.alarmCur, firstAlarm := sc.firstAlarm, firstRing := next.2 })

/-- A snooze of the alarm that rings at `fireAlarm`, or a look for the next alarm. -/
inductive Event where
  | update (t : ℕ) (fireAlarm : ℤ) (snoozetime : ℕ)
  | latest (t : ℕ)

def alarmInit (db : List AlarmDb) (now : Tm) (ring : Option Tm) : State where
  secList := creatAlarmSecList db now ring
  alarmCur := none
  firstRing := false
  firstAlarm := false

def step (zone : ℕ → ℤ) (st : State) : Event → State
  | .update t fireAlarm snoozetime =>
      { st with
        secList := updateAlarmSecList (localtime zone t) fireAlarm snoozetime st.secList }
  | .latest t => (getLatestAlarmTime (localtime zone t) st).2.2

/-! ### The list -/

/-- Every alarm rings within the week. -/
def InWeek (l : List AlarmSec) : Prop := ∀ p ∈ l, 0 ≤ p.secs ∧ p.secs < WEEK

/-- A snooze that finds its alarm ends before the week does. -/
def WithinWeek (zone : ℕ → ℤ) (st : State) : Event → Prop
  | .update t fireAlarm snoozetime =>
      (∃ p ∈ st.secList, p.secs = fireAlarm) →
        (localtime zone t).weekSecs + snoozetime < WEEK
  | .latest _ => True

theorem checkAlarmDay_bounds (now : Tm) (daySecs : ℤ) :
    0 ≤ checkAlarmDay now daySecs ∧ checkAlarmDay now daySecs ≤ 6 := by
  have hday := now.weekday_bounds
  simp only [checkAlarmDay]
  split <;> split <;> omega

namespace AlarmDb

theorem daySecs_bounds (p : AlarmDb) : 0 ≤ p.daySecs ∧ p.daySecs < 86400 := by
  have hhour := p.hour_lt
  have hmin := p.min_lt
  unfold daySecs
  omega

theorem once_inWeek (now : Tm) (p : AlarmDb) :
    0 ≤ (p.once now).secs ∧ (p.once now).secs < WEEK := by
  have hsecs := p.daySecs_bounds
  have hday := checkAlarmDay_bounds now p.daySecs
  simp only [once, WEEK]
  omega

theorem weekly_inWeek (p : AlarmDb) {dayth : ℕ} (h : dayth < 7) :
    0 ≤ (p.weekly dayth).secs ∧ (p.weekly dayth).secs < WEEK := by
  have hsecs := p.daySecs_bounds
  simp only [weekly, WEEK]
  omega

theorem inWeek_secItems (now : Tm) (p : AlarmDb) : InWeek (p.secItems now) := by
  intro a ha
  unfold secItems at ha
  split at ha
  · split at ha
    · rw [List.mem_singleton] at ha
      subst ha
      exact p.once_inWeek now
    · obtain ⟨dayth, hday, rfl⟩ := List.mem_map.mp ha
      exact p.weekly_inWeek (List.mem_range.mp (List.mem_filter.mp hday).1)
  · exact absurd ha List.not_mem_nil

end AlarmDb

theorem inWeek_addRingFileTime (items : List AlarmSec) (ring : Option Tm) :
    InWeek (addRingFileTime items ring).toList := by
  intro a ha
  cases ring with
  | none => exact absurd ha List.not_mem_nil
  | some tm =>
      rw [addRingFileTime] at ha
      split at ha
      · exact absurd ha List.not_mem_nil
      · rw [Option.toList_some, List.mem_singleton] at ha
        subst ha
        exact tm.weekSecs_bounds

theorem InWeek.append {l m : List AlarmSec} (hl : InWeek l) (hm : InWeek m) :
    InWeek (l ++ m) := by
  intro p hp
  rcases List.mem_append.mp hp with h | h
  · exact hl p h
  · exact hm p h

theorem inWeek_cons {p : AlarmSec} {l : List AlarmSec} :
    InWeek (p :: l) ↔ (0 ≤ p.secs ∧ p.secs < WEEK) ∧ InWeek l :=
  List.forall_mem_cons

theorem inWeek_creatAlarmSecList (db : List AlarmDb) (now : Tm) (ring : Option Tm) :
    InWeek (creatAlarmSecList db now ring) := by
  unfold creatAlarmSecList
  split
  · exact fun p hp => absurd hp List.not_mem_nil
  · refine InWeek.append ?_ (inWeek_addRingFileTime _ ring)
    intro a ha
    obtain ⟨p, -, hp⟩ := List.mem_flatMap.mp ha
    exact p.inWeek_secItems now a hp

/-- A snooze keeps the list within the week exactly if the new time lies in it. -/
theorem inWeek_update_iff {now : Tm} {fireAlarm : ℤ} {snoozetime : ℕ} {l : List AlarmSec}
    (hl : InWeek l) :
    InWeek (updateAlarmSecList now fireAlarm snoozetime l) ↔
      ((∃ p ∈ l, p.secs = fireAlarm) → now.weekSecs + snoozetime < WEEK) := by
  have hnow := now.weekSecs_bounds
  induction l with
  | nil => simp [updateAlarmSecList, InWeek]
  | cons p rest ih =>
      obtain ⟨hp, hrest⟩ := inWeek_cons.mp hl
      rw [updateAlarmSecList]
      by_cases hfire : p.secs = fireAlarm
      · rw [if_pos hfire, inWeek_cons]
        constructor
        · exact fun h _ => h.1.2
        · intro h
          have hlt := h ⟨p, List.mem_cons_self, hfire⟩
          exact ⟨⟨by simp only; omega, hlt⟩, hrest⟩
      · rw [if_neg hfire, inWeek_cons]
        refine (and_iff_right hp).trans ((ih hrest).trans ?_)
        rw [List.exists_mem_cons_iff, or_iff_right hfire]

theorem getLatestAlarmTime_secList (now : Tm) (st : State) :
    (getLatestAlarmTime now st).2.2.secList = st.secList := by
  unfold getLatestAlarmTime
  split <;> rfl

theorem inWeek_step_iff (zone : ℕ → ℤ) (st : State) (e : Event) (h : InWeek st.secList) :
    InWeek (step zone st e).secList ↔ WithinWeek zone st e := by
  cases e with
  | update t fireAlarm snoozetime => exact inWeek_update_iff h
  | latest t =>
      rw [step, getLatestAlarmTime_secList]
      exact iff_of_true h trivial

/-! ### The next alarm -/

section Scan

variable {cur : ℤ} {sc : Scan} {p : AlarmSec}

/-- An alarm that `first_alarm` can leave late. -/
def Late (cur : ℤ) (p : AlarmSec) : Prop := p.secs < cur ∧ -60 ≤ p.secs - cur

instance (cur : ℤ) (p : AlarmSec) : Decidable (Late cur p) :=
  inferInstanceAs (Decidable (_ ∧ _))

/-- The alarm left late keeps an alarm that rings now from being reported, unless it is
late by one second, which is the mark of no minimum, and the other one comes after it. -/
def preempted (cur : ℤ) : List AlarmSec → Bool
  | [] => false
  | p :: rest =>
      if Late cur p then p.secs ≠ cur - 1 ∨ ∀ q ∈ rest, q.secs ≠ cur
      else preempted cur rest

theorem preempted_cons_of_late {cur : ℤ} {p : AlarmSec} (h : Late cur p)
    (rest : List AlarmSec) :
    preempted cur (p :: rest) = false ↔ p.secs = cur - 1 ∧ ∃ q ∈ rest, q.secs = cur := by
  rw [preempted, if_pos h, decide_eq_false_iff_not, not_or, not_not]
  simp only [ne_eq, not_forall, not_not, exists_prop]

theorem preempted_cons_of_not_late {cur : ℤ} {p : AlarmSec} (h : ¬ Late cur p)
    (rest : List AlarmSec) : preempted cur (p :: rest) = preempted cur rest := by
  rw [preempted, if_neg h]

/-- The minimum is an alarm that rings now. -/
def Scan.Found (cur : ℤ) (sc : Scan) : Prop :=
  sc.min = 0 ∧ ∃ p, sc.alarmCur = some p ∧ p.secs = cur

/-- There is no minimum yet, or one in the future. -/
def Scan.Waiting (sc : Scan) : Prop := sc.min = -1 ∨ 0 < sc.min

/-- A minimum in the past is of a late alarm. -/
def Scan.Tracks (cur : ℤ) (sc : Scan) : Prop :=
  sc.min < 0 → ∀ p, sc.alarmCur = some p → p.secs < cur

/-- The time until an alarm rings that is not left late. -/
def wait (cur secs : ℤ) : ℤ := if secs < cur then secs - cur + WEEK else secs - cur

theorem wait_nonneg (hcur : cur < WEEK) {secs : ℤ} (hsecs : 0 ≤ secs) :
    0 ≤ wait cur secs := by
  unfold wait
  split <;> omega

theorem wait_eq_zero_iff (hcur : cur < WEEK) {secs : ℤ} (hsecs : 0 ≤ secs) :
    wait cur secs = 0 ↔ secs = cur := by
  unfold wait
  split <;> omega

theorem lookAt_of_not_late {firstAlarm : Bool} (h : firstAlarm = true ∨ ¬ Late cur p) :
    lookAt cur p.secs firstAlarm = (wait cur p.secs, firstAlarm) := by
  unfold lookAt wait
  unfold Late at h
  dsimp only
  by_cases hlt : p.secs < cur
  · have hfirst : firstAlarm = true ∨ p.secs - cur < -60 := by
      refine h.imp_right fun hlate => ?_
      omega
    rw [if_pos (by omega), if_pos hfirst, if_pos hlt]
  · rw [if_neg (by omega), if_neg hlt]

theorem lookAt_of_late (h : Late cur p) :
    lookAt cur p.secs false = (p.secs - cur, true) := by
  obtain ⟨hlt, hminute⟩ := h
  unfold lookAt
  dsimp only
  rw [if_pos (by omega), if_neg (by simp; omega)]

theorem lookAt_neg {secs : ℤ} {firstAlarm : Bool}
    (h : (lookAt cur secs firstAlarm).1 < 0) : secs < cur := by
  unfold lookAt at h
  dsimp only at h
  split at h
  · omega
  · exact absurd h (by assumption)

theorem Scan.look_eq (cur : ℤ) (sc : Scan) (p : AlarmSec) :
    sc.look cur p =
      if sc.min = -1 ∨ sc.min > (lookAt cur p.secs sc.firstAlarm).1 then
        ⟨(lookAt cur p.secs sc.firstAlarm).1, some p, (lookAt cur p.secs sc.firstAlarm).2⟩
      else { sc with firstAlarm := (lookAt cur p.secs sc.firstAlarm).2 } := rfl

theorem Scan.look_of_not_late (h : sc.firstAlarm = true ∨ ¬ Late cur p) :
    sc.look cur p =
      if sc.min = -1 ∨ sc.min > wait cur p.secs then
        ⟨wait cur p.secs, some p, sc.firstAlarm⟩
      else sc := by
  rw [look_eq, lookAt_of_not_late h]

theorem Scan.look_of_late (h : Late cur p) (hfirst : sc.firstAlarm = false)
    (hmin : -1 ≤ sc.min) : sc.look cur p = ⟨p.secs - cur, some p, true⟩ := by
  rw [look_eq, hfirst, lookAt_of_late h]
  obtain ⟨hlt, -⟩ := h
  rw [if_pos (by dsimp only; omega)]

theorem Scan.look_firstAlarm (h : sc.firstAlarm = true ∨ ¬ Late cur p) :
    (sc.look cur p).firstAlarm = sc.firstAlarm := by
  rw [look_of_not_late h]
  split <;> rfl

theorem Scan.found_or_waiting_look (hcur : cur < WEEK) (hp : 0 ≤ p.secs)
    (h : sc.firstAlarm = true ∨ ¬ Late cur p) (hsc : sc.Found cur ∨ sc.Waiting) :
    ((sc.look cur p).Found cur ∨ (sc.look cur p).Waiting) ∧
      ((sc.look cur p).Found cur ↔ sc.Found cur ∨ p.secs = cur) := by
  have hwait := wait_nonneg hcur hp
  have hzero := wait_eq_zero_iff hcur hp
  rw [look_of_not_late h]
  rcases hsc with hfound | hopen
  · have hmin := hfound.1
    rw [if_neg (by omega)]
    exact ⟨.inl hfound, by simp [hfound]⟩
  · have hnot : ¬ sc.Found cur := fun hf => by
      have hmin := hf.1
      unfold Waiting at hopen
      omega
    split
    · have hiff : Found cur ⟨wait cur p.secs, some p, sc.firstAlarm⟩ ↔ p.secs = cur := by
        simp only [Found, Option.some.injEq, exists_eq_left', hzero, and_self]
      refine ⟨?_, by rw [hiff]; simp [hnot]⟩
      rw [hiff, Waiting, ← hzero]
      dsimp only
      omega
    · have hne : p.secs ≠ cur := fun he => by
        have h0 := hzero.mpr he
        unfold Waiting at hopen
        omega
      exact ⟨.inr hopen, by simp [hnot, hne]⟩

theorem Scan.found_foldl_of_firstAlarm {l : List AlarmSec} (hcur : cur < WEEK)
    (hl : InWeek l) (h : sc.firstAlarm = true) (hsc : sc.Found cur ∨ sc.Waiting) :
    (l.foldl (Scan.look cur) sc).Found cur ↔ sc.Found cur ∨ ∃ q ∈ l, q.secs = cur := by
  induction l generalizing sc with
  | nil => simp
  | cons p rest ih =>
      obtain ⟨hp, hrest⟩ := inWeek_cons.mp hl
      obtain ⟨hnext, hiff⟩ := found_or_waiting_look hcur hp.1 (.inl h) hsc
      have hfirst : (sc.look cur p).firstAlarm = true := by
        rw [look_firstAlarm (.inl h), h]
      rw [List.foldl_cons, ih hrest hfirst hnext, hiff, or_assoc, List.exists_mem_cons_iff]

theorem Scan.foldl_of_lost {l : List AlarmSec} (hcur : cur < WEEK) (hl : InWeek l)
    (h : sc.firstAlarm = true) (hmin : sc.min < -1) : l.foldl (Scan.look cur) sc = sc := by
  induction l with
  | nil => rfl
  | cons p rest ih =>
      obtain ⟨hp, hrest⟩ := inWeek_cons.mp hl
      have hwait := wait_nonneg hcur hp.1
      have hlook : sc.look cur p = sc := by
        rw [look_of_not_late (.inl h), if_neg (by omega)]
      rw [List.foldl_cons, hlook, ih hrest]

theorem Scan.found_foldl {l : List AlarmSec} (hcur : cur < WEEK) (hl : InWeek l)
    (h : sc.firstAlarm = false) (hsc : sc.Found cur ∨ sc.Waiting) :
    (l.foldl (Scan.look cur) sc).Found cur ↔
      preempted cur l = false ∧ (sc.Found cur ∨ ∃ q ∈ l, q.secs = cur) := by
  induction l generalizing sc with
  | nil => simp [preempted]
  | cons p rest ih =>
      obtain ⟨hp, hrest⟩ := inWeek_cons.mp hl
      rw [List.foldl_cons]
      by_cases hlate : Late cur p
      · have hmin : -1 ≤ sc.min := by
          rcases hsc with hf | hw
          · rw [hf.1]
            decide
          · unfold Waiting at hw
            omega
        have hlt := hlate.1
        have hnot : ¬ Found cur ⟨p.secs - cur, some p, true⟩ := fun hf => by
          have h0 : p.secs - cur = 0 := hf.1
          omega
        rw [look_of_late hlate h hmin, preempted_cons_of_late hlate]
        by_cases hone : p.secs = cur - 1
        · have hwaiting : Waiting ⟨p.secs - cur, some p, true⟩ := .inl (by dsimp only; omega)
          rw [found_foldl_of_firstAlarm hcur hrest rfl (.inr hwaiting), or_iff_right hnot,
            List.exists_mem_cons_iff, and_iff_right hone]
          exact ⟨fun hq => ⟨hq, .inr (.inr hq)⟩, And.left⟩
        · rw [foldl_of_lost hcur hrest rfl (by dsimp only; omega)]
          exact iff_of_false hnot fun hq => hone hq.1.1
      · obtain ⟨hnext, hiff⟩ := found_or_waiting_look hcur hp.1 (.inr hlate) hsc
        have hfirst : (sc.look cur p).firstAlarm = false := by
          rw [look_firstAlarm (.inr hlate), h]
        rw [ih hrest hfirst hnext, hiff, preempted_cons_of_not_late hlate, or_assoc,
          List.exists_mem_cons_iff]

theorem Scan.Tracks.look (h : sc.Tracks cur ∨ sc.min = -1) : (sc.look cur p).Tracks cur := by
  rw [look_eq]
  split
  · intro hneg q hq
    obtain rfl := Option.some.inj hq
    exact lookAt_neg hneg
  · rcases h with ht | hmin
    · exact ht
    · omega

theorem Scan.tracks_foldl {l : List AlarmSec} (h : sc.Tracks cur) :
    (l.foldl (Scan.look cur) sc).Tracks cur := by
  induction l generalizing sc with
  | nil => exact h
  | cons p rest ih => exact ih (Tracks.look (.inl h))

end Scan

/-- `get_latest_alarm_time` reports an alarm that rings now. -/
def Due (now : Tm) (st : State) : Prop :=
  (getLatestAlarmTime now st).1 = 0 ∧
    ∃ p, (getLatestAlarmTime now st).2.1 = some p ∧ p.secs = now.weekSecs

/-- No alarm that is late keeps one that rings now from being reported. -/
def Clear (now : Tm) (st : State) : Prop :=
  st.firstAlarm = true ∨ preempted now.weekSecs st.secList = false

theorem nextRing_of_nonneg (now : Tm) (firstRing : Bool) {min : ℤ} (h : 0 ≤ min) :
    nextRing now firstRing min = (min, firstRing) := by
  rw [nextRing, if_neg (by omega)]

theorem due_iff_found (now : Tm) {st : State} (hne : st.secList ≠ []) :
    Due now st ↔
      (st.secList.foldl (Scan.look now.weekSecs) ⟨-1, st.alarmCur, st.firstAlarm⟩).Found
        now.weekSecs := by
  have htracks :
      (st.secList.foldl (Scan.look now.weekSecs) ⟨-1, st.alarmCur, st.firstAlarm⟩).Tracks
        now.weekSecs := by
    cases hlist : st.secList with
    | nil => exact absurd hlist hne
    | cons p rest =>
        rw [List.foldl_cons]
        exact Scan.tracks_foldl (Scan.Tracks.look (.inr rfl))
  simp only [Due, getLatestAlarmTime, if_neg hne]
  generalize st.secList.foldl _ _ = sc at htracks ⊢
  by_cases hneg : sc.min < 0
  · constructor
    · rintro ⟨h0, p, hp, hpcur⟩
      rw [if_pos h0] at hp
      exact absurd hpcur (Int.ne_of_lt (htracks hneg p hp))
    · intro hfound
      exact absurd hfound.1 (by omega)
  · rw [nextRing_of_nonneg now st.firstRing (by omega)]
    constructor
    · rintro ⟨h0, p, hp, hpcur⟩
      rw [if_pos h0] at hp
      exact ⟨h0, p, hp, hpcur⟩
    · rintro ⟨h0, p, hp, hpcur⟩
      refine ⟨h0, p, ?_, hpcur⟩
      rw [if_pos h0, hp]

/-- An alarm of the list that rings now is reported, if no other one is in its way. -/
theorem due_iff_clear (now : Tm) {st : State} (hl : InWeek st.secList)
    (hrings : ∃ p ∈ st.secList, p.secs = now.weekSecs) : Due now st ↔ Clear now st := by
  have hcur := now.weekSecs_bounds.2
  have hne : st.secList ≠ [] := by
    obtain ⟨p, hp, -⟩ := hrings
    exact List.ne_nil_of_mem hp
  have hwaiting : Scan.Waiting ⟨-1, st.alarmCur, st.firstAlarm⟩ := .inl rfl
  rw [due_iff_found now hne, Clear]
  cases hfirst : st.firstAlarm with
  | true =>
      rw [hfirst] at hwaiting
      rw [Scan.found_foldl_of_firstAlarm hcur hl rfl (.inr hwaiting)]
      simp [hrings]
  | false =>
      rw [hfirst] at hwaiting
      rw [Scan.found_foldl hcur hl rfl (.inr hwaiting)]
      simp [hrings]

/-! ### Runs -/

/-- The list has an alarm that rings `snoozetime` after `t`. -/
def Pending (zone : ℕ → ℤ) (t snoozetime : ℕ) (st : State) : Prop :=
  ∃ p ∈ st.secList, p.secs = (localtime zone t).weekSecs + snoozetime

theorem weekSecs_localtime_add {zone : ℕ → ℤ} {t s : ℕ} (hzone : zone (t + s) = zone t)
    (h : (localtime zone t).weekSecs + s < WEEK) :
    (localtime zone (t + s)).weekSecs = (localtime zone t).weekSecs + s := by
  rw [weekSecs_localtime, weekSecs_localtime, hzone] at *
  unfold WEEK at *
  omega

theorem pending_update {zone : ℕ → ℤ} {t snoozetime : ℕ} {fireAlarm : ℤ}
    {l : List AlarmSec} (h : ∃ p ∈ l, p.secs = fireAlarm) :
    ∃ p ∈ updateAlarmSecList (localtime zone t) fireAlarm snoozetime l,
      p.secs = (localtime zone t).weekSecs + snoozetime := by
  induction l with
  | nil =>
      obtain ⟨p, hp, -⟩ := h
      exact absurd hp List.not_mem_nil
  | cons p rest ih =>
      rw [updateAlarmSecList]
      by_cases hfire : p.secs = fireAlarm
      · rw [if_pos hfire]
        exact ⟨_, List.mem_cons_self, rfl⟩
      · rw [if_neg hfire, List.exists_mem_cons_iff]
        rw [List.exists_mem_cons_iff, or_iff_right hfire] at h
        exact .inr (ih h)

/-- Every alarm rings within the week throughout a run exactly if no snooze passes the
end of the week. In such a run a snoozed alarm is in the list with its new time, and as
long as it is, it is reported at that time exactly if no late alarm is in its way. -/
theorem inWeek_run_iff (zone : ℕ → ℤ) (db : List AlarmDb) (now : Tm) (ring : Option Tm)
    (es : List Event) :
    ((∀ fs, fs <+: es → InWeek (Run.run (step zone) (alarmInit db now ring) fs).secList) ↔
      Run.Meets (step zone) (WithinWeek zone) (alarmInit db now ring) es) ∧
    (Run.Meets (step zone) (WithinWeek zone) (alarmInit db now ring) es →
      ∀ fs gs t fireAlarm snoozetime, es = fs ++ .update t fireAlarm snoozetime :: gs →
        zone (t + snoozetime) = zone t →
        (∃ p ∈ (Run.run (step zone) (alarmInit db now ring) fs).secList,
          p.secs = fireAlarm) →
        Pending zone t snoozetime (Run.run (step zone) (alarmInit db now ring)
          (fs ++ [.update t fireAlarm snoozetime])) ∧
        (Pending zone t snoozetime (Run.run (step zone) (alarmInit db now ring) es) →
          (Due (localtime zone (t + snoozetime))
              (Run.run (step zone) (alarmInit db now ring) es) ↔
            Clear (localtime zone (t + snoozetime))
              (Run.run (step zone) (alarmInit db now ring) es)))) := by
  have hinit : InWeek (alarmInit db now ring).secList := inWeek_creatAlarmSecList db now ring
  have hiff := @Run.forall_prefix_iff_meets State Event (step zone) (WithinWeek zone)
    (fun _ => True) (fun st => InWeek st.secList) (fun _ _ h => h)
    (fun st e _ h => inWeek_step_iff zone st e h) _ trivial hinit es
  refine ⟨hiff, ?_⟩
  rintro hmeets fs gs t fireAlarm snoozetime rfl hzone hlisted
  have hrest := ((Run.meets_append _ _ _ fs _).mp hmeets).2
  have hsnooze := hrest.1 hlisted
  have hadd := weekSecs_localtime_add hzone hsnooze
  constructor
  · rw [Run.run_append]
    exact pending_update hlisted
  · intro hpending
    have hweek := hiff.mpr hmeets _ (List.prefix_refl _)
    refine due_iff_clear _ hweek ?_
    rw [hadd]
    exact hpending

def utc : ℕ → ℤ := fun _ => 0

def weeklyAlarm (id hour min dayofweek : ℕ) (hhour : hour < 24) (hmin : min < 60) :
    AlarmDb where
  id := id
  hour := hour
  min := min
  dayofweek := dayofweek
  enable := true
  vibrate := 0
  alert := ""
  hour_lt := hhour
  min_lt := hmin

/-- An alarm on Sunday at 23:55, snoozed for ten minutes when it rings. -/
def sundaySnooze : State :=
  Run.run (step utc)
    (alarmInit [weeklyAlarm 1 23 55 64 (by decide) (by decide)] (localtime utc 345280) none)
    [.latest 345300, .update 345300 604500 600]

/-- Alarms on Monday at 7:00 and 7:09, the first one snoozed for ten minutes. -/
def mondaySnooze : State :=
  Run.run (step utc)
    (alarmInit [weeklyAlarm 1 7 0 1 (by decide) (by decide),
        weeklyAlarm 2 7 9 1 (by decide) (by decide)] (localtime utc 370780) none)
    [.latest 370800, .update 370800 25200 600]

/-- The time of the first alarm lies behind the end of the week, and when it should ring
it is a week away. Of the two on Monday the one at 7:09 is reported at 7:10. -/
theorem snooze_missed :
    (sundaySnooze.secList.map (·.secs) = [WEEK + 300] ∧
      (getLatestAlarmTime (localtime utc 345900) sundaySnooze).1 = WEEK) ∧
    (mondaySnooze.secList.map (·.secs) = [25800, 25740] ∧
      (getLatestAlarmTime (localtime utc 371400) mondaySnooze).2.1.map (·.secs) =
        some 25740) := by
  decide +kernel

end Alarm

end Tarako
