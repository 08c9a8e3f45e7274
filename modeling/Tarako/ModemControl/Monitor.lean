import Tarako.Lib.Run
import Tarako.Lib.Text

/-!
# Signals to the monitor

The modem manager polls the state of the modem and tells the monitor process when a
reset of the modem begins (`SIGUSR1`) and when the modem is alive again (`SIGUSR2`).
The two signals are meant to take turns. They do along every run in which no reset
is reported to a modem that is taken to be alive, the first message that says the
modem is alive reports no reset, and the monitor is found each time
(`signals_alternate_of_resetsSeen`).
-/

namespace Tarako

namespace ModemControl

inductive ModemSta where
  | shutdown
  | boot
  | init
  | alive
  | assert
  | bootcomp
  deriving DecidableEq

inductive Signal where
  | sigusr1
  | sigusr2
  deriving DecidableEq

/-- The statics of the modem manager, the signals it has sent to the monitor and
what it has written to its clients. -/
structure Manager where
  modemState : ModemSta
  flashLessFlag : ℕ
  signals : List Signal
  broadcasts : List (List UInt8)

namespace Manager

/-- The state in which `main` enters its loop. -/
def start : Manager := ⟨.init, 0xff, [], []⟩

/-- `if (pid > 0) kill(pid, sig)`. -/
def kill (s : Manager) (pid : ℤ) (sig : Signal) : Manager :=
  if 0 < pid then { s with signals := s.signals ++ [sig] } else s

def broadcastModemState (s : Manager) (message : List UInt8) : Manager :=
  { s with broadcasts := s.broadcasts ++ [message] }

/-- The check for a flash-less modem: the new `flash_less_flag` and `first_alive`. -/
def flashLess (flag : ℕ) (alive : ℤ) : ℕ × Bool :=
  if flag = 0xff then
    if alive = 1 then (0, true) else (1, false)
  else if flag = 1 ∧ alive = 1 then (2, true)
  else (flag, false)

end Manager

/-- What one turn of the loop of `main` finds: the number in the state file, or
nothing when it is empty or cannot be read; the result of `get_task_pid`; and what
`get_modem_assert_information` reads from the modem. -/
structure ModemTurn where
  message : Option ℤ
  pid : ℤ
  assertInfo : List UInt8

namespace Manager

def switchModemState (s : Manager) (alive reset : ℤ) (firstAlive : Bool) (t : ModemTurn) :
    Manager :=
  match s.modemState with
  | .init =>
      if reset = 0 then
        if alive = 1 then
          let s := { s with modemState := .alive }
          if firstAlive then s else s.kill t.pid .sigusr2
        else { s with modemState := .boot }
      else s
  | .assert =>
      if reset = 1 then { s.kill t.pid .sigusr1 with modemState := .boot } else s
  | .bootcomp =>
      if reset = 0 ∧ alive = 1 then
        let s := { s with modemState := .alive }
        let s := s.broadcastModemState "Modem Alive".toUTF8.toList
        if firstAlive then s else s.kill t.pid .sigusr2
      else s
  | .alive =>
      let s :=
        if alive = 0 then
          let s := { s with modemState := .assert }
          if t.assertInfo ≠ [] then s.broadcastModemState (Text.cstring t.assertInfo)
          else s.broadcastModemState "Modem Assert\n".toUTF8.toList
        else s
      if reset = 1 then { s with modemState := .boot } else s
  | .shutdown | .boot => s

def processModemStateMessage (s : Manager) (ret : ℤ) (t : ModemTurn) : Manager :=
  if ret < 0 then s
  else
    let (flag, firstAlive) := flashLess s.flashLessFlag (ret % 2)
    switchModemState { s with flashLessFlag := flag } (ret % 2) (ret / 2) firstAlive t

/-- `modem_boot` and what follows it, when a boot is due. -/
def modemBoot (s : Manager) : Manager :=
  if s.modemState = .boot then { s with modemState := .bootcomp } else s

/-- One turn of the loop of `main`. -/
def step (s : Manager) (t : ModemTurn) : Manager :=
  match t.message with
  | some ret => (s.processModemStateMessage ret t).modemBoot
  | none => s.modemBoot

end Manager

/-! ## Signals that take turns -/

def Signal.other : Signal → Signal
  | .sigusr1 => .sigusr2
  | .sigusr2 => .sigusr1

/-- The signals take turns, beginning with the first argument. -/
def Alternates : Signal → List Signal → Prop
  | _, [] => True
  | next, sig :: sigs => sig = next ∧ Alternates next.other sigs

/-- The signal whose turn it is after `sigs`. -/
def nextSignal (first : Signal) (sigs : List Signal) : Signal :=
  sigs.foldl (fun next _ => next.other) first

theorem nextSignal_append_singleton (first : Signal) (sigs : List Signal) (sig : Signal) :
    nextSignal first (sigs ++ [sig]) = (nextSignal first sigs).other := by
  simp [nextSignal]

theorem alternates_append_singleton (first : Signal) (sigs : List Signal) (sig : Signal) :
    Alternates first (sigs ++ [sig]) ↔
      Alternates first sigs ∧ sig = nextSignal first sigs := by
  induction sigs generalizing first with
  | nil => simp [Alternates, nextSignal]
  | cons x sigs ih =>
      rw [List.cons_append, Alternates, Alternates, ih, and_assoc]
      rfl

theorem Alternates.left {first : Signal} {sigs rest : List Signal}
    (h : Alternates first (sigs ++ rest)) : Alternates first sigs := by
  induction sigs generalizing first with
  | nil => trivial
  | cons x sigs ih => exact ⟨h.1, ih h.2⟩

theorem Alternates.sigusr1_before {sigs rest : List Signal}
    (h : Alternates .sigusr1 (sigs ++ .sigusr2 :: rest)) :
    ∃ before, sigs = before ++ [.sigusr1] := by
  rcases List.eq_nil_or_concat sigs with rfl | ⟨before, last, hsigs⟩
  · exact absurd h.1 (by decide)
  · rw [List.concat_eq_append] at hsigs
    subst hsigs
    refine ⟨before, ?_⟩
    have htwo : Alternates .sigusr1 (before ++ [last] ++ [.sigusr2]) :=
      @Alternates.left _ _ rest (by simpa using h)
    rw [alternates_append_singleton, nextSignal_append_singleton,
      alternates_append_singleton] at htwo
    obtain ⟨⟨-, hlast⟩, hother⟩ := htwo
    rw [← hlast] at hother
    cases last with
    | sigusr1 => rfl
    | sigusr2 => exact absurd hother (by decide)

/-! ## Runs -/

namespace Manager

/-- No message has said yet that the modem is alive. -/
def Fresh (s : Manager) : Prop := s.flashLessFlag = 0xff ∨ s.flashLessFlag = 1

/-- A turn sends a signal if the monitor is found. -/
def Signals (s : Manager) (ret : ℤ) : Prop :=
  s.modemState = .assert ∧ ret / 2 = 1 ∨
    (s.modemState = .init ∨ s.modemState = .bootcomp) ∧ ret = 1 ∧ ¬ s.Fresh

/-- No turn reports a reset to a modem that is taken to be alive, the first message
that says it is alive reports no reset, and the monitor is found when it is to be
told. -/
def ResetsSeen (s : Manager) (t : ModemTurn) : Prop :=
  ∀ ret, t.message = some ret → 0 ≤ ret →
    (s.modemState = .alive → ret / 2 ≠ 1) ∧
    (s.Fresh → ret % 2 = 1 → ret / 2 = 0) ∧
    (s.Signals ret → 0 < t.pid)

/-- The signals so far take turns, and it is known whose turn it is. -/
structure InTurn (s : Manager) : Prop where
  alternates : Alternates .sigusr1 s.signals
  fresh : s.Fresh → nextSignal .sigusr1 s.signals = .sigusr1 ∧
    (s.modemState = .init ∨ s.modemState = .boot ∨ s.modemState = .bootcomp)
  told : ¬ s.Fresh →
    nextSignal .sigusr1 s.signals = .sigusr1 ∧
      (s.modemState = .alive ∨ s.modemState = .assert) ∨
    nextSignal .sigusr1 s.signals = .sigusr2 ∧
      (s.modemState = .boot ∨ s.modemState = .bootcomp)

variable {s : Manager}

theorem flashLess_of_fresh (h : s.Fresh) (alive : ℤ) :
    flashLess s.flashLessFlag alive =
      if alive = 1 then (if s.flashLessFlag = 0xff then 0 else 2, true) else (1, false) := by
  rcases h with h | h
  · simp [flashLess, h]
  · by_cases ha : alive = 1 <;> simp [flashLess, h, ha]

theorem flashLess_of_not_fresh (h : ¬ s.Fresh) (alive : ℤ) :
    flashLess s.flashLessFlag alive = (s.flashLessFlag, false) := by
  rw [Fresh, not_or] at h
  simp [flashLess, h.1, h.2]

theorem inTurn_start : start.InTurn :=
  ⟨trivial, fun _ => ⟨rfl, .inl rfl⟩, fun h => absurd (.inl rfl) h⟩

theorem InTurn.modemBoot (h : s.InTurn) : s.modemBoot.InTurn := by
  by_cases hboot : s.modemState = .boot
  · rw [Manager.modemBoot, if_pos hboot]
    refine ⟨h.alternates, fun hf => ⟨(h.fresh hf).1, .inr (.inr rfl)⟩, fun hf => ?_⟩
    rcases h.told hf with ⟨-, hstate⟩ | ⟨hnext, -⟩
    · simp [hboot] at hstate
    · exact .inr ⟨hnext, .inr rfl⟩
  · rwa [Manager.modemBoot, if_neg hboot]

theorem alternates_send {sigs : List Signal} (h : Alternates .sigusr1 sigs) {sig : Signal}
    (hnext : nextSignal .sigusr1 sigs = sig) :
    Alternates .sigusr1 (sigs ++ [sig]) ∧
      nextSignal .sigusr1 (sigs ++ [sig]) = sig.other := by
  rw [alternates_append_singleton, nextSignal_append_singleton, hnext]
  exact ⟨⟨h, rfl⟩, rfl⟩

theorem InTurn.process_of_fresh (h : s.InTurn) (hboot : s.modemState ≠ .boot)
    (hf : s.Fresh) {ret : ℤ} (t : ModemTurn) (hret : 0 ≤ ret)
    (hfirst : ret % 2 = 1 → ret / 2 = 0) : (s.processModemStateMessage ret t).InTurn := by
  obtain ⟨hnext, hstate⟩ := h.fresh hf
  have halt := h.alternates
  rw [processModemStateMessage, if_neg (by omega), flashLess_of_fresh hf]
  obtain ⟨state, flag, sigs, bcs⟩ := s
  by_cases halive : ret % 2 = 1
  · have hold : ∀ st bs, ¬ Fresh ⟨st, if flag = 0xff then 0 else 2, sigs, bs⟩ := by
      intro st bs
      by_cases hflag : flag = 0xff <;> simp [Fresh, hflag]
    rw [if_pos halive]
    rcases hstate with rfl | rfl | rfl
    · simp only [switchModemState, hfirst halive, halive, if_true]
      exact ⟨halt, fun hf' => absurd hf' (hold _ _), fun _ => .inl ⟨hnext, .inl rfl⟩⟩
    · exact absurd rfl hboot
    · simp only [switchModemState, hfirst halive, halive, if_true, and_self,
        broadcastModemState]
      exact ⟨halt, fun hf' => absurd hf' (hold _ _), fun _ => .inl ⟨hnext, .inl rfl⟩⟩
  · have hnew : ∀ st, Fresh ⟨st, 1, sigs, bcs⟩ := fun st => .inr rfl
    rw [if_neg halive]
    rcases hstate with rfl | rfl | rfl
    · simp only [switchModemState, halive, if_false]
      split_ifs
      · exact ⟨halt, fun _ => ⟨hnext, .inr (.inl rfl)⟩, fun hf' => absurd (hnew _) hf'⟩
      · exact ⟨halt, fun _ => ⟨hnext, .inl rfl⟩, fun hf' => absurd (hnew _) hf'⟩
    · exact absurd rfl hboot
    · simp only [switchModemState, halive, and_false, if_false]
      exact ⟨halt, fun _ => ⟨hnext, .inr (.inr rfl)⟩, fun hf' => absurd (hnew _) hf'⟩

theorem InTurn.process_of_not_fresh (h : s.InTurn) (hboot : s.modemState ≠ .boot)
    (hf : ¬ s.Fresh) {ret : ℤ} {t : ModemTurn} (hret : 0 ≤ ret)
    (hreset : s.modemState = .alive → ret / 2 ≠ 1) (hpid : s.Signals ret → 0 < t.pid) :
    (s.processModemStateMessage ret t).InTurn := by
  have halt := h.alternates
  have htold := h.told hf
  rw [processModemStateMessage, if_neg (by omega), flashLess_of_not_fresh hf]
  obtain ⟨state, flag, sigs, bcs⟩ := s
  have hold : ∀ st sg bs, ¬ Fresh ⟨st, flag, sg, bs⟩ := fun _ _ _ => hf
  rcases htold with ⟨hnext, rfl | rfl⟩ | ⟨hnext, rfl | rfl⟩
  · simp only [switchModemState, hreset rfl, if_false, broadcastModemState]
    split_ifs
    · exact ⟨halt, fun hf' => absurd hf' (hold _ _ _), fun _ => .inl ⟨hnext, .inr rfl⟩⟩
    · exact ⟨halt, fun hf' => absurd hf' (hold _ _ _), fun _ => .inl ⟨hnext, .inr rfl⟩⟩
    · exact ⟨halt, fun hf' => absurd hf' (hold _ _ _), fun _ => .inl ⟨hnext, .inl rfl⟩⟩
  · simp only [switchModemState]
    split_ifs with hone
    · obtain ⟨halt', hother⟩ := alternates_send halt hnext
      simp only [kill, if_pos (hpid (.inl ⟨rfl, hone⟩))]
      exact ⟨halt', fun hf' => absurd hf' (hold _ _ _), fun _ => .inr ⟨hother, .inl rfl⟩⟩
    · exact ⟨halt, fun hf' => absurd hf' (hold _ _ _), fun _ => .inl ⟨hnext, .inr rfl⟩⟩
  · exact absurd rfl hboot
  · simp only [switchModemState, Bool.false_eq_true, if_false]
    split_ifs with hone
    · obtain ⟨halt', hother⟩ := alternates_send halt hnext
      simp only [kill, if_pos (hpid (.inr ⟨.inr rfl, by omega, hf⟩)), broadcastModemState]
      exact ⟨halt', fun hf' => absurd hf' (hold _ _ _), fun _ => .inl ⟨hother, .inl rfl⟩⟩
    · exact ⟨halt, fun hf' => absurd hf' (hold _ _ _), fun _ => .inr ⟨hnext, .inr rfl⟩⟩

theorem modemBoot_ne_boot (s : Manager) : s.modemBoot.modemState ≠ .boot := by
  unfold Manager.modemBoot
  split_ifs with h
  · exact ModemSta.noConfusion
  · exact h

theorem InTurn.step (h : s.InTurn) (hboot : s.modemState ≠ .boot) {t : ModemTurn}
    (ht : s.ResetsSeen t) : (s.step t).InTurn := by
  unfold Manager.step
  cases hmessage : t.message with
  | none => exact h.modemBoot
  | some ret =>
      apply InTurn.modemBoot
      by_cases hret : 0 ≤ ret
      · obtain ⟨hreset, hfirst, hpid⟩ := ht ret hmessage hret
        by_cases hf : s.Fresh
        · exact h.process_of_fresh hboot hf t hret (hfirst hf)
        · exact h.process_of_not_fresh hboot hf hret hreset hpid
      · rwa [processModemStateMessage, if_pos (by omega)]

theorem step_ne_boot (s : Manager) (t : ModemTurn) : (s.step t).modemState ≠ .boot := by
  unfold Manager.step
  cases t.message with
  | none => exact modemBoot_ne_boot s
  | some ret => exact modemBoot_ne_boot _

end Manager

/-- Along a run in which every reset is seen, the signals take turns in every state: a
`SIGUSR1` comes first, and right before each `SIGUSR2`. -/
theorem signals_alternate_of_resetsSeen {es fs : List ModemTurn} (hfs : fs <+: es)
    (hes : Run.Meets Manager.step Manager.ResetsSeen Manager.start es) :
    Alternates .sigusr1 (Run.run Manager.step Manager.start fs).signals ∧
      ∀ sigs rest, (Run.run Manager.step Manager.start fs).signals = sigs ++ .sigusr2 :: rest →
        ∃ before, sigs = before ++ [.sigusr1] := by
  have hinv := @Run.invariant_prefix _ _ _ _ (fun s => s.InTurn ∧ s.modemState ≠ .boot)
    (fun s t ht h => ⟨h.1.step h.2 ht, s.step_ne_boot t⟩) _ _ _ hfs hes
    ⟨Manager.inTurn_start, by decide⟩
  have halt := hinv.1.alternates
  exact ⟨halt, fun sigs rest heq => Alternates.sigusr1_before (heq ▸ halt)⟩

theorem signals_alternate_reset :
    let es : List ModemTurn :=
      [⟨some 1, 7, []⟩, ⟨some 0, 7, []⟩, ⟨some 2, 7, []⟩, ⟨some 1, 7, []⟩]
    Alternates .sigusr1 (Run.run Manager.step Manager.start es).signals := by
  intro es
  refine (@signals_alternate_of_resetsSeen es es List.prefix_rfl ?_).1
  simp [es, Run.Meets, Manager.ResetsSeen, Manager.start, Manager.step, Manager.modemBoot,
    Manager.processModemStateMessage, Manager.switchModemState, Manager.flashLess,
    Manager.broadcastModemState]

/-- A reset that is reported to a modem taken to be alive is not signalled, the end of
it is: the only signal of the run is a `SIGUSR2`. -/
theorem signals_reset_while_alive :
    let es : List ModemTurn := [⟨some 1, 7, []⟩, ⟨some 2, 7, []⟩, ⟨some 1, 7, []⟩]
    (Run.run Manager.step Manager.start es).signals = [.sigusr2] ∧
      ¬ Alternates .sigusr1 (Run.run Manager.step Manager.start es).signals := by
  have hsignals : (Run.run Manager.step Manager.start
      [⟨some 1, 7, []⟩, ⟨some 2, 7, []⟩, ⟨some 1, 7, []⟩]).signals = [.sigusr2] := rfl
  refine ⟨hsignals, ?_⟩
  rw [hsignals]
  exact fun h => absurd h.1 (by decide)

end ModemControl

end Tarako
