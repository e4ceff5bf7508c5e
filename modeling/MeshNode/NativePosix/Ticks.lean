import MeshNode.Lib.Periodic
import MeshNode.NativePosix.Timers

/-!
# The system tick

* `simuTime_le_of_run`: simulated time never goes back;
* `Timers.Updated`: the timer of the tick and the wake-up is the earlier of the two;
* `PeriodicView`, `on_schedule`: a timer of the board that is a periodic timer is on schedule;
* `Raises`, `premask_of_fired`: a timer that is reached raises its line, or raises nothing;
* **`ticks_on_schedule`**, **`silent_ticks`**: when the tick comes, and when it is silent.
-/

namespace MeshNode

open Interact

variable {F : Type}

/-! ### Simulated time -/

theorem simuTime_timerCall (c : TimerCall) (h : Hw) : (c.apply h).simuTime = h.simuTime := by
  cases c with
  | hwtimerWakeInTime time =>
    rw [TimerCall.apply, Hw.hwtimerWakeInTime]
    split_ifs <;> rfl
  | hwCounterStart =>
    rw [TimerCall.apply, Hw.hwCounterStart]
    split_ifs <;> rfl
  | _ => rfl

theorem irqCtrlTimer_timerCall (c : TimerCall) (h : Hw) :
    (c.apply h).irqCtrlTimer = h.irqCtrlTimer := by
  cases c with
  | hwtimerWakeInTime time =>
    rw [TimerCall.apply, Hw.hwtimerWakeInTime]
    split_ifs <;> rfl
  | hwCounterStart =>
    rw [TimerCall.apply, Hw.hwCounterStart]
    split_ifs <;> rfl
  | _ => rfl

namespace Timers

variable {s t : Timers} {a : TimerAct} {acts : List TimerAct}

theorem simuTime_apply (s : Timers) (a : TimerAct) : (s.apply a).hw.simuTime =
    if a = .sleep then max s.hw.simuTime s.hw.earliest else s.hw.simuTime := by
  cases a with
  | call c => exact simuTime_timerCall c s.hw
  | _ => rfl

theorem simuTime_le (h : Step s a t) : s.hw.simuTime ≤ t.hw.simuTime := by
  rw [h.2, simuTime_apply]
  split_ifs
  · exact le_max_left _ _
  · exact le_refl _

theorem simuTime_of_run (h : Step.Run s acts t) (hs : TimerAct.sleep ∉ acts) :
    t.hw.simuTime = s.hw.simuTime := by
  induction h with
  | nil => rfl
  | cons ha _ ih =>
    rw [List.mem_cons, not_or] at hs
    rw [ih hs.2, ha.2, simuTime_apply, if_neg (Ne.symm hs.1)]

theorem earliest_le_irqCtrlTimer (h : Hw) : h.earliest ≤ h.irqCtrlTimer :=
  (min_le_right _ _).trans (min_le_left _ _)

/-- `hw_timer_timer` is the earlier one of the tick timer and the wake-up timer. -/
def Updated (s : Timers) : Prop :=
  s.hw.timer.hwTimerTimer = min s.hw.timer.hwTimerTickTimer s.hw.timer.hwTimerAwakeTimer

theorem Updated.step (hs : s.Updated) (h : Step s a t) : t.Updated := by
  rw [h.2]
  cases a with
  | call c =>
    cases c with
    | hwtimerWakeInTime time =>
      rw [Updated, apply, TimerCall.apply, Hw.hwtimerWakeInTime]
      split_ifs
      · rfl
      · exact hs
    | hwCounterStart =>
      rw [Updated, apply, TimerCall.apply, Hw.hwCounterStart]
      split_ifs <;> exact hs
    | hwtimerEnable => exact rfl
    | _ => exact hs
  | tick b => cases b <;> exact rfl
  | awake => exact rfl
  | _ => exact hs

theorem add64_eq {a b : ℕ} (h : a + b < 2 ^ 64) : add64 a b = a + b := Nat.mod_eq_of_lt h

theorem earliest_le_tick (hs : s.Updated) : s.hw.earliest ≤ s.hw.timer.hwTimerTickTimer :=
  (min_le_left _ _).trans (hs.le.trans (min_le_left _ _))

theorem earliest_le_awake (hs : s.Updated) : s.hw.earliest ≤ s.hw.timer.hwTimerAwakeTimer :=
  (min_le_left _ _).trans (hs.le.trans (min_le_right _ _))

/-! ### Periodic timers -/

/-- The acts of a periodic timer that fires where `fired` has an answer. -/
def firing (fired : TimerAct → Option Bool) (a : TimerAct) : List Periodic.Act :=
  if a = .sleep then [.pass] else if (fired a).isSome then [.fire] else []

/-- One of the timers, as a periodic timer: what it is, when it fires, which calls leave it alone,
and what has to hold for it. -/
structure PeriodicView where
  view : Timers → Periodic.State
  fired : TimerAct → Option Bool
  Keeps : TimerAct → Prop
  Ok : Timers → Prop
  now (s : Timers) : (view s).now = s.hw.simuTime
  hidden (a : TimerAct) : a.isShown = false → fired a = none ∧ Keeps a
  step {s t : Timers} {a : TimerAct} : Ok s → Keeps a →
    s.hw.simuTime + (view s).period < 2 ^ 64 → Step s a t →
    Ok t ∧ Periodic.Step.Run (view s) (firing fired a) (view t)

namespace PeriodicView

variable (V : PeriodicView)

/-- **Every run** of the timers is a run of the periodic timer, unless the time overflows. -/
theorem run (ho : V.Ok s) (hk : ∀ a ∈ acts, V.Keeps a) (h : Step.Run s acts t)
    (hb : t.hw.simuTime + (V.view s).period < 2 ^ 64) :
    V.Ok t ∧ Periodic.Step.Run (V.view s) (acts.flatMap (firing V.fired)) (V.view t) := by
  have hrun := h.such (f := fun s => s.hw.simuTime) (fun _ _ _ => simuTime_le) hk (le_refl _)
  have hstep : ∀ u a v, (V.Ok u ∧ (V.view u).period = (V.view s).period) →
      (Step.such fun _ a v => V.Keeps a ∧ v.hw.simuTime ≤ t.hw.simuTime) u a v →
      (V.Ok v ∧ (V.view v).period = (V.view s).period) ∧
      Periodic.Step.Run (V.view u) (firing V.fired a) (V.view v) := by
    rintro u a v ⟨hu, hp⟩ ⟨⟨ha, hv⟩, h⟩
    have hle := simuTime_le h
    obtain ⟨hv, hr⟩ := V.step hu ha (by omega) h
    exact ⟨⟨hv, (Periodic.period_run hr).trans hp⟩, hr⟩
  obtain ⟨⟨ho', -⟩, hr⟩ := hrun.project hstep ⟨ho, rfl⟩
  exact ⟨ho', hr⟩

theorem count_firing (acts : List TimerAct) :
    (acts.flatMap (firing V.fired)).count .fire = (acts.filterMap V.fired).length := by
  induction acts with
  | nil => rfl
  | cons a acts ih =>
    have hsleep : V.fired .sleep = none := (V.hidden .sleep rfl).1
    rw [List.flatMap_cons, List.count_append, ih, List.filterMap_cons, firing]
    by_cases ha : a = .sleep
    · subst ha
      simp [hsleep]
    · rw [if_neg ha]
      cases V.fired a <;> simp [Nat.add_comm]

theorem pass_notMem_firing (h : TimerAct.sleep ∉ acts.tail) :
    Periodic.Act.pass ∉ (acts.flatMap (firing V.fired)).tail := by
  cases acts with
  | nil => simp
  | cons a acts =>
    have hp : Periodic.Act.pass ∉ acts.flatMap (firing V.fired) := by
      intro hp
      obtain ⟨b, hb, hp⟩ := List.mem_flatMap.mp hp
      have hne : b ≠ .sleep := fun e => h (e ▸ hb)
      rw [firing, if_neg hne] at hp
      split_ifs at hp <;> simp at hp
    intro hm
    refine hp ?_
    rw [List.flatMap_cons, firing] at hm
    split_ifs at hm
    · exact hm
    · exact hm
    · exact List.mem_of_mem_tail hm

end PeriodicView

end Timers

namespace Soc

open Timers

/-- What is made of the acts that are shown is made of what the steps show. -/
theorem filterMap_of_times {ls : List (Act F × List (Obs F))} {actss : List (List TimerAct)}
    {g : TimerAct → Option Bool} (hg : ∀ a, a.isShown = false → g a = none)
    (h : List.Forall₂ Times ls actss) :
    actss.flatten.filterMap g = (ls.flatMap timerActs).filterMap g := by
  rw [← shown_flatten h, List.filterMap_filter]
  refine List.filterMap_congr fun a _ => ?_
  split_ifs with ha
  · rfl
  · exact hg a (Bool.eq_false_of_not_eq_true ha)

variable {m m₁ m₂ : Soc F} {ls : List (Act F × List (Obs F))} {start period : ℕ}

/-- **Simulated time never goes back.** -/
theorem simuTime_le_of_run (hm : Timed m₁) (hr : Step.Run m₁ ls m₂) :
    m₁.hw.simuTime ≤ m₂.hw.simuTime := by
  obtain ⟨-, actss, hrun, -⟩ := timed_run hr hm
  exact Lts.Run.le (f := fun s : Timers => s.hw.simuTime) (fun _ _ _ => Timers.simuTime_le) hrun

/-- In one step, time passes up to the earliest timer at most. -/
theorem simuTime_step_le {l : Act F × List (Obs F)} (hm : Timed m₁) (hl : Step m₁ l m₂) :
    m₂.hw.simuTime ≤ max m₁.hw.simuTime m₁.hw.earliest := by
  obtain ⟨-, acts, hrun, -, hs⟩ := timed_step hm hl
  cases acts with
  | nil =>
    have e := congrArg (fun s : Timers => s.hw.simuTime) (Lts.run_nil_iff.mp hrun)
    exact e.le.trans (le_max_left _ _)
  | cons a acts =>
    obtain ⟨u, ha, hrun⟩ := Lts.run_cons_iff.mp hrun
    have e := simuTime_of_run hrun hs
    rw [ha.2, simuTime_apply] at e
    refine e.le.trans ?_
    split_ifs
    · exact le_refl _
    · exact le_max_left _ _

/-- The runs of a periodic timer between two states of the board. -/
theorem periodic_run (V : PeriodicView) (hm : Timed m₁) (ho : V.Ok m₁.timers)
    (hr : Step.Run m₁ ls m₂) (hk : ∀ a ∈ ls.flatMap timerActs, V.Keeps a)
    (hb : m₂.hw.simuTime + (V.view m₁.timers).period < 2 ^ 64) :
    V.Ok m₂.timers ∧ ∃ as, Periodic.Step.Run (V.view m₁.timers) as (V.view m₂.timers) ∧
      as.count .fire = ((ls.flatMap timerActs).filterMap V.fired).length ∧
      (ls.length = 1 → Periodic.Act.pass ∉ as.tail) := by
  obtain ⟨-, actss, hrun, hq⟩ := timed_run hr hm
  have hshown := shown_flatten hq
  have hk' : ∀ a ∈ actss.flatten, V.Keeps a := by
    intro a ha
    cases hs : a.isShown with
    | true => exact hk a (hshown ▸ List.mem_filter.mpr ⟨ha, hs⟩)
    | false => exact (V.hidden a hs).2
  obtain ⟨ho', hp⟩ := V.run ho hk' hrun hb
  refine ⟨ho', _, hp, ?_, fun h1 => ?_⟩
  · rw [V.count_firing, filterMap_of_times (fun a ha => (V.hidden a ha).1) hq]
  · obtain ⟨l, rfl⟩ := List.length_eq_one_iff.mp h1
    obtain ⟨acts, _, hl, hnil, rfl⟩ := List.forall₂_cons_left_iff.mp hq
    obtain rfl := List.forall₂_nil_left_iff.mp hnil
    exact V.pass_notMem_firing (by simpa using hl.2)

/-- **On schedule.** As long as no call moves the timer, and the time does not overflow, it fires at
the end of each period. -/
theorem on_schedule (V : PeriodicView) (hm : Timed m₁) (ho : V.Ok m₁.timers)
    (hs : V.view m₁.timers = ⟨start, start + period, period⟩) (hr : Step.Run m₁ ls m₂)
    (hk : ∀ a ∈ ls.flatMap timerActs, V.Keeps a) (hb : m₂.hw.simuTime + period < 2 ^ 64) {k : ℕ}
    (hkl : k = ((ls.flatMap timerActs).filterMap V.fired).length) :
    start + k * period ≤ m₂.hw.simuTime ∧ m₂.hw.simuTime ≤ start + (k + 1) * period ∧
    ∀ l ∈ ls.getLast?, ([l].flatMap timerActs).filterMap V.fired ≠ [] →
      m₂.hw.simuTime = start + k * period := by
  have hp : (V.view m₁.timers).period = period := by rw [hs]
  obtain ⟨-, as, hrun, hcount, -⟩ := periodic_run V hm ho hr hk (hp.symm ▸ hb)
  have hot := (Periodic.OnTime.started start period).run (hs ▸ hrun)
  rw [hcount, ← hkl, Nat.zero_add] at hot
  have hp₂ : (V.view m₂.timers).period = period := (Periodic.period_run hrun).trans hp
  have hn₂ : (V.view m₂.timers).now = m₂.hw.simuTime := V.now _
  refine ⟨by simpa only [hp₂, hn₂] using hot.fired, ?_, fun l hl hne => ?_⟩
  · simpa only [hp₂, hn₂, hot.due] using hot.now_le
  · obtain ⟨pre, rfl⟩ := List.getLast?_eq_some_iff.mp hl
    obtain ⟨n, hpre, hlast⟩ := Lts.run_append_iff.mp hr
    have hle := simuTime_le_of_run (timed_run hpre hm).1 hlast
    rw [List.flatMap_append] at hk
    obtain ⟨hk₁, hk₂⟩ := List.forall_mem_append.mp hk
    obtain ⟨hn, as₁, hrun₁, -⟩ := periodic_run V hm ho hpre hk₁ (by omega)
    have hpn := (Periodic.period_run hrun₁).trans hp
    obtain ⟨-, as₂, hrun₂, hcount₂, hpass⟩ :=
      periodic_run V (timed_run hpre hm).1 hn hlast hk₂ (hpn.symm ▸ hb)
    have hf : Periodic.Act.fire ∈ as₂ :=
      List.count_pos_iff.mp (hcount₂ ▸ List.length_pos_iff.mpr hne)
    have := hot.now_eq hrun₂ (hpass rfl) hf
    rwa [hp₂, hn₂] at this

end Soc

/-! ### What a timer raises -/

/-- The line of a timer that is reached, and whether it is raised. -/
def TimerAct.line : TimerAct → Option (ℕ × Bool)
  | .tick b => some (timerTickIrq, b)
  | .count b => some (counterEventIrq, b)
  | _ => none

namespace Soc

open Lines

/-- Where a timer is reached, its line is raised as it says, and no other one. -/
def Raises (m : Soc F) (r : Out F) : Prop :=
  ∀ a ∈ r.2.filterMap Obs.timerAct, ∀ irq b, a.line = some (irq, b) → ∀ i,
    i ∈ lines r.1.ctrl.irqPremask ↔ i ∈ lines m.ctrl.irqPremask ∨ b = true ∧ i = irq

variable {m m' : Soc F} {l : Act F × List (Obs F)}

theorem raises_of_shown {r : Out F} (h : r.2.filterMap Obs.timerAct = []) : Raises m r := by
  simp [Raises, h]

theorem mem_premask_hwIrqCtrlSetIrq (m : Soc F) {irq : ℕ} (h : irq < nIrqs) {i : ℕ} :
    i ∈ lines (m.hwIrqCtrlSetIrq irq).ctrl.irqPremask ↔ i ∈ lines m.ctrl.irqPremask ∨ i = irq := by
  have e : (m.hwIrqCtrlSetIrq irq).ctrl = m.ctrl.irqRaisePrefix irq := by
    unfold hwIrqCtrlSetIrq awakeInOneDelta
    dsimp only
    split_ifs <;> rfl
  rw [e, IrqCtrl.mem_premask_irqRaisePrefix]
  simp [h]

theorem raises_hwtimerTimerReached (m : Soc F) : Raises m m.hwtimerTimerReached := by
  have key : ∀ n : Soc F, n.ctrl.irqPremask = m.ctrl.irqPremask →
      Raises m n.hwtimerTickTimerReached := by
    intro n hn a ha irq b hab i
    rw [hwtimerTickTimerReached_eq] at ha ⊢
    split_ifs at ha ⊢ with hs
    · obtain rfl : a = .tick false := by simpa [Obs.timerAct] using ha
      obtain ⟨rfl, rfl⟩ := Prod.mk.inj (Option.some.inj hab)
      simp [hn]
    · obtain rfl : a = .tick true := by simpa [Out.andThen, thenSetIrq, Obs.timerAct] using ha
      obtain ⟨rfl, rfl⟩ := Prod.mk.inj (Option.some.inj hab)
      simp only [Out.andThen, thenSetIrq,
        mem_premask_hwIrqCtrlSetIrq _ (by decide : timerTickIrq < _), hn, true_and]
  unfold hwtimerTimerReached
  dsimp only
  split_ifs
  · refine key _ ?_
    rw [hwtimerAwakeTimerReached_eq]
  · exact raises_of_shown rfl
  · exact key _ rfl
  · exact raises_of_shown rfl

theorem raises_hwCounterTriggered (m : Soc F) : Raises m m.hwCounterTriggered := by
  intro a ha irq b hab i
  rw [hwCounterTriggered_eq] at ha ⊢
  split_ifs at ha ⊢
  · simp at ha
  · obtain rfl : a = .count true := by simpa [Out.andThen, thenSetIrq, Obs.timerAct] using ha
    obtain ⟨rfl, rfl⟩ := Prod.mk.inj (Option.some.inj hab)
    simp only [Out.andThen, thenSetIrq, true_and,
      mem_premask_hwIrqCtrlSetIrq _ (by decide : counterEventIrq < _)]
  · obtain rfl : a = .count false := by simpa [Obs.timerAct] using ha
    obtain ⟨rfl, rfl⟩ := Prod.mk.inj (Option.some.inj hab)
    simp

/-- **The switch of an event** raises the line of the timer that was reached. -/
theorem raises_hwmSwitch (m : Soc F) : Raises m m.hwmSwitch := by
  unfold hwmSwitch
  split
  · exact raises_hwtimerTimerReached m
  · rcases m.hwIrqCtrlTimerTriggered_cases with ⟨-, e⟩ | ⟨-, e⟩ <;> rw [e]
    · exact raises_of_shown rfl
    · -- only the CPU is woken here
      intro a ha irq b hab
      rw [Out.andThen, List.filterMap_append, (untimed_posixIrqHandler _).shown] at ha
      obtain rfl : a = .answer true := by simpa [Obs.timerAct] using ha
      cases hab
  · exact raises_hwCounterTriggered m
  · exact raises_of_shown rfl

/-- **A timer that is reached** raises its line, where it says so, and no step in which it is
reached changes anything else of what is raised. -/
theorem premask_of_fired (h : Step m l m') {a : TimerAct} (ha : a ∈ timerActs l) {irq : ℕ} {b : Bool}
    (hb : a.line = some (irq, b)) (i : ℕ) :
    i ∈ lines m'.ctrl.irqPremask ↔ i ∈ lines m.ctrl.irqPremask ∨ b = true ∧ i = irq := by
  suffices hr : Raises m (m', l.2) by
    rcases List.mem_append.mp ha with ha | ha
    · obtain ⟨c, -, rfl⟩ := List.mem_map.mp ha
      cases hb
    · exact hr a ha irq b hb i
  obtain ⟨act, o⟩ := l
  rcases step_eq_some.mp h with ⟨-, h⟩ | ⟨-, rfl, h⟩ | ⟨-, rfl, h⟩
  · rcases swStep_cases h with ⟨-, hu⟩ | ⟨-, irq, e⟩ | ⟨c, -, e⟩ | ⟨-, e⟩
    · exact raises_of_shown hu.shown
    all_goals exact raises_of_shown (by rw [(Prod.mk.inj e).2]; rfl)
  · obtain ⟨o', e, ho', -⟩ := m.hwmSleepUntilNextTimer_eq
    have hs := raises_hwmSwitch m.hwmSleepUntilNextTimer.1
    rw [hwmOneEvent_eq] at h
    split_ifs at h
    · obtain ⟨rfl, rfl⟩ := Prod.mk.inj h
      intro a ha irq b hab i
      have hfind : ∀ n : Soc F, n.hwmEventEnd.ctrl = n.ctrl := by
        intro n
        unfold hwmEventEnd
        split_ifs <;> rfl
      rw [List.filterMap_append, e, ho', List.nil_append, ← e] at ha
      rw [hfind, hs a ha irq b hab i, e]
    · exact raises_of_shown (by rw [← (Prod.mk.inj (e.symm.trans h)).2]; exact ho')
  · exact raises_of_shown (by rw [(Prod.mk.inj h).2]; rfl)

end Soc

/-! ### The system tick -/

/-- The system tick, with whether it comes with an interrupt. -/
def TimerAct.ticked : TimerAct → Option Bool
  | .tick b => some b
  | _ => none

/-- The system ticks of a run, with whether they come with an interrupt. -/
def ticks (ls : List (Act F × List (Obs F))) : List Bool :=
  (ls.flatMap timerActs).filterMap TimerAct.ticked

namespace Timers

theorem tick_step {s t : Timers} {a : TimerAct}
    (ho : s.Updated ∧ s.hw.simuTime ≤ s.hw.timer.hwTimerTickTimer)
    (ha : ∀ p, a ≠ .call (.hwtimerEnable p)) (hb : s.hw.simuTime + s.hw.timer.tickP < 2 ^ 64)
    (h : Step s a t) : (t.Updated ∧ t.hw.simuTime ≤ t.hw.timer.hwTimerTickTimer) ∧
      Periodic.Step.Run ⟨s.hw.simuTime, s.hw.timer.hwTimerTickTimer, s.hw.timer.tickP⟩
        (firing TimerAct.ticked a)
        ⟨t.hw.simuTime, t.hw.timer.hwTimerTickTimer, t.hw.timer.tickP⟩ := by
  have key : Periodic.Step.Run ⟨s.hw.simuTime, s.hw.timer.hwTimerTickTimer, s.hw.timer.tickP⟩
      (firing TimerAct.ticked a)
      ⟨t.hw.simuTime, t.hw.timer.hwTimerTickTimer, t.hw.timer.tickP⟩ := by
    obtain ⟨hu, hd⟩ := ho
    obtain ⟨hdue, rfl⟩ := h
    cases a with
    | call c =>
      cases c with
      | hwtimerEnable p => exact absurd rfl (ha p)
      | hwtimerWakeInTime time =>
        rw [apply, TimerCall.apply, Hw.hwtimerWakeInTime]
        split_ifs <;> exact .nil _
      | hwCounterStart =>
        rw [apply, TimerCall.apply, Hw.hwCounterStart]
        split_ifs <;> exact .nil _
      | _ => exact .nil _
    | sleep => exact .single (.pass (le_max_left _ _) (max_le hd (earliest_le_tick hu)))
    | tick b =>
      have he : s.hw.simuTime = s.hw.timer.hwTimerTickTimer := le_antisymm hd hdue.1
      have e : (s.apply (.tick b)).hw.timer.hwTimerTickTimer =
          s.hw.timer.hwTimerTickTimer + s.hw.timer.tickP := by
        cases b <;> exact add64_eq (he ▸ hb)
      rw [e]
      cases b <;> exact .single (.fire he)
    | _ => exact .nil _
  exact ⟨⟨ho.1.step h, Periodic.now_le_due key ho.2⟩, key⟩

/-- The system tick as a periodic timer. -/
def tickView : PeriodicView where
  view s := ⟨s.hw.simuTime, s.hw.timer.hwTimerTickTimer, s.hw.timer.tickP⟩
  fired := TimerAct.ticked
  Keeps a := ∀ p, a ≠ .call (.hwtimerEnable p)
  Ok s := s.Updated ∧ s.hw.simuTime ≤ s.hw.timer.hwTimerTickTimer
  now _ := rfl
  hidden a h := by cases a <;> simp_all [TimerAct.isShown, TimerAct.ticked]
  step := tick_step

end Timers

namespace Soc

open Timers

variable {m₀ m₁ m₂ : Soc F} {ls₀ ls : List (Act F × List (Obs F))} {o : List (Obs F)}
  {l : Act F × List (Obs F)}

theorem call_mem_timerActs {c : TimerCall} :
    .call c ∈ timerActs l ↔ l.1.timerCall = some c := by
  have h : TimerAct.call c ∉ l.2.filterMap Obs.timerAct := by
    intro h
    obtain ⟨x, -, hx⟩ := List.mem_filterMap.mp h
    cases x <;> simp [Obs.timerAct] at hx
  simp [timerActs, h, eq_comm]

/-- Calls that no step of a run makes, the timers do not see. -/
theorem not_call {c : TimerCall} (h : ∀ l ∈ ls, l.1.timerCall ≠ some c) :
    ∀ a ∈ ls.flatMap timerActs, a ≠ .call c := by
  rintro a ha rfl
  obtain ⟨l, hl, ha⟩ := List.mem_flatMap.mp ha
  exact h l hl (call_mem_timerActs.mp ha)

theorem timerCall_hwtimerEnable {a : Act F} {p : ℕ} (h : a.timerCall = some (.hwtimerEnable p)) :
    ∃ q, a = .hwtimerEnable q := by
  cases a <;> simp [Act.timerCall] at h ⊢

theorem timerCall_hwtimerSetSilentTicks {a : Act F} {n : ℤ}
    (h : a.timerCall = some (.hwtimerSetSilentTicks n)) : ∃ q, a = .hwtimerSetSilentTicks q := by
  cases a <;> simp [Act.timerCall] at h ⊢

theorem timerCall_hwCounterSetPeriod {a : Act F} {p : ℕ}
    (h : a.timerCall = some (.hwCounterSetPeriod p)) : ∃ q, a = .hwCounterSetPeriod q := by
  cases a <;> simp [Act.timerCall] at h ⊢

theorem timerCall_hwCounterSetTarget {a : Act F} {target : ℕ}
    (h : a.timerCall = some (.hwCounterSetTarget target)) : ∃ q, a = .hwCounterSetTarget q := by
  cases a <;> simp [Act.timerCall] at h ⊢

theorem timerCall_hwCounterStop {a : Act F} (h : a.timerCall = some .hwCounterStop) :
    a = .hwCounterStop := by
  cases a <;> simp [Act.timerCall] at h ⊢

/-- A call of software does what the called function does. -/
theorem hw_of_call {c : TimerCall} (h : Step m₀ l m₁) (hc : l.1.timerCall = some c) :
    m₁.timers = m₀.timers.apply (.call c) := by
  obtain ⟨a, o⟩ := l
  rcases step_eq_some.mp h with ⟨-, h⟩ | ⟨-, rfl, -⟩ | ⟨-, rfl, -⟩
  · rcases swStep_cases h with ⟨ha, -⟩ | ⟨ha, -⟩ | ⟨c', ha, e⟩ | ⟨rfl, -⟩
    · simp [ha] at hc
    · simp [ha] at hc
    · obtain rfl := Option.some.inj (ha.symm.trans hc)
      obtain ⟨rfl, -⟩ := Prod.mk.inj e
      rfl
    · simp [Act.timerCall] at hc
  · simp [Act.timerCall] at hc
  · simp [Act.timerCall] at hc

theorem timed_of_boot (h : Step.Run boot ls₀ m₀) : Timed m₀ ∧ m₀.timers.Updated := by
  obtain ⟨hm, actss, hrun, -⟩ := timed_run h timed_boot
  exact ⟨hm, Lts.Run.invariant (I := Timers.Updated) (fun _ _ _ hs h => hs.step h) hrun rfl⟩

/-- **The system tick is on schedule.** From the moment on at which software starts it, as long as
software does not start it again and the end of the current period is before `2 ^ 64`, the `k`-th
tick comes exactly `k` periods later: none is lost, early or late, whatever else software and
hardware do. -/
theorem ticks_on_schedule {period : UInt64} (h : Step.Run boot ls₀ m₀)
    (he : Step m₀ (.hwtimerEnable period, o) m₁) (hr : Step.Run m₁ ls m₂)
    (hk : ∀ l ∈ ls, ∀ q, l.1 ≠ .hwtimerEnable q) (hb : m₂.hw.simuTime + period.toNat < 2 ^ 64) :
    m₀.hw.simuTime + (ticks ls).length * period.toNat ≤ m₂.hw.simuTime ∧
    m₂.hw.simuTime ≤ m₀.hw.simuTime + ((ticks ls).length + 1) * period.toNat ∧
    ∀ l ∈ ls.getLast?, ticks [l] ≠ [] →
      m₂.hw.simuTime = m₀.hw.simuTime + (ticks ls).length * period.toNat := by
  obtain ⟨hm₁, hu₁⟩ := timed_of_boot (h.append (.single he))
  have ht : m₁.timers = m₀.timers.apply (.call (.hwtimerEnable period.toNat)) := hw_of_call he rfl
  have hle := simuTime_le_of_run hm₁ hr
  have hnow : m₁.hw.simuTime = m₀.hw.simuTime := congrArg (fun s : Timers => s.hw.simuTime) ht
  have hv : tickView.view m₁.timers =
      ⟨m₀.hw.simuTime, m₀.hw.simuTime + period.toNat, period.toNat⟩ := by
    rw [ht, ← add64_eq (show m₀.hw.simuTime + period.toNat < 2 ^ 64 by omega)]
    rfl
  have hok : tickView.Ok m₁.timers := by
    have hd : (tickView.view m₁.timers).now ≤ (tickView.view m₁.timers).due := by
      rw [hv]
      exact Nat.le_add_right _ _
    exact ⟨hu₁, hd⟩
  have hkeep : ∀ a ∈ ls.flatMap timerActs, tickView.Keeps a := by
    refine fun a ha p => not_call (fun l hl hc => ?_) a ha
    obtain ⟨q, hq⟩ := timerCall_hwtimerEnable hc
    exact hk l hl q hq
  exact on_schedule tickView hm₁ hok hv hr hkeep hb rfl

/-- With a period of 10, started at 0, the second tick comes at 20. -/
theorem ticks_on_schedule_second : ∃ o m₁ ls m₂, Step (boot : Soc Unit) (.hwtimerEnable 10, o) m₁ ∧
    Step.Run m₁ ls m₂ ∧ ticks ls = [true, true] ∧ m₂.hw.simuTime = 20 ∧
    0 + (ticks ls).length * 10 ≤ m₂.hw.simuTime := by
  obtain ⟨r, hr, he⟩ := Option.bind_eq_some_iff.mp (show
    ((boot : Soc Unit).step (.hwtimerEnable 10)).bind (fun r =>
      (r.1.trace [.halt, .hwmOneEvent, .hwmOneEvent, .halt, .hwmOneEvent]).map fun t =>
        (ticks t.1, t.2.hw.simuTime)) = some ([true, true], 20) by rfl)
  obtain ⟨t, ht, he⟩ := Option.map_eq_some_iff.mp he
  obtain ⟨hticks, htime⟩ := Prod.mk.inj he
  have hs : Step boot (.hwtimerEnable 10, r.2) r.1 := hr
  exact ⟨r.2, r.1, t.1, t.2, hs, run_of_trace ht, hticks, htime,
    (ticks_on_schedule (.nil _) hs (run_of_trace ht)
      (forall_of_trace ht (P := fun a => ∀ q, a ≠ .hwtimerEnable q) (by simp))
      (by rw [htime]; decide)).1⟩

/-! ### Silent ticks -/

theorem ticked_of_run {s t : Timers} {acts : List TimerAct} (h : Timers.Step.Run s acts t)
    (hk : ∀ a ∈ acts, ∀ n, a ≠ .call (.hwtimerSetSilentTicks n)) :
    acts.filterMap TimerAct.ticked =
      (List.range (acts.filterMap TimerAct.ticked).length).map fun i : ℕ =>
        decide (s.hw.timer.silentTicks ≤ i) := by
  induction h with
  | nil => rfl
  | @cons s u t a acts ha _ ih =>
    obtain ⟨hka, hk⟩ := List.forall_mem_cons.mp hk
    have ih := ih hk
    obtain ⟨hdue, rfl⟩ := ha
    cases a with
    | tick b =>
      rw [List.filterMap_cons_some (show TimerAct.ticked (.tick b) = some b from rfl),
        List.length_cons, List.range_succ_eq_map, List.map_cons, List.map_map]
      refine congrArg₂ _ ?_ (ih.trans (List.map_congr_left fun i _ => ?_))
      · rw [Bool.eq_iff_iff, decide_eq_true_eq]
        exact hdue.2
      · rw [Function.comp_apply, decide_eq_decide]
        cases b with
        | true =>
          have := hdue.2.mp rfl
          simp only [apply, HwTimer.updateTimer, if_true]
          omega
        | false =>
          simp only [apply, HwTimer.updateTimer, Bool.false_eq_true, if_false]
          omega
    | call c =>
      have e : (c.apply s.hw).timer.silentTicks = s.hw.timer.silentTicks := by
        cases c with
        | hwtimerSetSilentTicks n => exact absurd rfl (hka n)
        | hwtimerWakeInTime time =>
          rw [TimerCall.apply, Hw.hwtimerWakeInTime]
          split_ifs <;> rfl
        | hwCounterStart =>
          rw [TimerCall.apply, Hw.hwCounterStart]
          split_ifs <;> rfl
        | _ => rfl
      exact e ▸ ih
    | _ => exact ih

/-- A tick raises its interrupt, or none at all if it is silent. -/
theorem premask_of_tick {l : Act F × List (Obs F)} (h : Step m₀ l m₁) {b : Bool}
    (hb : b ∈ ticks [l]) (i : ℕ) : i ∈ Lines.lines m₁.ctrl.irqPremask ↔
      i ∈ Lines.lines m₀.ctrl.irqPremask ∨ b = true ∧ i = timerTickIrq := by
  obtain ⟨a, ha, hab⟩ := List.mem_filterMap.mp hb
  rw [List.flatMap_singleton] at ha
  refine premask_of_fired h ha ?_ i
  cases a <;> simp [TimerAct.ticked] at hab
  rw [hab]
  rfl

/-- **Silent ticks.** From the moment on at which software asks for `n` silent ticks, and as long as
it does not ask again, the first `n` ticks raise no interrupt, and every later one does: the step of
such a tick leaves its line raised. -/
theorem silent_ticks {n : Int64} (h : Step.Run boot ls₀ m₀)
    (he : Step m₀ (.hwtimerSetSilentTicks n, o) m₁) (hr : Step.Run m₁ ls m₂)
    (hk : ∀ l ∈ ls, ∀ q, l.1 ≠ .hwtimerSetSilentTicks q) :
    ticks ls = ((List.range (ticks ls).length).map fun i : ℕ => decide (n.toInt ≤ i)) ∧
    ∀ l ∈ ls.getLast?, true ∈ ticks [l] → timerTickIrq ∈ Lines.lines m₂.ctrl.irqPremask := by
  refine ⟨?_, fun l hl ht => ?_⟩
  swap
  · obtain ⟨pre, rfl⟩ := List.getLast?_eq_some_iff.mp hl
    obtain ⟨n, -, hlast⟩ := Lts.run_append_iff.mp hr
    exact (premask_of_tick (Lts.run_singleton_iff.mp hlast) ht _).mpr (.inr ⟨rfl, rfl⟩)
  obtain ⟨-, actss, hrun, hq⟩ := timed_run hr (timed_of_boot (h.append (.single he))).1
  have hshown := shown_flatten hq
  have hticks : actss.flatten.filterMap TimerAct.ticked = ticks ls :=
    filterMap_of_times (fun a ha => (tickView.hidden a ha).1) hq
  have hn : m₁.timers.hw.timer.silentTicks = n.toInt := by
    rw [hw_of_call he rfl]
    rfl
  rw [← hticks, ← hn]
  refine ticked_of_run hrun ?_
  rintro a ha n rfl
  refine not_call (fun l hl hc => ?_) _ (hshown ▸ List.mem_filter.mpr ⟨ha, rfl⟩) rfl
  obtain ⟨q, hq⟩ := timerCall_hwtimerSetSilentTicks hc
  exact hk l hl q hq

/-- One silent tick, then two with an interrupt. -/
theorem silent_ticks_one : ∃ ls₀ m₀ o m₁ ls m₂, Step.Run (boot : Soc Unit) ls₀ m₀ ∧
    Step m₀ (.hwtimerSetSilentTicks 1, o) m₁ ∧ Step.Run m₁ ls m₂ ∧
    ticks ls = [false, true, true] ∧ timerTickIrq ∈ Lines.lines m₂.ctrl.irqPremask := by
  obtain ⟨t₀, h₀, he⟩ := Option.bind_eq_some_iff.mp (show
    ((boot : Soc Unit).trace [.hwtimerEnable 10]).bind (fun t₀ =>
      (t₀.2.step (.hwtimerSetSilentTicks 1)).bind fun r =>
        (r.1.trace [.halt, .hwmOneEvent, .hwmOneEvent, .hwmOneEvent, .halt, .hwmOneEvent]).map
          fun t => ((ticks t.1).length, t.1.getLast?.map fun l => ticks [l])) =
            some (3, some [true]) by rfl)
  obtain ⟨r, hr, he⟩ := Option.bind_eq_some_iff.mp he
  obtain ⟨t, ht, he⟩ := Option.map_eq_some_iff.mp he
  obtain ⟨hlen, hlast⟩ := Prod.mk.inj he
  obtain ⟨l, hl, hlast⟩ := Option.map_eq_some_iff.mp hlast
  have hs : Step t₀.2 (.hwtimerSetSilentTicks 1, r.2) r.1 := hr
  obtain ⟨hticks, hraised⟩ := silent_ticks (run_of_trace h₀) hs (run_of_trace ht)
    (forall_of_trace ht (P := fun a => ∀ q, a ≠ .hwtimerSetSilentTicks q) (by simp))
  rw [hlen] at hticks
  exact ⟨t₀.1, t₀.2, r.2, r.1, t.1, t.2, run_of_trace h₀, hs, run_of_trace ht, hticks,
    hraised l hl (by simp [hlast])⟩

end Soc

end MeshNode
