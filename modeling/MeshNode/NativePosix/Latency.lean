import MeshNode.NativePosix.Clock

/-!
# The latency of interrupts

In simulated time, an interrupt is served the moment it can be.

* `IrqCtrl.Calm`: no interrupt can be served; `calm_posixIrqHandler`: so it is when
  `posix_irq_handler` has run;
* `Calms`, `calms_swStep`: software leads to no state in which an interrupt can be served;
* `Prompt`: an interrupt can be served only where the timer of the controller is due now;
  `prompt_step`: every step keeps this, but for a change of the priority of a pending line;
* **`time_waits_for_interrupts`**: while an interrupt can be served, no time passes;
* `Modest`, **`served_within_two_events`**: and the CPU is woken to serve it.
-/

namespace MeshNode

open Interact Lines

variable {F : Type}

/-- Interrupts are locked, or no pending line outranks what runs. -/
def IrqCtrl.Calm (c : IrqCtrl) : Prop :=
  c.irqsLocked = true ∨ ∀ j ∈ lines c.irqStatus, c.currentlyRunningPrio ≤ c.prioOf j

namespace IrqCtrl

variable {c d : IrqCtrl}

theorem calm_iff (hc : c.Latched) : c.hwIrqCtrlGetHighestPrioIrq = none ↔ c.Calm :=
  hwIrqCtrlGetHighestPrioIrq_eq_none hc []

/-- Fewer pending lines. -/
theorem Calm.mono (h : c.Calm) (hl : d.irqsLocked = c.irqsLocked)
    (hs : lines d.irqStatus ⊆ lines c.irqStatus) (hp : d.irqPrio = c.irqPrio)
    (hr : d.currentlyRunningPrio = c.currentlyRunningPrio) : d.Calm := by
  refine h.imp hl.trans fun h j hj => ?_
  have hprio : d.prioOf j = c.prioOf j := by simp only [prioOf, hwIrqCtrlGetPrio, hp]
  rw [hr, hprio]
  exact h j (hs hj)

theorem calm_of_status_zero (h : c.irqStatus = 0) : c.Calm := .inr (by simp [h])

end IrqCtrl

namespace Soc

open IrqCtrl

variable {m m' : Soc F} {r : Out F}

/-! ### `posix_irq_handler` -/

theorem calm_loopHead (hm : m.ctrl.Latched) : m.loopHead.1.ctrl.Calm := by
  rcases m.loopHead_cases with ⟨hn, o, e, -⟩ | ⟨irq, hi, h⟩
  · rw [e]
    exact (calm_iff hm).mp hn
  · obtain ⟨-, hn⟩ := hwIrqCtrlGetHighestPrioIrq_eq_some hm [] hi
    have hc : ∀ cpu, (m.entered irq cpu).ctrl.Calm := fun cpu => .inr fun j hj => by
      obtain ⟨hj, hne⟩ := mem_lines_and_not_bit.mp hj
      exact hn.settled j (Finset.mem_erase.mpr ⟨hne, hj⟩)
    rcases h with ⟨f, param, e⟩ | e <;> rw [e] <;> exact hc _

/-- **After `posix_irq_handler`**, up to the start of a handler or its end, no interrupt can be
served. -/
theorem calm_posixIrqHandler (hm : m.ctrl.Latched) : m.posixIrqHandler.1.ctrl.Calm := by
  unfold posixIrqHandler
  split_ifs with hl
  · exact .inl hl
  · exact calm_loopHead hm
  · exact calm_loopHead hm

theorem calm_posixIrqHandlerImFromSw (hm : m.ctrl.Latched) (hc : m.cpu = .running) :
    m.posixIrqHandlerImFromSw.1.ctrl.Calm := by
  unfold posixIrqHandlerImFromSw
  split_ifs with h h'
  · exact absurd hc h'
  · exact calm_posixIrqHandler hm
  · exact (calm_iff hm).mp (of_not_not h)

/-! ### What software does -/

/-- Where no interrupt can be served, none can be served afterwards; and wherever one can, the timer
of the controller and the time have not changed. -/
structure Calms (m n : Soc F) : Prop where
  calm : m.ctrl.Calm → n.ctrl.Calm
  late : n.ctrl.Calm ∨ n.hw.irqCtrlTimer = m.hw.irqCtrlTimer ∧ n.hw.simuTime = m.hw.simuTime

theorem Calms.of_calm (h : m'.ctrl.Calm) : Calms m m' := ⟨fun _ => h, .inl h⟩

/-- Where the timer of the controller does not change, and interrupts only go away. -/
theorem Calms.mono (hl : m'.ctrl.irqsLocked = m.ctrl.irqsLocked)
    (hs : lines m'.ctrl.irqStatus ⊆ lines m.ctrl.irqStatus) (hp : m'.ctrl.irqPrio = m.ctrl.irqPrio)
    (hr : m'.ctrl.currentlyRunningPrio = m.ctrl.currentlyRunningPrio)
    (hi : m'.hw.irqCtrlTimer = m.hw.irqCtrlTimer) (ht : m'.hw.simuTime = m.hw.simuTime) :
    Calms m m' :=
  ⟨fun h => h.mono hl hs hp hr, .inr ⟨hi, ht⟩⟩

theorem calms_hwIrqCtrlChangeLock (hm : m.ctrl.Latched) (hc : m.cpu = .running) (newLock : Bool) :
    Calms m (m.hwIrqCtrlChangeLock newLock).1 := by
  unfold hwIrqCtrlChangeLock
  dsimp only
  split_ifs with hu
  · exact .of_calm (calm_posixIrqHandlerImFromSw (hm.congr rfl rfl rfl) hc)
  · cases newLock with
    | true => exact .of_calm (.inl rfl)
    | false =>
      by_cases hs : m.ctrl.irqStatus = 0
      · exact .of_calm (calm_of_status_zero hs)
      · -- interrupts were not locked before either
        have hl : m.ctrl.irqsLocked = false :=
          Bool.eq_false_of_not_eq_true fun hl => hu ⟨hl, rfl, hs⟩
        exact .mono hl.symm (Finset.Subset.refl _) rfl rfl rfl rfl

theorem calm_hwIrqCtrlRaiseImFromSw {irq : ℕ} (hm : (m.ctrl.irqRaisePrefix irq).Latched)
    (hc : m.cpu = .running) : (m.hwIrqCtrlRaiseImFromSw irq).1.ctrl.Calm := by
  unfold hwIrqCtrlRaiseImFromSw
  dsimp only
  split_ifs with hl
  · exact calm_posixIrqHandlerImFromSw hm hc
  · exact .inl (Bool.eq_true_of_not_eq_false hl)

theorem calms_hwIrqCtrlEnableIrq (hm : m.ctrl.Latched) (hc : m.cpu = .running) (irq : ℕ) :
    Calms m (m.hwIrqCtrlEnableIrq irq).1 := by
  unfold hwIrqCtrlEnableIrq
  dsimp only
  split_ifs with hp
  · exact .of_calm (calm_hwIrqCtrlRaiseImFromSw (hm.enable_raise (and_bit_ne_zero.mp hp)) hc)
  · exact .mono rfl (Finset.Subset.refl _) rfl rfl rfl rfl

/-- **What software does**, but for a line that it raises in one delta cycle itself and for the
priority of a pending line. -/
theorem calms_swStep {a : Act F} (hm : m.ctrl.Latched) (hc : m.cpu = .running)
    (hs : m.swStep a = some r)
    (hg : ∀ irq prio, a = .posixIrqPrioritySet irq prio → irq ∉ lines m.ctrl.irqStatus)
    (ha : ∀ irq, a ≠ .hwIrqCtrlSetIrq irq) : Calms m r.1 := by
  by_cases hcall : a.timerCall = none
  swap
  · rcases swStep_cases hs with ⟨ha, -⟩ | ⟨ha, -⟩ | ⟨c, -, rfl⟩ | ⟨rfl, -⟩
    · exact absurd ha hcall
    · exact absurd ha hcall
    · exact ⟨id, .inr ⟨irqCtrlTimer_timerCall c m.hw, simuTime_timerCall c m.hw⟩⟩
    · exact absurd rfl hcall
  cases a <;> simp only [swStep, Option.ite_none_right_eq_some, Option.some.injEq,
    reduceCtorEq] at hs
  case posixIrqLock => exact hs ▸ calms_hwIrqCtrlChangeLock hm hc true
  case posixIrqUnlock key => exact hs ▸ calms_hwIrqCtrlChangeLock hm hc key
  case posixIrqEnable irq => exact hs.2 ▸ calms_hwIrqCtrlEnableIrq hm hc irq
  case posixSwSetPendingIrq irq =>
    exact hs ▸ .of_calm (calm_hwIrqCtrlRaiseImFromSw (hm.irqRaisePrefix irq) hc)
  case posixSwClearPendingIrq irq =>
    exact hs.2 ▸ .mono rfl (fun i hi => (mem_lines_and_not_bit.mp hi).1) rfl rfl rfl rfl
  case posixIrqPrioritySet irq prio =>
    obtain rfl := hs.2
    refine ⟨Or.imp_right fun h j hj => ?_, .inr ⟨rfl, rfl⟩⟩
    have hne : irq ≠ j := fun e => hg irq prio rfl (e ▸ hj)
    have hp : (m.ctrl.hwIrqCtrlPrioSet irq prio).prioOf j = m.ctrl.prioOf j := by
      simp [prioOf, hwIrqCtrlGetPrio, hwIrqCtrlPrioSet, hne]
    exact (h j hj).trans hp.ge
  case posixIrqDisable | posixIsrDeclare =>
    exact hs.2 ▸ .mono rfl (Finset.Subset.refl _) rfl rfl rfl rfl
  case hwIrqCtrlSetIrq irq => exact absurd rfl (ha irq)
  case hwIrqCtrlClearAllEnabledIrqs => exact hs ▸ .of_calm (calm_of_status_zero rfl)
  case hwIrqCtrlClearAllIrqs => exact hs ▸ .of_calm (calm_of_status_zero rfl)
  case isrReturn ret =>
    unfold isrReturn at hs
    cases hf : m.frames with
    | nil => simp [hf] at hs
    | cons frame frames =>
      rw [hf] at hs
      exact Option.some.inj hs ▸ .of_calm (calm_loopHead (hm.congr rfl rfl rfl))
  case halt =>
    subst hs
    unfold halt hwmEventEnd
    dsimp only
    split_ifs <;> exact .mono rfl (Finset.Subset.refl _) rfl rfl rfl rfl
  all_goals simp [Act.timerCall] at hcall

/-! ### What every step keeps -/

/-- An interrupt can be served only where the timer of the controller is due now. -/
def Prompt (m : Soc F) : Prop := m.ctrl.Calm ∨ m.hw.irqCtrlTimer = m.hw.simuTime

/-- Priorities are changed of lines that are not pending only. -/
def Steady (m : Soc F) (l : Act F × List (Obs F)) (_ : Soc F) : Prop :=
  ∀ irq prio, l.1 = .posixIrqPrioritySet irq prio → irq ∉ lines m.ctrl.irqStatus

/-- Where the timer of the controller does not change, and interrupts only go away. -/
theorem Prompt.mono (h : Prompt m) (hl : m'.ctrl.irqsLocked = m.ctrl.irqsLocked)
    (hs : lines m'.ctrl.irqStatus ⊆ lines m.ctrl.irqStatus) (hp : m'.ctrl.irqPrio = m.ctrl.irqPrio)
    (hr : m'.ctrl.currentlyRunningPrio = m.ctrl.currentlyRunningPrio)
    (hi : m'.hw.irqCtrlTimer = m.hw.irqCtrlTimer) (ht : m'.hw.simuTime = m.hw.simuTime) :
    Prompt m' :=
  h.imp (fun h => h.mono hl hs hp hr) fun h => by rw [hi, ht, h]

theorem Prompt.of_calms (h : Prompt m) (hc : Calms m m') : Prompt m' := by
  rcases hc.late with hc' | ⟨hi, ht⟩
  · exact .inl hc'
  · exact h.imp hc.calm fun h => by rw [hi, ht, h]

/-- Raising a line in one delta cycle makes the timer of the controller due, unless interrupts are
locked. -/
theorem prompt_hwIrqCtrlSetIrq (m : Soc F) (irq : ℕ) : Prompt (m.hwIrqCtrlSetIrq irq) := by
  unfold hwIrqCtrlSetIrq awakeInOneDelta
  dsimp only
  split_ifs with h
  · exact .inr rfl
  · refine .inl (.inl (Bool.eq_true_of_not_eq_false fun hl => h (.inl hl)))

theorem prompt_swStep {a : Act F} (h : Prompt m) (hm : m.ctrl.Latched) (hc : m.cpu = .running)
    (hs : m.swStep a = some r)
    (hg : ∀ irq prio, a = .posixIrqPrioritySet irq prio → irq ∉ lines m.ctrl.irqStatus) :
    Prompt r.1 := by
  by_cases ha : ∃ irq, a = .hwIrqCtrlSetIrq irq
  · obtain ⟨irq, rfl⟩ := ha
    obtain rfl := Option.some.inj hs
    exact prompt_hwIrqCtrlSetIrq m irq
  · exact h.of_calms (calms_swStep hm hc hs hg fun irq e => ha ⟨irq, e⟩)

theorem prompt_hwtimerTickTimerReached (h : Prompt m) : Prompt m.hwtimerTickTimerReached.1 := by
  rw [hwtimerTickTimerReached_eq]
  split_ifs
  · exact h.mono rfl (Finset.Subset.refl _) rfl rfl rfl rfl
  · exact prompt_hwIrqCtrlSetIrq _ _

theorem prompt_hwtimerTimerReached (h : Prompt m) : Prompt m.hwtimerTimerReached.1 := by
  have key : ∀ n : Soc F, Prompt n → Prompt
      (if n.hw.timer.hwTimerTickTimer = m.hw.timer.hwTimerTimer then n.hwtimerTickTimerReached
        else (n, [])).1 := by
    intro n hn
    split_ifs
    · exact prompt_hwtimerTickTimerReached hn
    · exact hn
  refine key _ ?_
  split_ifs
  · exact prompt_hwIrqCtrlSetIrq _ _
  · exact h

theorem prompt_hwmSwitch (h : Prompt m) (hm : m.ctrl.Latched) : Prompt m.hwmSwitch.1 := by
  unfold hwmSwitch
  split
  · exact prompt_hwtimerTimerReached h
  · rcases m.hwIrqCtrlTimerTriggered_cases with ⟨hn, e⟩ | ⟨-, e⟩ <;> rw [e]
    · exact .inl (.inl (Bool.eq_true_of_not_eq_false fun hl => hn (.inl hl)))
    · exact .inl (calm_posixIrqHandler (hm.congr rfl rfl rfl))
  · rw [hwCounterTriggered_eq]
    split_ifs
    · exact h.mono rfl (Finset.Subset.refl _) rfl rfl rfl rfl
    · exact prompt_hwIrqCtrlSetIrq _ _
    · exact h.mono rfl (Finset.Subset.refl _) rfl rfl rfl rfl
  · exact h.mono rfl (Finset.Subset.refl _) rfl rfl rfl rfl

/-- A timer of the controller that is due now is due before time passes. -/
theorem prompt_hwmSleepUntilNextTimer (h : Prompt m) (hs : m.hw.Scheduled) :
    Prompt m.hwmSleepUntilNextTimer.1 := by
  obtain ⟨o, e, -⟩ := m.hwmSleepUntilNextTimer_eq
  rw [e]
  refine h.imp_right fun h => ?_
  have hle : m.hw.next.time ≤ m.hw.simuTime := by
    rw [hs.time, ← h]
    exact Timers.earliest_le_irqCtrlTimer _
  exact h.trans (max_eq_left hle).symm

theorem prompt_step {l : Act F × List (Obs F)} (h : Prompt m) (ht : Timed m)
    (hm : m.ctrl.Latched) (hg : Steady m l m') (hl : Step m l m') : Prompt m' := by
  obtain ⟨a, o⟩ := l
  rcases step_eq_some.mp hl with ⟨hc, hs⟩ | ⟨hc, rfl, hs⟩ | ⟨-, rfl, hs⟩
  · exact prompt_swStep h hm hc hs hg
  · have hsl := prompt_hwmSleepUntilNextTimer h (ht.scheduled (ht.halted hc))
    rw [hwmOneEvent_eq] at hs
    split_ifs at hs
    · obtain ⟨rfl, -⟩ := Prod.mk.inj hs
      have hsw := prompt_hwmSwitch hsl ((quiet_hwmSleepUntilNextTimer m).latched hm)
      unfold hwmEventEnd
      split_ifs
      · exact hsw.mono rfl (Finset.Subset.refl _) rfl rfl rfl rfl
      · exact hsw
    · rw [hs] at hsl
      exact hsl
  · obtain ⟨rfl, -⟩ := Prod.mk.inj hs
    exact h.mono rfl (Finset.Subset.refl _) rfl rfl rfl rfl

theorem prompt_run {ls : List (Act F × List (Obs F))}
    (h : (Step.such Steady).Run (boot : Soc F) ls m) : Timed m ∧ m.ctrl.Latched ∧ Prompt m := by
  refine h.invariant (I := fun n => Timed n ∧ n.ctrl.Latched ∧ Prompt n)
    (fun n l n' hn hl => ?_) ⟨timed_boot, latched_boot, .inl (calm_of_status_zero rfl)⟩
  obtain ⟨ht, hm, hp⟩ := hn
  exact ⟨(timed_step ht hl.2).1, (plays_step hl.2 hm).1, prompt_step hp ht hm hl.1 hl.2⟩

/-- **Time waits for interrupts.** In every run in which software changes priorities of lines that
are not pending only, simulated time passes in no step before which an interrupt could be served. -/
theorem time_waits_for_interrupts {ls : List (Act F × List (Obs F))} {l : Act F × List (Obs F)}
    (h : (Step.such Steady).Run (boot : Soc F) ls m) (hl : Step m l m')
    (ht : m.hw.simuTime < m'.hw.simuTime) : m.ctrl.hwIrqCtrlGetHighestPrioIrq = none := by
  obtain ⟨hm, hlatched, hp⟩ := prompt_run h
  refine (calm_iff hlatched).mpr (hp.resolve_right fun e => ?_)
  have hle := simuTime_step_le hm hl
  have := Timers.earliest_le_irqCtrlTimer m.hw
  omega

/-- Time passes to 5, where a tick is due. -/
theorem time_waits_for_interrupts_tick : ∃ ls m l m', (Step.such Steady).Run (boot : Soc Unit) ls m ∧
    Step m l m' ∧ m.hw.simuTime = 0 ∧ m'.hw.simuTime = 5 ∧
    m.ctrl.hwIrqCtrlGetHighestPrioIrq = none := by
  obtain ⟨t, ht, he⟩ := Option.bind_eq_some_iff.mp (show
    ((boot : Soc Unit).trace [.hwtimerEnable 5, .halt]).bind (fun t =>
      (t.2.step .hwmOneEvent).map fun r => (t.2.hw.simuTime, r.1.hw.simuTime)) = some (0, 5) by rfl)
  obtain ⟨r, hr, he⟩ := Option.map_eq_some_iff.mp he
  obtain ⟨h0, h5⟩ := Prod.mk.inj he
  have hs : Step t.2 (.hwmOneEvent, r.2) r.1 := hr
  have hrun := (run_of_trace ht).to_such (G := Steady) (forall_of_trace ht
    (P := fun a => ∀ m m' : Soc Unit, ∀ irq prio, a = .posixIrqPrioritySet irq prio →
      irq ∉ lines m.ctrl.irqStatus) (by simp))
  exact ⟨t.1, t.2, _, r.1, hrun, hs, h0, h5,
    time_waits_for_interrupts hrun hs (by rw [h0, h5]; decide)⟩

/-! ### The interrupt is served -/

/-- A handler has started, or the process has ended because there is none. -/
inductive Served (m : Soc F) (o : List (Obs F)) : Prop
  | entered {irq : ℕ} {f : F} {param : ℕ} : m.cpu = .running → m.currentlyRunningIrq = some irq →
      .isr irq f param ∈ o → Served m o
  | missing {irq : ℕ} : m.cpu = .exited 1 →
      .error "Received irq %i without a registered handler\n" (.int irq) ∈ o → Served m o

theorem Served.append {o : List (Obs F)} (h : Served m o) (o' : List (Obs F)) :
    Served m (o' ++ o) := by
  cases h with
  | entered hc hi ho => exact .entered hc hi (List.mem_append_right _ ho)
  | missing hc ho => exact .missing hc (List.mem_append_right _ ho)

theorem served_posixIrqHandler (hm : m.ctrl.Latched) (h : ¬ m.ctrl.Calm) (hc : m.cpu = .running) :
    Served m.posixIrqHandler.1 m.posixIrqHandler.2 := by
  have key : ∀ n : Soc F, n.ctrl = m.ctrl → n.cpu = m.cpu → Served n.loopHead.1 n.loopHead.2 := by
    intro n hn hcn
    rcases n.loopHead_cases with ⟨hnone, -⟩ | ⟨irq, -, ⟨f, param, e⟩ | e⟩
    · exact absurd ((calm_iff hm).mp (hn ▸ hnone)) h
    · rw [e]
      exact .entered (hcn.trans hc) rfl (List.mem_singleton_self _)
    · rw [e]
      exact .missing rfl (List.mem_singleton_self _)
  unfold posixIrqHandler
  split_ifs with hl
  · exact absurd (.inl hl) h
  · exact key _ rfl rfl
  · exact key _ rfl rfl

/-- Steps of software that asks for nothing in the past and for no period above `P`, starts the
system tick with no period of 0, and changes priorities of lines that are not pending only. -/
structure Modest (P : ℕ) (m : Soc F) (l : Act F × List (Obs F)) (m' : Soc F) : Prop where
  sane : Sane P m l m'
  steady : Steady m l m'
  ticks : l.1.timerCall ≠ some (.hwtimerEnable 0)

/-- The system tick has a period, if it was started at all. -/
def TickSet (s : Timers) : Prop := 0 < s.hw.timer.tickP ∨ s.hw.timer.hwTimerTickTimer = never

theorem TickSet.step {s t : Timers} {a : TimerAct} (h : TickSet s)
    (ha : a ≠ .call (.hwtimerEnable 0)) (hs : Timers.Step s a t) : TickSet t := by
  obtain ⟨-, rfl⟩ := hs
  cases a with
  | call c =>
    cases c with
    | hwtimerEnable p => exact .inl (Nat.pos_of_ne_zero fun (e : p = 0) => ha (by rw [e]))
    | hwtimerWakeInTime time =>
      rw [Timers.apply, TimerCall.apply, Hw.hwtimerWakeInTime]
      split_ifs <;> exact h
    | hwCounterStart =>
      rw [Timers.apply, TimerCall.apply, Hw.hwCounterStart]
      split_ifs <;> exact h
    | _ => exact h
  | tick b =>
    by_cases hp : 0 < s.hw.timer.tickP
    · cases b <;> exact .inl hp
    · -- a timer that was never started does not move
      have ht : add64 s.hw.timer.hwTimerTickTimer s.hw.timer.tickP = never := by
        rw [Nat.eq_zero_of_not_pos hp, h.resolve_left hp]
        rfl
      cases b <;> exact .inr ht
  | _ => exact h

theorem tickSet_run {P : ℕ} {ls : List (Act F × List (Obs F))}
    (h : (Step.such (Modest P)).Run (boot : Soc F) ls m) : TickSet m.timers := by
  refine (h.invariant (I := fun n => Timed n ∧ TickSet n.timers) (fun n l n' hn hl => ?_)
    ⟨timed_boot, .inr rfl⟩).2
  obtain ⟨ht, acts, hrun, hshown, -⟩ := timed_step hn.1 hl.2
  have hcalls : ∀ a ∈ acts, a ≠ .call (.hwtimerEnable 0) := by
    rintro _ ha rfl
    exact hl.1.ticks (call_mem_timerActs.mp (hshown ▸ List.mem_filter.mpr ⟨ha, rfl⟩))
  have hticks := hrun.to_such (G := fun _ a _ => a ≠ .call (.hwtimerEnable 0))
    fun a ha _ _ => hcalls a ha
  exact ⟨ht, hticks.invariant (I := TickSet) (fun _ _ _ hs h => hs.step h.1 h.2) hn.2⟩

/-- The process does not end here. -/
def Continues (m : Soc F) : Prop := m.hw.signaledEnd = false ∧ m.hw.simuTime ≤ m.hw.endOfTime

/-- Where the next timer is due now, no time passes. -/
theorem hwmSleepUntilNextTimer_now (hn : m.hw.next.time = m.hw.simuTime) (hg : Continues m) :
    m.hwmSleepUntilNextTimer.1 = m := by
  obtain ⟨o, e, -⟩ := m.hwmSleepUntilNextTimer_eq
  rw [e, hn, max_self, if_neg (by simp [hg.1, hg.2])]

/-- The CPU is halted, and the timer of the controller is due to serve an interrupt. -/
structure Waits (m : Soc F) : Prop where
  halted : m.cpu = .halted
  latched : m.ctrl.Latched
  calm : ¬ m.ctrl.Calm
  irq : m.hw.irqCtrlTimer = m.hw.simuTime
  continues : Continues m

/-- The controller's turn: an interrupt is served at once. -/
theorem served_by_irqCnt (hw : Waits m) (hn : m.hw.next = ⟨.irqCnt, m.hw.simuTime⟩) :
    Served m.hwmOneEvent.1 m.hwmOneEvent.2 ∧ m.hwmOneEvent.1.hw.simuTime = m.hw.simuTime := by
  obtain ⟨hc, hm, hcalm, -, hg⟩ := hw
  have hs := hwmSleepUntilNextTimer_now (by rw [hn]) hg
  have hu : m.ctrl.irqsLocked = false :=
    Bool.eq_false_of_not_eq_true fun hl => hcalm (.inl hl)
  have hsw : m.hwmSwitch = m.hwIrqCtrlTimerTriggered := by
    rw [hwmSwitch, hn]
  rw [hwmOneEvent_eq, hs, if_pos hc, hsw]
  rcases m.hwIrqCtrlTimerTriggered_cases with ⟨h, -⟩ | ⟨-, e⟩
  · exact absurd (.inl hu) h
  · rw [e]
    generalize hwoken : ({ m with hw := { m.hw with irqCtrlTimer := never },
                                  ctrl := { m.ctrl with lockIgnore := false },
                                  cpu := .running, inEvent := true } : Soc F) = n
    have hserved : Served n.posixIrqHandler.1 n.posixIrqHandler.2 := by
      subst hwoken
      exact served_posixIrqHandler (hm.congr rfl rfl rfl) hcalm rfl
    have hnow : n.posixIrqHandler.1.hw.simuTime = m.hw.simuTime := by
      rw [(untimed_posixIrqHandler n).hw, ← hwoken]
    -- the CPU runs or has exited, so that the event does not end yet
    have hend : n.posixIrqHandler.1.hwmEventEnd = n.posixIrqHandler.1 := by
      rw [hwmEventEnd, if_neg (by cases hserved with | _ hc => simp [hc])]
    simp only [Out.andThen, hend]
    exact ⟨(hserved.append [.wake]).append _, hnow⟩

/-- What raising a line in one delta cycle leaves alone. -/
theorem hwIrqCtrlSetIrq_eq (m : Soc F) (irq : ℕ) : ∃ next irqCtrlTimer,
    m.hwIrqCtrlSetIrq irq = { m with
      ctrl := m.ctrl.irqRaisePrefix irq,
      hw := { m.hw with next := next, irqCtrlTimer := irqCtrlTimer } } ∧
    (irqCtrlTimer = m.hw.irqCtrlTimer ∨ irqCtrlTimer = m.hw.simuTime) := by
  unfold hwIrqCtrlSetIrq awakeInOneDelta
  dsimp only
  split_ifs
  · exact ⟨_, _, rfl, .inr rfl⟩
  · exact ⟨_, _, rfl, .inl rfl⟩

theorem Waits.hwIrqCtrlSetIrq (hw : Waits m) (irq : ℕ) : Waits (m.hwIrqCtrlSetIrq irq) := by
  obtain ⟨next, t, e, ht⟩ := m.hwIrqCtrlSetIrq_eq irq
  rw [e]
  refine ⟨hw.halted, hw.latched.irqRaisePrefix irq, fun hcalm => hw.calm ?_, ?_, hw.continues⟩
  · -- the lines that were pending still are
    refine hcalm.mono (by simp) (fun i hi => ?_) (by simp) (by simp)
    exact (mem_status_irqRaisePrefix _).mpr (.inl hi)
  · exact ht.elim (fun e => e.trans hw.irq) id

theorem hwtimerTickTimerReached_spec (hw : Waits m) : Waits m.hwtimerTickTimerReached.1 ∧
    m.hwtimerTickTimerReached.1.hw.simuTime = m.hw.simuTime ∧
    m.hwtimerTickTimerReached.1.hw.counter = m.hw.counter ∧
    m.hwtimerTickTimerReached.1.hw.timer.hwTimerTickTimer =
      add64 m.hw.timer.hwTimerTickTimer m.hw.timer.tickP ∧
    m.hwtimerTickTimerReached.1.hw.timer.hwTimerAwakeTimer = m.hw.timer.hwTimerAwakeTimer := by
  rw [hwtimerTickTimerReached_eq]
  split_ifs
  · exact ⟨⟨hw.halted, hw.latched, hw.calm, hw.irq, hw.continues⟩, rfl, rfl, rfl, rfl⟩
  · have hw' : Waits { m with hw := (m.timers.apply (.tick true)).hw } :=
      ⟨hw.halted, hw.latched, hw.calm, hw.irq, hw.continues⟩
    refine ⟨hw'.hwIrqCtrlSetIrq timerTickIrq, ?_⟩
    obtain ⟨next, t, e, -⟩ :=
      hwIrqCtrlSetIrq_eq { m with hw := (m.timers.apply (.tick true)).hw } timerTickIrq
    simp only [Out.andThen, thenSetIrq, e]
    exact ⟨rfl, rfl, rfl, rfl⟩

theorem hwtimerAwakeTimerReached_spec (hw : Waits m) : Waits m.hwtimerAwakeTimerReached ∧
    m.hwtimerAwakeTimerReached.hw.simuTime = m.hw.simuTime ∧
    m.hwtimerAwakeTimerReached.hw.counter = m.hw.counter ∧
    m.hwtimerAwakeTimerReached.hw.timer.hwTimerTickTimer = m.hw.timer.hwTimerTickTimer ∧
    m.hwtimerAwakeTimerReached.hw.timer.tickP = m.hw.timer.tickP ∧
    m.hwtimerAwakeTimerReached.hw.timer.hwTimerAwakeTimer = never := by
  have hw' : Waits { m with hw := { m.hw with
      timer := { m.hw.timer with hwTimerAwakeTimer := never }.updateTimer } } :=
    ⟨hw.halted, hw.latched, hw.calm, hw.irq, hw.continues⟩
  refine ⟨hw'.hwIrqCtrlSetIrq phonyHardIrq, ?_⟩
  rw [hwtimerAwakeTimerReached_eq]
  exact ⟨rfl, rfl, rfl, rfl, rfl⟩

/-- What happens to the timers of the tick and the wake-up when one of them is reached. -/
theorem hwtimerTimerReached_spec (hw : Waits m) : Waits m.hwtimerTimerReached.1 ∧
    m.hwtimerTimerReached.1.hw.simuTime = m.hw.simuTime ∧
    m.hwtimerTimerReached.1.hw.counter = m.hw.counter ∧
    m.hwtimerTimerReached.1.hw.timer.hwTimerTickTimer =
      (if m.hw.timer.hwTimerTickTimer = m.hw.timer.hwTimerTimer then
        add64 m.hw.timer.hwTimerTickTimer m.hw.timer.tickP else m.hw.timer.hwTimerTickTimer) ∧
    m.hwtimerTimerReached.1.hw.timer.hwTimerAwakeTimer =
      (if m.hw.timer.hwTimerAwakeTimer = m.hw.timer.hwTimerTimer then never
        else m.hw.timer.hwTimerAwakeTimer) := by
  unfold hwtimerTimerReached
  dsimp only
  by_cases ha : m.hw.timer.hwTimerAwakeTimer = m.hw.timer.hwTimerTimer
  · rw [if_pos ha, if_pos ha]
    obtain ⟨hw', h₁, h₂, h₃, h₄, h₅⟩ := hwtimerAwakeTimerReached_spec hw
    by_cases ht : m.hw.timer.hwTimerTickTimer = m.hw.timer.hwTimerTimer
    · rw [if_pos (h₃.trans ht), if_pos ht]
      obtain ⟨hw'', k₁, k₂, k₃, k₄⟩ := hwtimerTickTimerReached_spec hw'
      exact ⟨hw'', k₁.trans h₁, k₂.trans h₂, by rw [k₃, h₃, h₄], k₄.trans h₅⟩
    · rw [if_neg (fun e => ht (h₃.symm.trans e)), if_neg ht]
      exact ⟨hw', h₁, h₂, h₃, h₅⟩
  · rw [if_neg ha, if_neg ha]
    by_cases ht : m.hw.timer.hwTimerTickTimer = m.hw.timer.hwTimerTimer
    · rw [if_pos ht, if_pos ht]
      exact hwtimerTickTimerReached_spec hw
    · rw [if_neg ht, if_neg ht]
      exact ⟨hw, rfl, rfl, rfl, rfl⟩

/-- The controller's turn is next when its timer is due now and the others are not. -/
theorem next_irqCnt {h : Hw} (hs : h.Scheduled) (hi : h.irqCtrlTimer = h.simuTime)
    (ht : h.simuTime < h.timer.hwTimerTimer) (hc : h.simuTime ≤ h.counter.hwCounterTimer) :
    h.next = ⟨.irqCnt, h.simuTime⟩ := by
  obtain ⟨-, -, hcases⟩ := Hw.next_hwmFindNextTimer h
  rw [hs] at hcases
  rcases hcases with ⟨-, h₁, -⟩ | ⟨hidx, -⟩ | ⟨-, -, h₂⟩
  · omega
  · have htime : h.next.time = h.simuTime := by
      rw [← hs.index, hidx]
      exact hi
    rw [← hidx, ← htime]
  · omega

/-- A tick or a wake-up that is due now comes before the interrupt, and the next one comes later. -/
theorem hwTimer_then_irqCnt {P : ℕ} (hw : Waits m) (ho : m.timers.OnClock P) (hP : 0 < P)
    (hb : m.hw.simuTime + P < 2 ^ 64)
    (htick : m.hw.timer.hwTimerTickTimer = m.hw.simuTime → 0 < m.hw.timer.tickP)
    (hn : m.hw.next = ⟨.hwTimer, m.hw.simuTime⟩)
    (ht : m.hw.timer.hwTimerTimer = m.hw.simuTime) :
    Waits m.hwmOneEvent.1 ∧ m.hwmOneEvent.1.hw.simuTime = m.hw.simuTime ∧
      m.hwmOneEvent.1.hw.next = ⟨.irqCnt, m.hw.simuTime⟩ := by
  obtain ⟨hw', hnow, hcount, htick', hawake'⟩ := hwtimerTimerReached_spec hw
  have hone : m.hwmOneEvent.1 = m.hwtimerTimerReached.1.hwmEventEnd := by
    rw [hwmOneEvent_eq, hwmSleepUntilNextTimer_now (by rw [hn]) hw.continues, if_pos hw.halted,
      hwmSwitch, hn]
  have hup : m.hwtimerTimerReached.1.timers.Updated := by
    obtain ⟨acts, ha, -⟩ := brief_hwtimerTimerReached ht.le
    exact ha.run.invariant (I := Timers.Updated) (fun _ _ _ hs h => hs.step h) ho.updated
  have hlater : m.hw.simuTime < m.hwtimerTimerReached.1.hw.timer.hwTimerTimer := by
    have hp : m.hw.timer.tickP ≤ P := ho.tickP
    have h₁ : m.hw.simuTime ≤ m.hw.timer.hwTimerTickTimer := ho.tick
    have h₂ : m.hw.simuTime ≤ m.hw.timer.hwTimerAwakeTimer := ho.awake
    refine (lt_min ?_ ?_).trans_eq hup.symm
    · show _ < m.hwtimerTimerReached.1.hw.timer.hwTimerTickTimer
      rw [htick']
      split_ifs with he
      · have := htick (he.trans ht)
        rw [Timers.add64_eq (by omega)]
        omega
      · omega
    · show _ < m.hwtimerTimerReached.1.hw.timer.hwTimerAwakeTimer
      rw [hawake', never]
      split_ifs
      · omega
      · omega
  rw [hone, hwmEventEnd, if_pos hw'.halted]
  refine ⟨⟨hw'.halted, hw'.latched, hw'.calm, hw'.irq, hw'.continues⟩, hnow, ?_⟩
  rw [← hnow]
  exact next_irqCnt (Hw.scheduled_hwmFindNextTimer _) hw'.irq (hnow.trans_lt hlater)
    (hnow.trans_le (hcount ▸ ho.count))

/-- **An interrupt is served within two events.** In every run in which software asks for nothing in
the past and for no period above `P`, starts the system tick with no period of 0, and changes
priorities of lines that are not pending only, as long as the time stays below `2 ^ 64 - P`: where
the CPU is halted although an interrupt could be served, and the process does not end, the hardware
models need one event or two, and no time, until a handler starts, or the process ends because it is
missing. -/
theorem served_within_two_events {P : ℕ} {ls : List (Act F × List (Obs F))}
    (h : (Step.such (Modest P)).Run (boot : Soc F) ls m) (hP : 0 < P)
    (hb : m.hw.simuTime + P < 2 ^ 64) (hc : m.cpu = .halted)
    (hi : m.ctrl.hwIrqCtrlGetHighestPrioIrq ≠ none) (hg : Continues m) :
    ∃ ls' m', Step.Run m ls' m' ∧ (∀ l ∈ ls', l.1 = .hwmOneEvent) ∧ ls'.length ≤ 2 ∧
      Served m' (ls'.flatMap Prod.snd) ∧ m'.hw.simuTime = m.hw.simuTime := by
  obtain ⟨ht, hm, hp⟩ := prompt_run (h.mono fun _ _ _ hs => ⟨hs.1.steady, hs.2⟩)
  obtain ⟨ho, -⟩ := clock_run timed_boot onClock_boot (h.mono fun _ _ _ hs => ⟨hs.1.sane, hs.2⟩) hb
  have htick : m.hw.timer.hwTimerTickTimer = m.hw.simuTime → 0 < m.hw.timer.tickP := by
    intro he
    refine (tickSet_run h).resolve_right fun hn => ?_
    have : m.hw.simuTime = never := he.symm.trans hn
    rw [never] at this
    omega
  have hcalm : ¬ m.ctrl.Calm := mt (calm_iff hm).mpr hi
  have hw : Waits m := ⟨hc, hm, hcalm, hp.resolve_left hcalm, hg⟩
  have hsch := ht.scheduled (ht.halted hc)
  have htime : m.hw.next.time = m.hw.simuTime := by
    refine le_antisymm ?_ (hsch.time ▸ ho.le_earliest)
    rw [hsch.time, ← hw.irq]
    exact Timers.earliest_le_irqCtrlTimer _
  have hnext : m.hw.next = ⟨m.hw.next.index, m.hw.simuTime⟩ := by rw [← htime]
  by_cases hT : m.hw.timer.hwTimerTimer = m.hw.simuTime
  · -- a tick or a wake-up comes first
    have hfirst : m.hw.next.index = .hwTimer := by
      obtain ⟨-, -, hcases⟩ := Hw.next_hwmFindNextTimer m.hw
      rw [hsch] at hcases
      rcases hcases with ⟨e, -⟩ | ⟨-, h₁, -⟩ | ⟨-, h₁, -⟩
      · exact e
      · exact absurd (hw.irq.symm.trans_lt (h₁.trans_eq hT)) (lt_irrefl _)
      · exact absurd (ho.count.trans_lt (h₁.trans_eq hT)) (lt_irrefl _)
    obtain ⟨hw₁, hnow₁, hnext₁⟩ := hwTimer_then_irqCnt hw ho hP hb htick (hfirst ▸ hnext) hT
    obtain ⟨hv, hnow₂⟩ := served_by_irqCnt hw₁ (hnow₁ ▸ hnext₁)
    exact ⟨_, _, .cons (step_hwmOneEvent hc) (.single (step_hwmOneEvent hw₁.halted)), by simp, by simp,
      by simpa using hv.append _, hnow₂.trans hnow₁⟩
  · have hle : m.hw.simuTime ≤ m.hw.timer.hwTimerTimer := by
      have := ho.le_earliest
      exact this.trans (min_le_left _ _)
    obtain ⟨hv, hnow⟩ := served_by_irqCnt hw
      (next_irqCnt hsch hw.irq (lt_of_le_of_ne hle (Ne.symm hT)) ho.count)
    exact ⟨_, _, .single (step_hwmOneEvent hc), by simp, by simp, by simpa using hv, hnow⟩

/-- Software raises line 2 in one delta cycle, and halts. -/
theorem served_within_two_events_two : ∃ ls m, (Step.such (Modest 9)).Run (boot : Soc Unit) ls m ∧
    m.cpu = .halted ∧ m.ctrl.hwIrqCtrlGetHighestPrioIrq = some 2 ∧
    ∃ ls' m', Step.Run m ls' m' ∧ (∀ l ∈ ls', l.1 = .hwmOneEvent) ∧ ls'.length ≤ 2 ∧
      Served m' (ls'.flatMap Prod.snd) ∧ m'.hw.simuTime = m.hw.simuTime := by
  obtain ⟨t, ht, he⟩ := Option.map_eq_some_iff.mp (show ((boot : Soc Unit).trace
    [.posixIsrDeclare 2 0 (some ()) 0, .posixIrqEnable 2, .hwIrqCtrlSetIrq 2, .halt]).map (fun t =>
      (t.2.cpu, t.2.ctrl.hwIrqCtrlGetHighestPrioIrq, t.2.hw.simuTime, t.2.hw.signaledEnd,
        t.2.hw.endOfTime)) =
    some (.halted, some 2, 0, false, never) by rfl)
  simp only [Prod.mk.injEq] at he
  obtain ⟨hc, hi, hnow, hsig, hend⟩ := he
  have hrun := (run_of_trace ht).to_such (G := Modest 9) fun l hl m m' => by
    obtain ⟨hcall, hprio⟩ := forall_of_trace ht (P := fun a => a.timerCall = none ∧
      ∀ irq prio, a ≠ .posixIrqPrioritySet irq prio) (by simp [Act.timerCall]) l hl
    exact ⟨fun c hc => by simp [hcall] at hc, fun irq prio e => absurd e (hprio irq prio),
      by simp [hcall]⟩
  exact ⟨t.1, t.2, hrun, hc, hi, served_within_two_events hrun (by decide) (by rw [hnow]; decide) hc
    (by simp [hi]) ⟨hsig, by rw [hnow]; exact Nat.zero_le _⟩⟩

end Soc

end MeshNode
