import MeshNode.NativePosix.Nesting

/-!
# What the timers go through

Every step of the board is, for its timers, a short run of a machine that knows nothing of software,
interrupts and handlers.

* `TimerCall`, `TimerAct`, `Timers`, `Timers.Step`: the machine;
* `Untimed`: what leaves the timers alone;
* `Timed`: what holds of the next timer between the steps of the board;
* **`timed_step`**: every step of the board; **`timed_run`**: every run.
-/

namespace MeshNode

open Interact

variable {F : Type}

/-! ### The machine -/

/-- The functions of the timers that software calls. -/
inductive TimerCall
  | hwtimerEnable (period : ℕ)
  | hwtimerWakeInTime (time : ℕ)
  | hwtimerSetSilentTicks (sysTicks : ℤ)
  | hwCounterSetPeriod (period : ℕ)
  | hwCounterSetTarget (target : ℕ)
  | hwCounterStart
  | hwCounterStop
  | hwmSetEndOfTime (newEndOfTime : ℕ)
  deriving DecidableEq

def TimerCall.apply : TimerCall → Hw → Hw
  | .hwtimerEnable period, h => h.hwtimerEnable period
  | .hwtimerWakeInTime time, h => h.hwtimerWakeInTime time
  | .hwtimerSetSilentTicks n, h => h.hwtimerSetSilentTicks n
  | .hwCounterSetPeriod period, h => h.hwCounterSetPeriod period
  | .hwCounterSetTarget target, h => h.hwCounterSetTarget target
  | .hwCounterStart, h => h.hwCounterStart
  | .hwCounterStop, h => h.hwCounterStop
  | .hwmSetEndOfTime t, h => h.hwmSetEndOfTime t

/-- What can happen to the timers: a call, a new search for the next timer, a request to wake the
CPU, the lock to be ignored, a signal, time passing, and the timers that are due. `answer woke`: the
timer of the controller, with whether the CPU wakes up; `idle`: the counter, while it is stopped. -/
inductive TimerAct
  | call (c : TimerCall)
  | find
  | request
  | ignore
  | signal
  | sleep
  | awake
  | tick (interrupt : Bool)
  | count (interrupt : Bool)
  | idle
  | answer (woke : Bool)
  deriving DecidableEq

/-- The timers, and whether the next interrupt ignores the lock. -/
structure Timers where
  hw : Hw
  lockIgnore : Bool

namespace Timers

/-- When it can happen. -/
def Due (s : Timers) : TimerAct → Prop
  | .awake => s.hw.timer.hwTimerAwakeTimer ≤ s.hw.simuTime
  | .tick b =>
    s.hw.timer.hwTimerTickTimer ≤ s.hw.simuTime ∧ (b = true ↔ s.hw.timer.silentTicks ≤ 0)
  | .count b => s.hw.counter.counterRunning = true ∧ s.hw.counter.hwCounterTimer ≤ s.hw.simuTime ∧
    (b = true ↔ add64 s.hw.counter.counterValue 1 = s.hw.counter.counterTarget)
  | .idle => s.hw.counter.counterRunning = false
  | .answer b => s.hw.irqCtrlTimer ≤ s.hw.simuTime ∧ (s.lockIgnore = true → b = true)
  | _ => True

/-- What it does. -/
def apply (s : Timers) : TimerAct → Timers
  | .call c => { s with hw := c.apply s.hw }
  | .find => { s with hw := s.hw.hwmFindNextTimer }
  | .request => { s with hw := { s.hw with irqCtrlTimer := s.hw.simuTime } }
  | .ignore => { s with lockIgnore := true }
  | .signal => { s with hw := s.hw.hwmSignalEndHandler }
  | .sleep => { s with hw := { s.hw with simuTime := max s.hw.simuTime s.hw.earliest } }
  | .awake =>
    { hw := { s.hw with timer := { s.hw.timer with hwTimerAwakeTimer := never }.updateTimer,
                        irqCtrlTimer := s.hw.simuTime },
      lockIgnore := true }
  | .tick b =>
    let t := { s.hw.timer with
      hwTimerTickTimer := add64 s.hw.timer.hwTimerTickTimer s.hw.timer.tickP }.updateTimer
    { s with hw := { s.hw with timer :=
      if b then t else { t with silentTicks := t.silentTicks - 1 } } }
  | .count _ =>
    { s with hw := { s.hw with counter :=
      { s.hw.counter with hwCounterTimer := add64 s.hw.simuTime s.hw.counter.counterPeriod,
                          counterValue := add64 s.hw.counter.counterValue 1 } } }
  | .idle => { s with hw := { s.hw with counter := { s.hw.counter with hwCounterTimer := never } } }
  | .answer b =>
    { hw := { s.hw with irqCtrlTimer := never }, lockIgnore := if b then false else s.lockIgnore }

/-- The steps of the machine. -/
def Step : Lts TimerAct Timers := fun s a t => s.Due a ∧ t = s.apply a

end Timers

/-! ### What is seen of it -/

/-- What of the machine is seen from outside. -/
def TimerAct.isShown : TimerAct → Bool
  | .call _ | .tick _ | .count _ | .answer true => true
  | _ => false

def Obs.timerAct : Obs F → Option TimerAct
  | .wake => some (.answer true)
  | .tick b => some (.tick b)
  | .count b => some (.count b)
  | _ => none

def Act.timerCall : Act F → Option TimerCall
  | .hwtimerEnable period => some (.hwtimerEnable period.toNat)
  | .hwtimerWakeInTime time => some (.hwtimerWakeInTime time.toNat)
  | .hwtimerSetSilentTicks n => some (.hwtimerSetSilentTicks n.toInt)
  | .hwCounterSetPeriod period => some (.hwCounterSetPeriod period.toNat)
  | .hwCounterSetTarget target => some (.hwCounterSetTarget target.toNat)
  | .hwCounterStart => some .hwCounterStart
  | .hwCounterStop => some .hwCounterStop
  | .hwmSetEndOfTime t => some (.hwmSetEndOfTime t.toNat)
  | _ => none

/-- What a step shows of the timers. -/
def timerActs (l : Act F × List (Obs F)) : List TimerAct :=
  l.1.timerCall.toList.map .call ++ l.2.filterMap Obs.timerAct

namespace Soc

def timers (m : Soc F) : Timers := ⟨m.hw, m.ctrl.lockIgnore⟩

/-! ### What leaves the timers alone -/

/-- No message about a corrupted timer. -/
def Sound (o : List (Obs F)) : Prop := ∀ t t' i, Obs.corrupted t t' i ∉ o

/-- The timers do not change, and the CPU does not halt. -/
structure Untimed (m : Soc F) (r : Out F) : Prop where
  hw : r.1.hw = m.hw
  inEvent : r.1.inEvent = m.inEvent
  halted : r.1.cpu = .halted → m.cpu = .halted
  lockIgnore : r.1.ctrl.lockIgnore = m.ctrl.lockIgnore ∨ r.1.ctrl.lockIgnore = true
  shown : r.2.filterMap Obs.timerAct = []
  sound : Sound r.2

variable {m : Soc F} {r : Out F} {f : Soc F → Out F}

theorem sound_nil : Sound (F := F) [] := nofun

theorem Sound.append {o o' : List (Obs F)} (h : Sound o) (h' : Sound o') : Sound (o ++ o') :=
  fun t t' i hm => (List.mem_append.mp hm).elim (h t t' i) (h' t t' i)

theorem Untimed.refl (m : Soc F) : Untimed m (m, []) := ⟨rfl, rfl, id, .inl rfl, rfl, sound_nil⟩

theorem Untimed.andThen (h : Untimed m r) (hf : Untimed r.1 (f r.1)) :
    Untimed m (r.andThen f) where
  hw := hf.hw.trans h.hw
  inEvent := hf.inEvent.trans h.inEvent
  halted hc := h.halted (hf.halted hc)
  lockIgnore := by
    rcases hf.lockIgnore with e | e
    · exact h.lockIgnore.imp e.trans e.trans
    · exact .inr e
  shown := by simp [Out.andThen, h.shown, hf.shown]
  sound := h.sound.append hf.sound

/-- From a state that differs in nothing of this. -/
theorem Untimed.congr {n : Soc F} (h : Untimed n r) (hh : n.hw = m.hw) (hi : n.inEvent = m.inEvent)
    (hc : n.cpu = m.cpu) (hl : n.ctrl.lockIgnore = m.ctrl.lockIgnore) : Untimed m r :=
  ⟨h.hw.trans hh, h.inEvent.trans hi, fun e => hc ▸ h.halted e, hl ▸ h.lockIgnore, h.shown, h.sound⟩

theorem untimed_loopHead (m : Soc F) : Untimed m m.loopHead := by
  rcases m.loopHead_cases with ⟨-, o, e, rfl | rfl⟩ | ⟨irq, -, ⟨f, param, e⟩ | e⟩ <;> rw [e]
  · exact ⟨rfl, rfl, id, .inl rfl, rfl, nofun⟩
  · exact ⟨rfl, rfl, id, .inl rfl, rfl, nofun⟩
  · exact ⟨rfl, rfl, id, .inl rfl, rfl, nofun⟩
  · exact ⟨rfl, rfl, nofun, .inl rfl, rfl, nofun⟩

theorem untimed_posixIrqHandler (m : Soc F) : Untimed m m.posixIrqHandler := by
  unfold posixIrqHandler
  split_ifs
  · exact .refl m
  · exact (untimed_loopHead _).congr rfl rfl rfl rfl
  · exact (untimed_loopHead _).congr rfl rfl rfl rfl

theorem untimed_posixIrqHandlerImFromSw (m : Soc F) : Untimed m m.posixIrqHandlerImFromSw := by
  unfold posixIrqHandlerImFromSw
  split_ifs
  · exact ⟨rfl, rfl, nofun, .inl rfl, rfl, nofun⟩
  · exact untimed_posixIrqHandler m
  · exact .refl m

theorem untimed_hwIrqCtrlChangeLock (m : Soc F) (newLock : Bool) :
    Untimed m (m.hwIrqCtrlChangeLock newLock) := by
  unfold hwIrqCtrlChangeLock
  dsimp only
  split_ifs
  · exact Untimed.andThen ⟨rfl, rfl, id, .inl rfl, rfl, nofun⟩ (untimed_posixIrqHandlerImFromSw _)
  · exact ⟨rfl, rfl, id, .inl rfl, rfl, nofun⟩

theorem lockIgnore_irqRaisePrefix (c : IrqCtrl) (irq : ℕ) :
    (c.irqRaisePrefix irq).lockIgnore = c.lockIgnore ∨
      (c.irqRaisePrefix irq).lockIgnore = true := by
  unfold IrqCtrl.irqRaisePrefix
  dsimp only
  split_ifs
  · exact .inl rfl
  · exact .inl rfl
  · exact .inr rfl
  · exact .inl rfl

theorem untimed_hwIrqCtrlRaiseImFromSw (m : Soc F) (irq : ℕ) :
    Untimed m (m.hwIrqCtrlRaiseImFromSw irq) := by
  have h : Untimed m ({ m with ctrl := m.ctrl.irqRaisePrefix irq }, []) :=
    ⟨rfl, rfl, id, lockIgnore_irqRaisePrefix _ _, rfl, nofun⟩
  unfold hwIrqCtrlRaiseImFromSw
  dsimp only
  split_ifs
  · exact h.andThen (untimed_posixIrqHandlerImFromSw _)
  · exact h

theorem untimed_hwIrqCtrlEnableIrq (m : Soc F) (irq : ℕ) :
    Untimed m (m.hwIrqCtrlEnableIrq irq) := by
  unfold hwIrqCtrlEnableIrq
  dsimp only
  split_ifs
  · exact (untimed_hwIrqCtrlRaiseImFromSw _ _).congr rfl rfl rfl rfl
  · exact ⟨rfl, rfl, id, .inl rfl, rfl, nofun⟩

/-- **What software does to the timers**: nothing, or it raises an interrupt in one delta cycle, or
calls a function of the timers, or halts. -/
theorem swStep_cases {a : Act F} (h : m.swStep a = some r) :
    (a.timerCall = none ∧ Untimed m r) ∨
    (a.timerCall = none ∧ ∃ irq, r = (m.hwIrqCtrlSetIrq irq, [])) ∨
    (∃ c, a.timerCall = some c ∧ r = ({ m with hw := c.apply m.hw }, [])) ∨
    (a = .halt ∧ r = (m.halt, [])) := by
  cases a <;> simp only [swStep, Option.ite_none_right_eq_some, Option.some.injEq,
    reduceCtorEq] at h
  case posixIrqLock => exact .inl ⟨rfl, h ▸ untimed_hwIrqCtrlChangeLock m true⟩
  case posixIrqUnlock key => exact .inl ⟨rfl, h ▸ untimed_hwIrqCtrlChangeLock m key⟩
  case posixIrqEnable irq => exact .inl ⟨rfl, h.2 ▸ untimed_hwIrqCtrlEnableIrq m irq⟩
  case posixSwSetPendingIrq irq =>
    exact .inl ⟨rfl, h ▸ untimed_hwIrqCtrlRaiseImFromSw m irq⟩
  case posixIrqDisable | posixSwClearPendingIrq | posixIrqPrioritySet | posixIsrDeclare =>
    exact .inl ⟨rfl, h.2 ▸ ⟨rfl, rfl, id, .inl rfl, rfl, sound_nil⟩⟩
  case hwIrqCtrlClearAllEnabledIrqs | hwIrqCtrlClearAllIrqs =>
    exact .inl ⟨rfl, h ▸ ⟨rfl, rfl, id, .inl rfl, rfl, sound_nil⟩⟩
  case hwIrqCtrlSetIrq irq => exact .inr (.inl ⟨rfl, irq, h.symm⟩)
  case isrReturn ret =>
    unfold isrReturn at h
    cases hf : m.frames with
    | nil => simp [hf] at h
    | cons frame frames =>
      rw [hf] at h
      exact .inl ⟨rfl, Option.some.inj h ▸ (untimed_loopHead _).congr rfl rfl rfl rfl⟩
  case halt => exact .inr (.inr (.inr ⟨rfl, h.symm⟩))
  all_goals exact .inr (.inr (.inl ⟨_, rfl, h.symm⟩))

/-! ### Operations as runs of the machine -/

/-- The operation is the run `acts` of the machine, and shows what the run shows. -/
structure Follows (m : Soc F) (acts : List TimerAct) (r : Out F) : Prop where
  run : Timers.Step.Run m.timers acts r.1.timers
  shown : acts.filter TimerAct.isShown = r.2.filterMap Obs.timerAct

/-- The operation is a run of the machine in which no time passes. -/
def Brief (m : Soc F) (r : Out F) : Prop := ∃ acts, Follows m acts r ∧ TimerAct.sleep ∉ acts

theorem Follows.andThen {acts acts' : List TimerAct} (h : Follows m acts r)
    (hf : Follows r.1 acts' (f r.1)) : Follows m (acts ++ acts') (r.andThen f) :=
  ⟨h.run.append hf.run, by simp [Out.andThen, h.shown, hf.shown]⟩

theorem Brief.andThen (h : Brief m r) (hf : Brief r.1 (f r.1)) : Brief m (r.andThen f) := by
  obtain ⟨acts, ha, hs⟩ := h
  obtain ⟨acts', ha', hs'⟩ := hf
  exact ⟨acts ++ acts', ha.andThen ha', by simp [hs, hs']⟩

theorem Brief.refl (m : Soc F) : Brief m (m, []) := ⟨[], ⟨.nil _, rfl⟩, nofun⟩

/-- One act. -/
theorem Brief.single {a : TimerAct} (ha : m.timers.Due a) (hr : r.1.timers = m.timers.apply a)
    (ho : [a].filter TimerAct.isShown = r.2.filterMap Obs.timerAct) (hs : a ≠ .sleep) : Brief m r :=
  ⟨[a], ⟨.single ⟨ha, hr⟩, ho⟩, by simpa using hs.symm⟩

theorem Untimed.brief (h : Untimed m r) : Brief m r := by
  rcases h.lockIgnore with e | e
  · have ht : r.1.timers = m.timers := by rw [timers, timers, h.hw, e]
    exact ⟨[], ⟨ht ▸ .nil _, h.shown.symm⟩, nofun⟩
  · refine .single (a := .ignore) trivial ?_ h.shown.symm nofun
    rw [timers, h.hw, e]
    rfl

theorem brief_hwIrqCtrlSetIrq (m : Soc F) (irq : ℕ) : Brief m (m.hwIrqCtrlSetIrq irq, []) := by
  have h : Brief m ({ m with ctrl := m.ctrl.irqRaisePrefix irq }, []) :=
    Untimed.brief ⟨rfl, rfl, id, lockIgnore_irqRaisePrefix _ _, rfl, sound_nil⟩
  unfold hwIrqCtrlSetIrq awakeInOneDelta
  dsimp only
  split_ifs
  · obtain ⟨acts, ha, hs⟩ := h
    refine ⟨acts ++ [.request, .find], ⟨ha.run.append ?_, ?_⟩, by simp [hs]⟩
    · exact .cons ⟨trivial, rfl⟩ (.single ⟨trivial, rfl⟩)
    · simp [ha.shown, TimerAct.isShown]
  · exact h

theorem brief_hwmEventEnd (m : Soc F) : Brief m (m.hwmEventEnd, []) := by
  unfold hwmEventEnd
  split_ifs
  · exact .single (a := .find) trivial rfl rfl nofun
  · exact .refl m

theorem brief_halt (m : Soc F) : Brief m (m.halt, []) := by
  unfold halt
  dsimp only
  split_ifs
  · obtain ⟨acts, ha, hs⟩ := brief_hwmEventEnd { m with cpu := .halted }
    exact ⟨acts, ⟨ha.run, ha.shown⟩, hs⟩
  · exact ⟨[], ⟨.nil _, rfl⟩, nofun⟩

/-! ### Events -/

/-- Raising an interrupt from the hardware, as the rest of an event. -/
def thenSetIrq (irq : ℕ) (m : Soc F) : Out F := (m.hwIrqCtrlSetIrq irq, [])

theorem hwtimerTickTimerReached_eq (m : Soc F) : m.hwtimerTickTimerReached =
    if m.hw.timer.silentTicks > 0 then
      ({ m with hw := (m.timers.apply (.tick false)).hw }, [.tick false])
    else Out.andThen ({ m with hw := (m.timers.apply (.tick true)).hw }, [.tick true])
      (thenSetIrq timerTickIrq) := rfl

theorem brief_hwtimerTickTimerReached (h : m.hw.timer.hwTimerTickTimer ≤ m.hw.simuTime) :
    Brief m m.hwtimerTickTimerReached := by
  rw [hwtimerTickTimerReached_eq]
  split_ifs with hs
  · exact .single (a := .tick false) ⟨h, iff_of_false nofun (not_le.mpr hs)⟩ rfl rfl nofun
  · exact Brief.andThen
      (.single (a := .tick true) ⟨h, iff_of_true rfl (not_lt.mp hs)⟩ rfl rfl nofun)
      (brief_hwIrqCtrlSetIrq _ _)

theorem irqRaisePrefix_phony (c : IrqCtrl) :
    c.irqRaisePrefix phonyHardIrq = { c with lockIgnore := true } := by
  rw [IrqCtrl.irqRaisePrefix, if_neg (by decide), if_pos rfl]

theorem hwtimerAwakeTimerReached_eq (m : Soc F) : m.hwtimerAwakeTimerReached =
    { m with hw := ((m.timers.apply .awake).apply .find).hw,
             ctrl := { m.ctrl with lockIgnore := true } } := by
  unfold hwtimerAwakeTimerReached hwIrqCtrlSetIrq awakeInOneDelta
  dsimp only
  rw [irqRaisePrefix_phony, if_pos (.inr rfl)]
  rfl

theorem brief_hwtimerAwakeTimerReached (h : m.hw.timer.hwTimerAwakeTimer ≤ m.hw.simuTime) :
    Brief m (m.hwtimerAwakeTimerReached, []) := by
  rw [hwtimerAwakeTimerReached_eq]
  exact ⟨[.awake, .find], ⟨.cons ⟨h, rfl⟩ (.single ⟨trivial, rfl⟩), rfl⟩, by simp⟩

theorem brief_hwtimerTimerReached (h : m.hw.timer.hwTimerTimer ≤ m.hw.simuTime) :
    Brief m m.hwtimerTimerReached := by
  have key : ∀ n : Soc F, Brief m (n, []) → n.hw.simuTime = m.hw.simuTime → Brief m
      (if n.hw.timer.hwTimerTickTimer = m.hw.timer.hwTimerTimer then n.hwtimerTickTimerReached
        else (n, [])) := by
    intro n hn he
    split_ifs with hd
    · exact hn.andThen (brief_hwtimerTickTimerReached (by rw [hd, he]; exact h))
    · exact hn
  refine key _ ?_ ?_
  · split_ifs with hd
    · exact brief_hwtimerAwakeTimerReached (hd ▸ h)
    · exact .refl m
  · split_ifs
    · rw [hwtimerAwakeTimerReached_eq]
      rfl
    · rfl

theorem brief_hwIrqCtrlTimerTriggered (h : m.hw.irqCtrlTimer ≤ m.hw.simuTime) :
    Brief m m.hwIrqCtrlTimerTriggered := by
  rcases m.hwIrqCtrlTimerTriggered_cases with ⟨hw, e⟩ | ⟨-, e⟩ <;> rw [e]
  · exact .single (a := .answer false) ⟨h, fun hl => absurd (.inr hl) hw⟩ rfl rfl nofun
  · have hs : Brief m ({ m with hw := { m.hw with irqCtrlTimer := never },
                                ctrl := { m.ctrl with lockIgnore := false },
                                cpu := .running, inEvent := true }, [.wake]) :=
      .single (a := .answer true) ⟨h, fun _ => rfl⟩ rfl rfl nofun
    exact hs.andThen (untimed_posixIrqHandler _).brief

theorem hwCounterTriggered_eq (m : Soc F) : m.hwCounterTriggered =
    if m.hw.counter.counterRunning = false then
      ({ m with hw := (m.timers.apply .idle).hw }, [])
    else if add64 m.hw.counter.counterValue 1 = m.hw.counter.counterTarget then
      Out.andThen ({ m with hw := (m.timers.apply (.count true)).hw }, [.count true])
        (thenSetIrq counterEventIrq)
    else ({ m with hw := (m.timers.apply (.count false)).hw }, [.count false]) := rfl

theorem brief_hwCounterTriggered (h : m.hw.counter.hwCounterTimer ≤ m.hw.simuTime) :
    Brief m m.hwCounterTriggered := by
  rw [hwCounterTriggered_eq]
  split_ifs with hr ht
  · exact .single (a := .idle) hr rfl rfl nofun
  · exact Brief.andThen (.single (a := .count true)
      ⟨Bool.eq_true_of_not_eq_false hr, h, iff_of_true rfl ht⟩ rfl rfl nofun)
      (brief_hwIrqCtrlSetIrq _ _)
  · exact .single (a := .count false)
      ⟨Bool.eq_true_of_not_eq_false hr, h, iff_of_false nofun ht⟩ rfl rfl nofun

/-- Time passes up to the next timer, unless that has passed already. -/
theorem hwmSleepUntilNextTimer_eq (m : Soc F) :
    ∃ o, m.hwmSleepUntilNextTimer =
      ({ m with hw := { m.hw with simuTime := max m.hw.simuTime m.hw.next.time },
                cpu := if m.hw.signaledEnd = true ∨
                  max m.hw.simuTime m.hw.next.time > m.hw.endOfTime then .exited 0 else m.cpu }, o) ∧
      o.filterMap Obs.timerAct = [] ∧
      (m.hw.simuTime ≤ m.hw.next.time → Sound o) := by
  unfold hwmSleepUntilNextTimer Out.andThen
  dsimp only
  by_cases h : m.hw.next.time ≥ m.hw.simuTime
  · rw [if_pos h, max_eq_right h]
    dsimp only
    split_ifs
    · exact ⟨_, rfl, rfl, fun _ => by simp [Sound]⟩
    · exact ⟨_, rfl, rfl, fun _ => sound_nil⟩
  · rw [if_neg h, max_eq_left (not_le.mp h).le]
    dsimp only
    split_ifs
    · exact ⟨_, rfl, rfl, fun h' => absurd h' h⟩
    · exact ⟨_, rfl, rfl, fun h' => absurd h' h⟩

/-! ### Steps and runs -/

/-- What holds between two steps: the next timer is the earliest one unless the hardware models wait
inside an event, and they do not while the CPU is halted. -/
structure Timed (m : Soc F) : Prop where
  scheduled : m.inEvent = false → m.hw.Scheduled
  halted : m.cpu = .halted → m.inEvent = false

theorem timed_boot : Timed (boot : Soc F) := ⟨fun _ => Hw.scheduled_hwmFindNextTimer _, nofun⟩

theorem Timed.untimed (hm : Timed m) (h : Untimed m r) : Timed r.1 :=
  ⟨fun hi => by rw [h.hw]; exact hm.scheduled (h.inEvent ▸ hi),
    fun hc => h.inEvent.trans (hm.halted (h.halted hc))⟩

theorem scheduled_timerCall {h : Hw} (hs : h.Scheduled) (c : TimerCall) : (c.apply h).Scheduled := by
  cases c with
  | hwtimerEnable => exact Hw.scheduled_hwmFindNextTimer _
  | hwtimerWakeInTime time =>
    rw [TimerCall.apply, Hw.hwtimerWakeInTime]
    split_ifs
    · exact Hw.scheduled_hwmFindNextTimer _
    · exact hs
  | hwCounterStart =>
    rw [TimerCall.apply, Hw.hwCounterStart]
    split_ifs
    · exact hs
    · exact Hw.scheduled_hwmFindNextTimer _
  | hwCounterStop => exact Hw.scheduled_hwmFindNextTimer _
  | hwtimerSetSilentTicks | hwCounterSetPeriod | hwCounterSetTarget | hwmSetEndOfTime =>
    exact hs.congr rfl rfl rfl rfl

theorem Timed.hwIrqCtrlSetIrq (hm : Timed m) (irq : ℕ) : Timed (m.hwIrqCtrlSetIrq irq) := by
  unfold Soc.hwIrqCtrlSetIrq awakeInOneDelta
  dsimp only
  split_ifs
  · exact ⟨fun _ => Hw.scheduled_hwmFindNextTimer _, hm.halted⟩
  · exact ⟨hm.scheduled, hm.halted⟩

theorem Timed.halt (hm : Timed m) : Timed m.halt := by
  unfold Soc.halt
  dsimp only
  split_ifs with hi
  · rw [hwmEventEnd, if_pos rfl]
    exact ⟨fun _ => Hw.scheduled_hwmFindNextTimer _, fun _ => rfl⟩
  · exact ⟨hm.scheduled, fun _ => Bool.eq_false_of_not_eq_true hi⟩

/-- A step matches a run of the machine that shows what the step shows. Time passes, if at all, at
its beginning. -/
def Times (l : Act F × List (Obs F)) (acts : List TimerAct) : Prop :=
  acts.filter TimerAct.isShown = timerActs l ∧ TimerAct.sleep ∉ acts.tail

theorem Brief.times {a : Act F} (h : Brief m r) (ha : a.timerCall = none) :
    ∃ acts, Timers.Step.Run m.timers acts r.1.timers ∧ Times (a, r.2) acts := by
  obtain ⟨acts, hf, hs⟩ := h
  exact ⟨acts, hf.run, by rw [hf.shown, timerActs, ha]; rfl, fun h => hs (List.mem_of_mem_tail h)⟩

theorem brief_hwmSwitch (h : m.hw.timerList m.hw.next.index ≤ m.hw.simuTime)
    (hn : m.hw.next.index ≠ .none) : Brief m m.hwmSwitch := by
  unfold hwmSwitch
  split
  next hi => exact brief_hwtimerTimerReached (by simpa only [hi, Hw.timerList] using h)
  next hi => exact brief_hwIrqCtrlTimerTriggered (by simpa only [hi, Hw.timerList] using h)
  next hi => exact brief_hwCounterTriggered (by simpa only [hi, Hw.timerList] using h)
  next hi => exact absurd hi hn

theorem inEvent_hwtimerTimerReached (m : Soc F) : m.hwtimerTimerReached.1.inEvent = m.inEvent ∧
    m.hwtimerTimerReached.1.cpu = m.cpu := by
  unfold hwtimerTimerReached hwtimerTickTimerReached hwtimerAwakeTimerReached Soc.hwIrqCtrlSetIrq
    awakeInOneDelta
  dsimp only
  split_ifs <;> exact ⟨rfl, rfl⟩

theorem inEvent_hwCounterTriggered (m : Soc F) : m.hwCounterTriggered.1.inEvent = m.inEvent ∧
    m.hwCounterTriggered.1.cpu = m.cpu := by
  unfold hwCounterTriggered Soc.hwIrqCtrlSetIrq awakeInOneDelta
  dsimp only
  split_ifs <;> exact ⟨rfl, rfl⟩

/-- After the switch of an event, the CPU is halted or the hardware models wait. -/
theorem hwmSwitch_halted (hc : m.cpu = .halted) (hn : m.hw.next.index ≠ .none) :
    m.hwmSwitch.1.cpu = .halted ∨ m.hwmSwitch.1.inEvent = true := by
  unfold hwmSwitch
  split
  · exact .inl ((inEvent_hwtimerTimerReached m).2.trans hc)
  · rcases m.hwIrqCtrlTimerTriggered_cases with ⟨-, e⟩ | ⟨-, e⟩ <;> rw [e]
    · exact .inl hc
    · exact .inr (untimed_posixIrqHandler _).inEvent
  · exact .inl ((inEvent_hwCounterTriggered m).2.trans hc)
  next hi => exact absurd hi hn

theorem Timed.hwmEventEnd (h : m.cpu = .halted ∨ m.inEvent = true) : Timed m.hwmEventEnd := by
  unfold Soc.hwmEventEnd
  split_ifs with hc
  · exact ⟨fun _ => Hw.scheduled_hwmFindNextTimer _, fun _ => rfl⟩
  · have hi := h.resolve_left hc
    exact ⟨fun hi' => absurd hi' (by simp [hi]), fun hc' => absurd hc' hc⟩

/-- **An event** lets time pass up to the next timer, and then handles it. -/
theorem timed_hwmOneEvent (hm : Timed m) (hc : m.cpu = .halted) : Timed m.hwmOneEvent.1 ∧
    ∃ acts, Timers.Step.Run m.timers (.sleep :: acts) m.hwmOneEvent.1.timers ∧
      acts.filter TimerAct.isShown = m.hwmOneEvent.2.filterMap Obs.timerAct ∧
      TimerAct.sleep ∉ acts := by
  have hsch := hm.scheduled (hm.halted hc)
  obtain ⟨o, e, ho, -⟩ := m.hwmSleepUntilNextTimer_eq
  have hsleep : Timers.Step m.timers .sleep m.hwmSleepUntilNextTimer.1.timers := by
    rw [e]
    refine ⟨trivial, ?_⟩
    simp only [timers, Timers.apply, hsch.time]
  rw [hwmOneEvent_eq]
  split_ifs with hh
  · have hn : m.hwmSleepUntilNextTimer.1.hw.next.index ≠ .none := by
      rw [e]
      exact hsch.ne_none
    have hsw : Brief m.hwmSleepUntilNextTimer.1 m.hwmSleepUntilNextTimer.1.hwmSwitch := by
      refine brief_hwmSwitch ?_ hn
      rw [e]
      exact hsch.index.le.trans (le_max_right _ _)
    obtain ⟨acts, ha, hs⟩ := hsw.andThen (f := fun n => (n.hwmEventEnd, [])) (brief_hwmEventEnd _)
    refine ⟨Timed.hwmEventEnd (hwmSwitch_halted hh hn), acts, .cons hsleep ha.run, ?_, hs⟩
    rw [ha.shown, e]
    simp [Out.andThen, ho]
  · refine ⟨⟨fun _ => ?_, fun h => absurd h hh⟩, [], .single hsleep, ?_, List.not_mem_nil⟩
    · rw [e]
      exact hsch.congr rfl rfl rfl rfl
    · rw [e]
      exact ho.symm

/-- **Every step** of the board, for its timers. -/
theorem timed_step {l : Act F × List (Obs F)} {m' : Soc F} (hm : Timed m) (h : Step m l m') :
    Timed m' ∧ ∃ acts, Timers.Step.Run m.timers acts m'.timers ∧ Times l acts := by
  obtain ⟨a, o⟩ := l
  rcases step_eq_some.mp h with ⟨-, h⟩ | ⟨hc, rfl, h⟩ | ⟨-, rfl, h⟩
  · rcases swStep_cases h with ⟨ha, hu⟩ | ⟨ha, irq, e⟩ | ⟨c, ha, e⟩ | ⟨rfl, e⟩
    · exact ⟨hm.untimed hu, hu.brief.times ha⟩
    · obtain ⟨rfl, rfl⟩ := Prod.mk.inj e
      exact ⟨hm.hwIrqCtrlSetIrq irq, (brief_hwIrqCtrlSetIrq m irq).times ha⟩
    · obtain ⟨rfl, rfl⟩ := Prod.mk.inj e
      exact ⟨⟨fun hi => scheduled_timerCall (hm.scheduled hi) c, hm.halted⟩, [.call c],
        .single ⟨trivial, rfl⟩, by simp [timerActs, ha, TimerAct.isShown], nofun⟩
    · obtain ⟨rfl, rfl⟩ := Prod.mk.inj e
      exact ⟨hm.halt, (brief_halt m).times rfl⟩
  · obtain ⟨ht, acts, hrun, hs, hn⟩ := timed_hwmOneEvent hm hc
    rw [h] at ht hrun hs
    exact ⟨ht, _, hrun, hs, hn⟩
  · obtain ⟨rfl, rfl⟩ := Prod.mk.inj h
    exact ⟨⟨fun hi => (hm.scheduled hi).congr rfl rfl rfl rfl, hm.halted⟩, [.signal],
      .single ⟨trivial, rfl⟩, rfl, nofun⟩

/-- **Every run** of the board is, for its timers, a run of the machine, step by step. -/
theorem timed_run {m' : Soc F} {ls : List (Act F × List (Obs F))} (h : Step.Run m ls m')
    (hm : Timed m) : Timed m' ∧ ∃ actss, Timers.Step.Run m.timers actss.flatten m'.timers ∧
      List.Forall₂ Times ls actss := by
  have hstep : ∀ (n : Soc F) l n' (s : Timers), (s = n.timers ∧ Timed n) → Step n l n' →
      ∃ acts t, Timers.Step.Run s acts t ∧ (t = n'.timers ∧ Timed n') ∧ Times l acts := by
    rintro n l n' s ⟨rfl, hn⟩ hl
    obtain ⟨hn', acts, hrun, ht⟩ := timed_step hn hl
    exact ⟨acts, _, hrun, ⟨rfl, hn'⟩, ht⟩
  obtain ⟨actss, s, hrun, ⟨rfl, hm'⟩, hq⟩ := h.simulate hstep ⟨rfl, hm⟩
  exact ⟨hm', actss, hrun, hq⟩

/-- What a run shows. -/
theorem shown_flatten {ls : List (Act F × List (Obs F))} {actss : List (List TimerAct)}
    (h : List.Forall₂ Times ls actss) :
    actss.flatten.filter TimerAct.isShown = ls.flatMap timerActs := by
  induction h with
  | nil => rfl
  | cons hl _ ih => rw [List.flatten_cons, List.filter_append, hl.1, ih, List.flatMap_cons]

end Soc

end MeshNode
