import MeshNode.NativePosix.Ticks

/-!
# The clock

Software that asks for nothing in the past finds every timer at its time.

* `TimerCall.Sane`: what a call must not ask for;
* `Timers.OnClock`: no timer lies in the past; `OnClock.step`: every step keeps this;
* **`never_corrupted`**: the hardware models never find the next timer in the past.
-/

namespace MeshNode

open Interact

variable {F : Type}

/-- A call that asks for nothing in the past, and for no period above `P`. -/
def TimerCall.Sane (P : ℕ) (h : Hw) : TimerCall → Prop
  | .hwtimerEnable period | .hwCounterSetPeriod period => period ≤ P
  | .hwtimerWakeInTime time => h.simuTime ≤ time
  | .hwCounterStart => h.counter.counterPeriod ≤ P
  | _ => True

namespace Timers

variable {s t : Timers} {a : TimerAct} {acts : List TimerAct} {P : ℕ}

/-- No timer lies in the past, and no period exceeds `P`. -/
structure OnClock (P : ℕ) (s : Timers) : Prop where
  updated : s.Updated
  tick : s.hw.simuTime ≤ s.hw.timer.hwTimerTickTimer
  awake : s.hw.simuTime ≤ s.hw.timer.hwTimerAwakeTimer
  irq : s.hw.simuTime ≤ s.hw.irqCtrlTimer
  count : s.hw.simuTime ≤ s.hw.counter.hwCounterTimer
  tickP : s.hw.timer.tickP ≤ P
  period : s.hw.counter.counterRunning = true → s.hw.counter.counterPeriod ≤ P

theorem OnClock.le_earliest (hs : s.OnClock P) : s.hw.simuTime ≤ s.hw.earliest :=
  le_min (by rw [hs.updated]; exact le_min hs.tick hs.awake) (le_min hs.irq hs.count)

theorem OnClock.call {c : TimerCall} (hs : s.OnClock P) (hc : c.Sane P s.hw)
    (hb : s.hw.simuTime + P < 2 ^ 64) : (s.apply (.call c)).OnClock P := by
  have hu : (s.apply (.call c)).Updated := hs.updated.step (a := .call c) ⟨trivial, rfl⟩
  have hnow : (s.apply (.call c)).hw.simuTime = s.hw.simuTime := simuTime_timerCall c s.hw
  have hadd : ∀ p ≤ P, s.hw.simuTime ≤ add64 s.hw.simuTime p := fun p hp => by
    rw [add64_eq (by omega)]
    exact Nat.le_add_right _ _
  cases c with
  | hwtimerEnable p => exact ⟨hu, hadd p hc, hs.awake, hs.irq, hs.count, hc, hs.period⟩
  | hwtimerWakeInTime time =>
    rw [apply, TimerCall.apply, Hw.hwtimerWakeInTime] at hu ⊢
    split_ifs at hu ⊢
    · exact ⟨hu, hs.tick, hc, hs.irq, hs.count, hs.tickP, hs.period⟩
    · exact hs
  | hwCounterStart =>
    by_cases hr : s.hw.counter.counterRunning = true
    · have e : s.apply (.call .hwCounterStart) = s := by
        rw [apply, TimerCall.apply, Hw.hwCounterStart, if_pos hr]
      rw [e]
      exact hs
    · rw [apply, TimerCall.apply, Hw.hwCounterStart, if_neg hr]
      exact ⟨hs.updated, hs.tick, hs.awake, hs.irq, hadd _ hc, hs.tickP, fun _ => hc⟩
  | hwCounterStop =>
    have hn : s.hw.simuTime ≤ never := by
      rw [never]
      omega
    exact ⟨hu, hs.tick, hs.awake, hs.irq, hn, hs.tickP, fun h => absurd h Bool.false_ne_true⟩
  | hwCounterSetPeriod p => exact ⟨hu, hs.tick, hs.awake, hs.irq, hs.count, hs.tickP, fun _ => hc⟩
  | _ => exact ⟨hu, hs.tick, hs.awake, hs.irq, hs.count, hs.tickP, hs.period⟩

/-- Every step keeps the timers out of the past. -/
theorem OnClock.step (hs : s.OnClock P) (ha : ∀ c, a = .call c → c.Sane P s.hw)
    (hb : s.hw.simuTime + P < 2 ^ 64) (h : Step s a t) : t.OnClock P := by
  have hu := hs.updated.step h
  obtain ⟨hdue, rfl⟩ := h
  have hn : s.hw.simuTime ≤ never := by
    rw [never]
    omega
  cases a with
  | call c => exact hs.call (ha c rfl) hb
  | sleep =>
    have hle : ∀ t, s.hw.simuTime ≤ t → s.hw.earliest ≤ t →
        max s.hw.simuTime s.hw.earliest ≤ t := fun _ h h' => max_le h h'
    refine ⟨hu, hle _ hs.tick (earliest_le_tick hs.updated),
      hle _ hs.awake (earliest_le_awake hs.updated), hle _ hs.irq ?_, hle _ hs.count ?_,
      hs.tickP, hs.period⟩
    · exact (min_le_right _ _).trans (min_le_left _ _)
    · exact (min_le_right _ _).trans (min_le_right _ _)
  | awake => exact ⟨hu, hs.tick, hn, le_refl _, hs.count, hs.tickP, hs.period⟩
  | tick b =>
    have he : s.hw.simuTime = s.hw.timer.hwTimerTickTimer := le_antisymm hs.tick hdue.1
    have hp := hs.tickP
    have ht : s.hw.simuTime ≤ add64 s.hw.timer.hwTimerTickTimer s.hw.timer.tickP := by
      rw [← he, add64_eq (by omega)]
      exact Nat.le_add_right _ _
    cases b <;> exact ⟨hu, ht, hs.awake, hs.irq, hs.count, hs.tickP, hs.period⟩
  | count b =>
    have hp := hs.period hdue.1
    have ht : s.hw.simuTime ≤ add64 s.hw.simuTime s.hw.counter.counterPeriod := by
      rw [add64_eq (by omega)]
      exact Nat.le_add_right _ _
    exact ⟨hu, hs.tick, hs.awake, hs.irq, ht, hs.tickP, hs.period⟩
  | idle => exact ⟨hu, hs.tick, hs.awake, hs.irq, hn, hs.tickP, hs.period⟩
  | request => exact ⟨hu, hs.tick, hs.awake, le_refl _, hs.count, hs.tickP, hs.period⟩
  | answer b => exact ⟨hu, hs.tick, hs.awake, hn, hs.count, hs.tickP, hs.period⟩
  | _ => exact ⟨hu, hs.tick, hs.awake, hs.irq, hs.count, hs.tickP, hs.period⟩

/-- Without calls. -/
theorem OnClock.run (hs : s.OnClock P) (ha : ∀ a ∈ acts, ∀ c, a ≠ .call c)
    (h : Step.Run s acts t) (hb : t.hw.simuTime + P < 2 ^ 64) : t.OnClock P := by
  have hrun := h.such (f := fun s => s.hw.simuTime) (fun _ _ _ => simuTime_le) ha (le_refl _)
  refine hrun.invariant (I := fun u => u.OnClock P) (fun u a v hu hv => ?_) hs
  have hle := simuTime_le hv.2
  have := hv.1.2
  exact hu.step (fun c e => absurd e (hv.1.1 c)) (by omega) hv.2

end Timers

namespace Soc

open Timers

variable {m m' : Soc F} {l : Act F × List (Obs F)} {ls : List (Act F × List (Obs F))} {P : ℕ}

/-- Software asks for nothing in the past, and for no period above `P`. -/
def Sane (P : ℕ) (m : Soc F) (l : Act F × List (Obs F)) (_ : Soc F) : Prop :=
  ∀ c ∈ l.1.timerCall, c.Sane P m.hw

theorem onClock_boot : (boot : Soc F).timers.OnClock P :=
  ⟨rfl, Nat.zero_le _, Nat.zero_le _, Nat.zero_le _, Nat.zero_le _, Nat.zero_le _, nofun⟩

theorem onClock_step (hm : Timed m) (hs : m.timers.OnClock P) (hl : Step m l m')
    (hsane : Sane P m l m') (hb : m'.hw.simuTime + P < 2 ^ 64) : m'.timers.OnClock P := by
  cases hc : l.1.timerCall with
  | some c =>
    have hle := simuTime_le_of_run hm (.single hl)
    rw [hw_of_call hl hc]
    exact hs.call (hsane c hc) (by simp only [timers]; omega)
  | none =>
    obtain ⟨-, acts, hrun, hshown, -⟩ := timed_step hm hl
    refine hs.run (fun a ha c e => ?_) hrun hb
    subst e
    have := call_mem_timerActs.mp (hshown ▸ List.mem_filter.mpr ⟨ha, rfl⟩)
    simp [hc] at this

/-! ### No corrupted timer -/

theorem sound_hwmSwitch (m : Soc F) : Sound m.hwmSwitch.2 := by
  unfold hwmSwitch
  split
  · unfold hwtimerTimerReached hwtimerTickTimerReached
    dsimp only
    split_ifs <;> nofun
  · rcases m.hwIrqCtrlTimerTriggered_cases with ⟨-, e⟩ | ⟨-, e⟩ <;> rw [e]
    · exact sound_nil
    · exact Sound.append (o := [.wake]) nofun (untimed_posixIrqHandler _).sound
  · unfold hwCounterTriggered
    dsimp only
    split_ifs <;> nofun
  · nofun

theorem sound_step (hm : Timed m) (hs : m.timers.OnClock P) (hl : Step m l m') : Sound l.2 := by
  obtain ⟨a, o⟩ := l
  rcases step_eq_some.mp hl with ⟨-, h⟩ | ⟨hc, rfl, h⟩ | ⟨-, rfl, h⟩
  · rcases swStep_cases h with ⟨-, hu⟩ | ⟨-, irq, e⟩ | ⟨c, -, e⟩ | ⟨rfl, e⟩
    · exact hu.sound
    · obtain ⟨-, rfl⟩ := Prod.mk.inj e
      exact sound_nil
    · obtain ⟨-, rfl⟩ := Prod.mk.inj e
      exact sound_nil
    · obtain ⟨-, rfl⟩ := Prod.mk.inj e
      exact sound_nil
  · have hnext : m.hw.simuTime ≤ m.hw.next.time :=
      (hm.scheduled (hm.halted hc)).time ▸ hs.le_earliest
    obtain ⟨o', e, -, hsound⟩ := m.hwmSleepUntilNextTimer_eq
    rw [hwmOneEvent_eq] at h
    split_ifs at h
    · obtain ⟨-, rfl⟩ := Prod.mk.inj h
      rw [e]
      exact (hsound hnext).append (sound_hwmSwitch _)
    · rw [e] at h
      obtain ⟨-, rfl⟩ := Prod.mk.inj h
      exact hsound hnext
  · obtain ⟨-, rfl⟩ := Prod.mk.inj h
    exact sound_nil

theorem clock_run (hm : Timed m) (hs : m.timers.OnClock P)
    (h : (Step.such (Sane P)).Run m ls m') (hb : m'.hw.simuTime + P < 2 ^ 64) :
    m'.timers.OnClock P ∧ ∀ l ∈ ls, Sound l.2 := by
  induction h with
  | nil => exact ⟨hs, by simp⟩
  | cons ha h ih =>
    have hm' := (timed_step hm ha.2).1
    have hle := simuTime_le_of_run hm' h.of_such
    have hs' := onClock_step hm hs ha.2 ha.1 (by omega)
    obtain ⟨ho, hsound⟩ := ih hm' hs' hb
    exact ⟨ho, List.forall_mem_cons.mpr ⟨sound_step hm hs ha.2, hsound⟩⟩

/-- **No timer is ever found in the past.** In every run in which software asks to be woken at no
time in the past, starts the counter only after setting its period, and asks for no period above
`P`, as long as the time stays below `2 ^ 64 - P`, the hardware models never find the next timer
corrupted, and an event comes exactly at the time of its timer. -/
theorem never_corrupted (h : (Step.such (Sane P)).Run (boot : Soc F) ls m)
    (hb : m.hw.simuTime + P < 2 ^ 64) : (∀ l ∈ ls, ∀ t t' i, .corrupted t t' i ∉ l.2) ∧
      (m.cpu = .halted → m.hwmSleepUntilNextTimer.1.hw.simuTime = m.hw.next.time ∧
        m.hw.next.time = m.hw.earliest) := by
  obtain ⟨ho, hsound⟩ := clock_run timed_boot onClock_boot h hb
  refine ⟨hsound, fun hc => ?_⟩
  have hm := (timed_run h.of_such timed_boot).1
  have hsch := hm.scheduled (hm.halted hc)
  obtain ⟨o, e, -⟩ := m.hwmSleepUntilNextTimer_eq
  rw [e]
  exact ⟨max_eq_right (hsch.time ▸ ho.le_earliest), hsch.time⟩

/-- A tick asked for in advance, and the interrupt that it causes. -/
theorem never_corrupted_tick : ∃ ls m, (Step.such (Sane 9)).Run (boot : Soc Unit) ls m ∧
    ticks ls = [true] ∧ m.hw.simuTime = 5 ∧ ∀ l ∈ ls, ∀ t t' i, .corrupted t t' i ∉ l.2 := by
  obtain ⟨r, hr, he⟩ := Option.bind_eq_some_iff.mp (show
    ((boot : Soc Unit).step (.hwtimerEnable 5)).bind (fun r =>
      (r.1.trace [.halt, .hwmOneEvent, .hwmOneEvent]).map fun t =>
        (ticks ((.hwtimerEnable 5, r.2) :: t.1), t.2.hw.simuTime)) = some ([true], 5) by rfl)
  obtain ⟨t, ht, he⟩ := Option.map_eq_some_iff.mp he
  obtain ⟨hticks, htime⟩ := Prod.mk.inj he
  have hs : (Step.such (Sane 9)) boot (.hwtimerEnable 5, r.2) r.1 := by
    refine ⟨fun c hc => ?_, hr⟩
    obtain rfl := Option.some.inj hc
    exact (by decide : 5 ≤ 9)
  have hrun := Lts.Run.cons hs ((run_of_trace ht).to_such (forall_of_trace ht
    (P := fun a => ∀ m m' : Soc Unit, ∀ c ∈ a.timerCall, c.Sane 9 m.hw) (by simp [Act.timerCall])))
  exact ⟨_, t.2, hrun, hticks, htime, (never_corrupted hrun (by rw [htime]; decide)).1⟩

end Soc

end MeshNode
