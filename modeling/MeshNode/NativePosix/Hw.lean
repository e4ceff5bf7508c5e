import Mathlib.Data.List.Basic
import Mathlib.Order.Lattice
import Mathlib.Tactic.Ring

/-!
# The timers of the simulated board

Simulated time is a number of microseconds below `2 ^ 64`.

* `HwTimer`, `HwCounter`, `Hw`: the variables of the tick and wake-up timers, of the counter, and of
  the top level that finds the next event;
* `hwmFindNextTimer`, **`next_hwmFindNextTimer`**: the next timer is the earliest one;
* `Scheduled`: the next timer is up to date;
* `hwtimerEnable`, `hwtimerWakeInTime` and others: the system tick and the wake-up timer;
* `hwCounterStart`, `hwCounterStop` and others: the counter.
-/

namespace MeshNode

/-- The sum of two values of `uint64_t`. -/
def add64 (a b : ℕ) : ℕ := (a + b) % 2 ^ 64

/-- `NEVER`. -/
abbrev never : ℕ := 2 ^ 64 - 1

/-- The system tick and the timer that wakes the CPU. -/
structure HwTimer where
  hwTimerTimer : ℕ
  hwTimerTickTimer : ℕ
  hwTimerAwakeTimer : ℕ
  tickP : ℕ
  silentTicks : ℤ

structure HwCounter where
  hwCounterTimer : ℕ
  counterRunning : Bool
  counterValue : ℕ
  counterTarget : ℕ
  counterPeriod : ℕ

/-- The values of `next_timer_index`. -/
inductive TimerIndex
  | hwTimer | irqCnt | hwCounter | none
  deriving DecidableEq

/-- `next_timer_index` and `next_timer_time`. -/
structure NextTimer where
  index : TimerIndex
  time : ℕ

/-- The variables of the top level, with those of its timers. -/
structure Hw where
  simuTime : ℕ
  endOfTime : ℕ
  signaledEnd : Bool
  next : NextTimer
  timer : HwTimer
  irqCtrlTimer : ℕ
  counter : HwCounter

namespace HwTimer

/-- `hwtimer_update_timer`. -/
def updateTimer (t : HwTimer) : HwTimer :=
  { t with hwTimerTimer := min t.hwTimerTickTimer t.hwTimerAwakeTimer }

/-- `hwtimer_init`, without the clocks of the host. -/
def init (t : HwTimer) : HwTimer :=
  { t with silentTicks := 0, hwTimerTickTimer := never, hwTimerAwakeTimer := never }.updateTimer

end HwTimer

/-- `hw_counter_init`. -/
def HwCounter.init : HwCounter where
  hwCounterTimer := never
  counterTarget := never
  counterValue := 0
  counterRunning := false
  counterPeriod := never

namespace Hw

/-- The variables when the process starts. -/
def static : Hw where
  simuTime := 0
  endOfTime := never
  signaledEnd := false
  next := ⟨.none, 0⟩
  timer := ⟨0, 0, 0, 0, 0⟩
  irqCtrlTimer := never
  counter := ⟨0, false, 0, 0, 0⟩

/-- `hwm_get_time`. -/
def hwmGetTime (h : Hw) : ℕ := h.simuTime

/-- `hwm_set_end_of_time`. -/
def hwmSetEndOfTime (h : Hw) (newEndOfTime : ℕ) : Hw := { h with endOfTime := newEndOfTime }

/-- `hwm_signal_end_handler`. -/
def hwmSignalEndHandler (h : Hw) : Hw := { h with signaledEnd := true }

/-! ### The next timer -/

/-- `Timer_list`. -/
def timerList (h : Hw) : TimerIndex → ℕ
  | .hwTimer => h.timer.hwTimerTimer
  | .irqCnt => h.irqCtrlTimer
  | .hwCounter => h.counter.hwCounterTimer
  | .none => 0

/-- One iteration of the loop of `hwm_find_next_timer`. -/
def findNextBody (h : Hw) (next : NextTimer) (i : TimerIndex) : NextTimer :=
  if next.time > h.timerList i then ⟨i, h.timerList i⟩ else next

/-- `hwm_find_next_timer`. -/
def hwmFindNextTimer (h : Hw) : Hw :=
  { h with next := [TimerIndex.irqCnt, .hwCounter].foldl h.findNextBody
                    ⟨.hwTimer, h.timerList .hwTimer⟩ }

/-! ### The system tick and the wake-up timer -/

/-- `hwtimer_enable`. -/
def hwtimerEnable (h : Hw) (period : ℕ) : Hw :=
  let t := { h.timer with tickP := period, hwTimerTickTimer := add64 h.hwmGetTime period }
  { h with timer := t.updateTimer }.hwmFindNextTimer

/-- `hwtimer_wake_in_time`. -/
def hwtimerWakeInTime (h : Hw) (time : ℕ) : Hw :=
  if h.timer.hwTimerAwakeTimer > time then
    { h with timer := { h.timer with hwTimerAwakeTimer := time }.updateTimer }.hwmFindNextTimer
  else h

/-- `hwtimer_set_silent_ticks`. -/
def hwtimerSetSilentTicks (h : Hw) (sysTicks : ℤ) : Hw :=
  { h with timer := { h.timer with silentTicks := sysTicks } }

/-! ### The counter -/

/-- `hw_counter_set_period`. -/
def hwCounterSetPeriod (h : Hw) (period : ℕ) : Hw :=
  { h with counter := { h.counter with counterPeriod := period } }

/-- `hw_counter_set_target`. -/
def hwCounterSetTarget (h : Hw) (target : ℕ) : Hw :=
  { h with counter := { h.counter with counterTarget := target } }

/-- `hw_counter_start`. -/
def hwCounterStart (h : Hw) : Hw :=
  if h.counter.counterRunning then h
  else
    let c := { h.counter with counterRunning := true,
                              hwCounterTimer := add64 h.hwmGetTime h.counter.counterPeriod }
    { h with counter := c }.hwmFindNextTimer

/-- `hw_counter_stop`. -/
def hwCounterStop (h : Hw) : Hw :=
  { h with counter := { h.counter with counterRunning := false,
                                       hwCounterTimer := never } }.hwmFindNextTimer

/-- `hwm_init`, for these variables: `hw_irq_ctrl_init` leaves its timer alone. -/
def hwmInit (h : Hw) : Hw :=
  { h with timer := h.timer.init, counter := .init }.hwmFindNextTimer

/-! ### What the search finds -/

/-- The earliest of the three timers. -/
def earliest (h : Hw) : ℕ := min h.timer.hwTimerTimer (min h.irqCtrlTimer h.counter.hwCounterTimer)

theorem timerList_next (h : Hw) (n : NextTimer) : { h with next := n }.timerList = h.timerList := by
  funext i
  cases i <;> rfl

/-- The next timer is the one that the search finds. -/
def Scheduled (h : Hw) : Prop := h.hwmFindNextTimer.next = h.next

/-- **The search finds the earliest timer**; among those of the same time, the first one of the
list. -/
theorem next_hwmFindNextTimer (h : Hw) :
    h.hwmFindNextTimer.next.time = h.earliest ∧
    h.timerList h.hwmFindNextTimer.next.index = h.earliest ∧
    (h.hwmFindNextTimer.next.index = .hwTimer ∧
        h.timer.hwTimerTimer ≤ h.irqCtrlTimer ∧ h.timer.hwTimerTimer ≤ h.counter.hwCounterTimer ∨
      h.hwmFindNextTimer.next.index = .irqCnt ∧
        h.irqCtrlTimer < h.timer.hwTimerTimer ∧ h.irqCtrlTimer ≤ h.counter.hwCounterTimer ∨
      h.hwmFindNextTimer.next.index = .hwCounter ∧
        h.counter.hwCounterTimer < h.timer.hwTimerTimer ∧
        h.counter.hwCounterTimer < h.irqCtrlTimer) := by
  have key : ∀ n : NextTimer, n = [TimerIndex.irqCnt, .hwCounter].foldl h.findNextBody
      ⟨.hwTimer, h.timerList .hwTimer⟩ → n.time = h.earliest ∧ h.timerList n.index = h.earliest ∧
      (n.index = .hwTimer ∧
          h.timer.hwTimerTimer ≤ h.irqCtrlTimer ∧ h.timer.hwTimerTimer ≤ h.counter.hwCounterTimer ∨
        n.index = .irqCnt ∧
          h.irqCtrlTimer < h.timer.hwTimerTimer ∧ h.irqCtrlTimer ≤ h.counter.hwCounterTimer ∨
        n.index = .hwCounter ∧ h.counter.hwCounterTimer < h.timer.hwTimerTimer ∧
          h.counter.hwCounterTimer < h.irqCtrlTimer) := by
    rintro n rfl
    simp only [List.foldl_cons, List.foldl_nil, findNextBody, earliest]
    split_ifs with h₁ h₂ h₃ <;> simp only [timerList, false_and, true_and, or_false,
      false_or] at * <;> omega
  exact key _ rfl

namespace Scheduled

variable {h h' : Hw}

theorem time (hs : h.Scheduled) : h.next.time = h.earliest :=
  (congrArg NextTimer.time hs).symm.trans (next_hwmFindNextTimer h).1

theorem index (hs : h.Scheduled) : h.timerList h.next.index = h.next.time := by
  rw [hs.time, ← hs]
  exact (next_hwmFindNextTimer h).2.1

theorem ne_none (hs : h.Scheduled) : h.next.index ≠ .none := by
  rw [← hs]
  rcases (next_hwmFindNextTimer h).2.2 with ⟨e, -⟩ | ⟨e, -⟩ | ⟨e, -⟩ <;> rw [e] <;> nofun

/-- The next timer depends on the three timers only. -/
theorem congr (hs : h.Scheduled) (hn : h'.next = h.next)
    (ht : h'.timer.hwTimerTimer = h.timer.hwTimerTimer) (hi : h'.irqCtrlTimer = h.irqCtrlTimer)
    (hc : h'.counter.hwCounterTimer = h.counter.hwCounterTimer) : h'.Scheduled := by
  have hl : h'.timerList = h.timerList := by
    funext i
    cases i <;> simp only [timerList, ht, hi, hc]
  rw [Scheduled, hn, ← hs]
  simp only [hwmFindNextTimer, findNextBody, hl, List.foldl_cons, List.foldl_nil]

end Scheduled

theorem scheduled_hwmFindNextTimer (h : Hw) : h.hwmFindNextTimer.Scheduled := by
  rw [Scheduled, hwmFindNextTimer]
  simp only [hwmFindNextTimer, findNextBody, timerList_next, List.foldl_cons, List.foldl_nil]

end Hw

end MeshNode
