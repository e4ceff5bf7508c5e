import MeshNode.NativePosix.Hw
import MeshNode.NativePosix.IrqCtrl

/-!
# The simulated board

The CPU runs software, in a thread or in an interrupt handler, until it halts. While it is halted
the hardware models process one event after another, until one of them raises an interrupt that
wakes it. What the software does is not known: any of the functions of the board, in any order.

* `Entry`, `Frame`, `Soc`: the vector table, what `posix_irq_handler` keeps for the time a handler
  runs, and the board;
* `Obs`: what can be seen from outside;
* `loopHead`, `posixIrqHandler`, `vectorToIrq`, `isrReturn`: interrupts, up to the start of the next
  handler and from its end on;
* `hwIrqCtrlSetIrq`, `hwIrqCtrlChangeLock`, `hwIrqCtrlEnableIrq` and others: the functions of the
  controller that lead to an interrupt;
* `hwtimerTimerReached`, `hwCounterTriggered`, `hwmOneEvent`: the events of the hardware models;
* `Act`, `Soc.step`, `Soc.Step`: what can happen next.
-/

namespace MeshNode

open Interact

/-- `TIMER_TICK_IRQ`. -/
abbrev timerTickIrq : ℕ := 0

/-- `OFFLOAD_SW_IRQ`. -/
abbrev offloadSwIrq : ℕ := 1

/-- `COUNTER_EVENT_IRQ`. -/
abbrev counterEventIrq : ℕ := 2

/-- `ISR_FLAG_DIRECT`. -/
abbrev isrFlagDirect : UInt32 := 1

/-- An entry of `irq_vector_table`, for handlers named by `F`; without one where the pointer is
`NULL`. -/
structure Entry (F : Type) where
  irq : ℕ
  func : Option F
  param : ℕ
  flags : UInt32

/-- An argument of an error message. -/
inductive ErrArg
  | int (v : ℕ)
  | str (s : String)

/-- What the loop of `posix_irq_handler` keeps while a handler runs, and the handler's kind. -/
structure Frame where
  lastCurrentRunningPrio : ℕ
  lastRunningIrq : Option ℕ
  direct : Bool

inductive Cpu
  | running
  | halted
  | exited (code : ℕ)
  deriving DecidableEq

/-- The board. `inEvent`: the hardware models wait, inside an event, for the CPU to halt again. -/
structure Soc (F : Type) where
  ctrl : IrqCtrl
  hw : Hw
  irqVectorTable : Vector (Entry F) nIrqs
  currentlyRunningIrq : Option ℕ
  maySwap : Bool
  nested : ℕ
  frames : List Frame
  cpu : Cpu
  inEvent : Bool

/-- What can be seen: a lock key, a handler that starts, the place where `posix_irq_handler` may
call the scheduler, the CPU waking up, a system tick and a step of the counter (with an interrupt or
without), messages and the end of the process. -/
inductive Obs (F : Type)
  | key (previousLock : Bool)
  | isr (irq : ℕ) (func : F) (param : ℕ)
  | swap
  | wake
  | tick (interrupt : Bool)
  | count (interrupt : Bool)
  | corrupted (nextTimerTime simuTime : ℕ) (idx : TimerIndex)
  | stopped (simuTime : ℕ)
  | error (format : String) (arg : ErrArg)

/-- A state and what was seen on the way. -/
abbrev Out (F : Type) := Soc F × List (Obs F)

/-- First `r`, then `f`. -/
def Out.andThen {F : Type} (r : Out F) (f : Soc F → Out F) : Out F :=
  ((f r.1).1, r.2 ++ (f r.1).2)

namespace Soc

variable {F : Type}

/-- The board when `hwm_init` is done and the CPU starts. -/
def boot : Soc F where
  ctrl := IrqCtrl.static.hwIrqCtrlInit
  hw := Hw.static.hwmInit
  irqVectorTable := .replicate _ ⟨0, none, 0, 0⟩
  currentlyRunningIrq := none
  maySwap := false
  nested := 0
  frames := []
  cpu := .running
  inEvent := false

/-- `posix_print_error_and_exit`. -/
def posixPrintErrorAndExit (m : Soc F) (format : String) (arg : ErrArg) : Out F :=
  ({ m with cpu := .exited 1 }, [.error format arg])

/-! ### Interrupts -/

/-- `vector_to_irq`, up to the start of the handler. -/
def vectorToIrq (m : Soc F) (irqNbr : ℕ) : Out F :=
  match m.irqVectorTable[irqNbr]?.bind fun e => e.func.map fun f => (f, e.param) with
  | none => m.posixPrintErrorAndExit "Received irq %i without a registered handler\n" (.int irqNbr)
  | some (f, param) => (m, [.isr irqNbr f param])

/-- The handler of a line is called directly. -/
def isDirect (m : Soc F) (irqNbr : ℕ) : Bool :=
  (m.irqVectorTable[irqNbr]?.map fun e => decide (e.flags &&& isrFlagDirect ≠ 0)).getD false

/-- The head of the loop of `posix_irq_handler`: either a handler starts, or the function ends. -/
def loopHead (m : Soc F) : Out F :=
  match m.ctrl.hwIrqCtrlGetHighestPrioIrq with
  | none =>
    ({ m with nested := m.nested - 1 },
      if m.maySwap ∧ m.ctrl.currentlyRunningPrio = 256 then [.swap] else [])
  | some irqNbr =>
    let frame : Frame := ⟨m.ctrl.currentlyRunningPrio, m.currentlyRunningIrq, m.isDirect irqNbr⟩
    vectorToIrq
      { m with ctrl := (m.ctrl.hwIrqCtrlSetCurPrio (m.ctrl.prioOf irqNbr)).hwIrqCtrlClearIrq irqNbr,
               currentlyRunningIrq := some irqNbr, frames := frame :: m.frames } irqNbr

/-- `posix_irq_handler`, up to the start of a handler or its end. -/
def posixIrqHandler (m : Soc F) : Out F :=
  if m.ctrl.irqsLocked then (m, [])
  else loopHead { m with maySwap := if m.nested = 0 then false else m.maySwap,
                         nested := m.nested + 1 }

/-- What the loop of `posix_irq_handler` does when the handler that runs returns `ret`. -/
def restore (m : Soc F) (ret : ℤ) (frame : Frame) (frames : List Frame) : Soc F :=
  { m with maySwap := if frame.direct then m.maySwap || decide (ret ≠ 0) else true,
           currentlyRunningIrq := frame.lastRunningIrq,
           ctrl := m.ctrl.hwIrqCtrlSetCurPrio frame.lastCurrentRunningPrio,
           frames := frames }

/-- The handler that runs returns `ret`, and the loop goes on. -/
def isrReturn (m : Soc F) (ret : ℤ) : Option (Out F) :=
  match m.frames with
  | [] => none
  | frame :: frames => some (m.restore ret frame frames).loopHead

/-- `posix_irq_handler_im_from_sw`. -/
def posixIrqHandlerImFromSw (m : Soc F) : Out F :=
  if m.ctrl.hwIrqCtrlGetHighestPrioIrq ≠ none then
    if m.cpu ≠ .running then
      m.posixPrintErrorAndExit "programming error: %s called from a HW model thread\n"
        (.str "posix_irq_handler_im_from_sw")
    else m.posixIrqHandler
  else (m, [])

/-- `hw_irq_ctrl_change_lock`, with the answer. -/
def hwIrqCtrlChangeLock (m : Soc F) (newLock : Bool) : Out F :=
  let previousLock := m.ctrl.irqsLocked
  let m := { m with ctrl := { m.ctrl with irqsLocked := newLock } }
  (if previousLock = true ∧ newLock = false ∧ m.ctrl.irqStatus ≠ 0 then
      Out.andThen (m, [.key previousLock]) posixIrqHandlerImFromSw
    else (m, [.key previousLock]))

/-- `hw_irq_ctrl_raise_im_from_sw`. -/
def hwIrqCtrlRaiseImFromSw (m : Soc F) (irq : ℕ) : Out F :=
  let m := { m with ctrl := m.ctrl.irqRaisePrefix irq }
  if m.ctrl.irqsLocked = false then m.posixIrqHandlerImFromSw else (m, [])

/-- `hw_irq_ctrl_enable_irq`. -/
def hwIrqCtrlEnableIrq (m : Soc F) (irq : ℕ) : Out F :=
  let m := { m with ctrl := { m.ctrl with irqMask := m.ctrl.irqMask ||| Lines.bit 64 irq } }
  if m.ctrl.irqPremask &&& Lines.bit 64 irq ≠ 0 then m.hwIrqCtrlRaiseImFromSw irq else (m, [])

/-- The CPU is to be awoken in one delta cycle, unless interrupts are locked. -/
def awakeInOneDelta (m : Soc F) : Soc F :=
  if m.ctrl.irqsLocked = false ∨ m.ctrl.lockIgnore = true then
    { m with hw := { m.hw with irqCtrlTimer := m.hw.hwmGetTime }.hwmFindNextTimer }
  else m

/-- `hw_irq_ctrl_set_irq`. -/
def hwIrqCtrlSetIrq (m : Soc F) (irq : ℕ) : Soc F :=
  { m with ctrl := m.ctrl.irqRaisePrefix irq }.awakeInOneDelta

/-- `posix_interrupt_raised`: the hardware models wait while the CPU runs. The code that had halted
it calls `posix_irq_handler`. -/
def posixInterruptRaised (m : Soc F) : Out F :=
  Out.andThen ({ m with cpu := .running, inEvent := true }, [.wake]) posixIrqHandler

/-- `irq_raising_from_hw_now`. -/
def irqRaisingFromHwNow (m : Soc F) : Out F :=
  if m.ctrl.irqsLocked = false ∨ m.ctrl.lockIgnore = true then
    { m with ctrl := { m.ctrl with lockIgnore := false } }.posixInterruptRaised
  else (m, [])

/-- `hw_irq_ctrl_timer_triggered`. -/
def hwIrqCtrlTimerTriggered (m : Soc F) : Out F :=
  { m with hw := { m.hw with irqCtrlTimer := never } }.irqRaisingFromHwNow

/-! ### Events -/

/-- `hwtimer_tick_timer_reached`; the delay of the real-time mode has no effect on the board. -/
def hwtimerTickTimerReached (m : Soc F) : Out F :=
  let t := { m.hw.timer with
    hwTimerTickTimer := add64 m.hw.timer.hwTimerTickTimer m.hw.timer.tickP }.updateTimer
  if t.silentTicks > 0 then
    ({ m with hw := { m.hw with timer := { t with silentTicks := t.silentTicks - 1 } } },
      [.tick false])
  else ({ m with hw := { m.hw with timer := t } }.hwIrqCtrlSetIrq timerTickIrq, [.tick true])

/-- `hwtimer_awake_timer_reached`. -/
def hwtimerAwakeTimerReached (m : Soc F) : Soc F :=
  let t := { m.hw.timer with hwTimerAwakeTimer := never }.updateTimer
  { m with hw := { m.hw with timer := t } }.hwIrqCtrlSetIrq phonyHardIrq

/-- `hwtimer_timer_reached`. -/
def hwtimerTimerReached (m : Soc F) : Out F :=
  let now := m.hw.timer.hwTimerTimer
  let m := if m.hw.timer.hwTimerAwakeTimer = now then m.hwtimerAwakeTimerReached else m
  if m.hw.timer.hwTimerTickTimer = now then m.hwtimerTickTimerReached else (m, [])

/-- `hw_counter_triggered`. -/
def hwCounterTriggered (m : Soc F) : Out F :=
  let c := m.hw.counter
  if c.counterRunning = false then
    ({ m with hw := { m.hw with counter := { c with hwCounterTimer := never } } }, [])
  else
    let c := { c with hwCounterTimer := add64 m.hw.hwmGetTime c.counterPeriod,
                      counterValue := add64 c.counterValue 1 }
    let m := { m with hw := { m.hw with counter := c } }
    if c.counterValue = c.counterTarget then
      (m.hwIrqCtrlSetIrq counterEventIrq, [.count true])
    else (m, [.count false])

/-- `hwm_sleep_until_next_timer`. -/
def hwmSleepUntilNextTimer (m : Soc F) : Out F :=
  let r : Out F :=
    if m.hw.next.time ≥ m.hw.simuTime then
      ({ m with hw := { m.hw with simuTime := m.hw.next.time } }, [])
    else (m, [.corrupted m.hw.next.time m.hw.simuTime m.hw.next.index])
  r.andThen fun m =>
    if m.hw.signaledEnd = true ∨ m.hw.simuTime > m.hw.endOfTime then
      ({ m with cpu := .exited 0 }, [.stopped m.hw.simuTime])
    else (m, [])

/-- The switch of `hwm_one_event`. -/
def hwmSwitch (m : Soc F) : Out F :=
  match m.hw.next.index with
  | .hwTimer => m.hwtimerTimerReached
  | .irqCnt => m.hwIrqCtrlTimerTriggered
  | .hwCounter => m.hwCounterTriggered
  | .none => m.posixPrintErrorAndExit "next_timer_index corrupted\n" (.str "")

/-- The end of `hwm_one_event`; when the CPU was woken, this waits for it to halt. -/
def hwmEventEnd (m : Soc F) : Soc F :=
  if m.cpu = .halted then { m with hw := m.hw.hwmFindNextTimer, inEvent := false } else m

/-- `hwm_one_event`. -/
def hwmOneEvent (m : Soc F) : Out F :=
  (m.hwmSleepUntilNextTimer.andThen fun m =>
    if m.cpu = .halted then m.hwmSwitch else (m, [])).andThen fun m => (m.hwmEventEnd, [])

/-- The CPU halts: the hardware models go on where they wait. -/
def halt (m : Soc F) : Soc F :=
  let m := { m with cpu := .halted }
  if m.inEvent then m.hwmEventEnd else m

end Soc

/-! ### What can happen next -/

/-- What software and hardware can do. The software raises, enables and clears interrupts, moves the
lock, sets the timers, returns from a handler and halts the CPU. -/
inductive Act (F : Type)
  | posixIrqLock
  | posixIrqUnlock (key : Bool)
  | posixIrqEnable (irq : ℕ)
  | posixIrqDisable (irq : ℕ)
  | posixSwSetPendingIrq (irq : ℕ)
  | posixSwClearPendingIrq (irq : ℕ)
  | posixIrqPrioritySet (irq prio : ℕ)
  | posixIsrDeclare (irq : ℕ) (flags : UInt32) (func : Option F) (param : ℕ)
  | hwIrqCtrlSetIrq (irq : ℕ)
  | hwIrqCtrlClearAllEnabledIrqs
  | hwIrqCtrlClearAllIrqs
  | hwtimerEnable (period : UInt64)
  | hwtimerWakeInTime (time : UInt64)
  | hwtimerSetSilentTicks (sysTicks : Int64)
  | hwCounterSetPeriod (period : UInt64)
  | hwCounterSetTarget (target : UInt64)
  | hwCounterStart
  | hwCounterStop
  | hwmSetEndOfTime (newEndOfTime : UInt64)
  | isrReturn (ret : ℤ)
  | halt
  | hwmSignalEnd
  | hwmOneEvent

namespace Soc

variable {F : Type}

/-- `posix_isr_declare`. -/
def posixIsrDeclare (m : Soc F) (irqP : ℕ) (flags : UInt32) (isrP : Option F) (param : ℕ) : Soc F :=
  { m with irqVectorTable := m.irqVectorTable.setIfInBounds irqP ⟨irqP, isrP, param, flags⟩ }

/-- What the software does next, while the CPU runs. Numbers of lines for which the code has no
defined behaviour are no possibility. -/
def swStep (m : Soc F) : Act F → Option (Out F)
  | .posixIrqLock => some (m.hwIrqCtrlChangeLock true)
  | .posixIrqUnlock key => some (m.hwIrqCtrlChangeLock key)
  | .posixIrqEnable irq => if irq < 64 then some (m.hwIrqCtrlEnableIrq irq) else none
  | .posixIrqDisable irq =>
    if irq < 64 then some ({ m with ctrl := m.ctrl.hwIrqCtrlDisableIrq irq }, []) else none
  | .posixSwSetPendingIrq irq => some (m.hwIrqCtrlRaiseImFromSw irq)
  | .posixSwClearPendingIrq irq =>
    if irq < 64 then some ({ m with ctrl := m.ctrl.hwIrqCtrlClearIrq irq }, []) else none
  | .posixIrqPrioritySet irq prio =>
    if irq < nIrqs then some ({ m with ctrl := m.ctrl.hwIrqCtrlPrioSet irq prio }, []) else none
  | .posixIsrDeclare irq flags func param =>
    if irq < nIrqs then some (m.posixIsrDeclare irq flags func param, []) else none
  | .hwIrqCtrlSetIrq irq => some (m.hwIrqCtrlSetIrq irq, [])
  | .hwIrqCtrlClearAllEnabledIrqs =>
    some ({ m with ctrl := m.ctrl.hwIrqCtrlClearAllEnabledIrqs }, [])
  | .hwIrqCtrlClearAllIrqs => some ({ m with ctrl := m.ctrl.hwIrqCtrlClearAllIrqs }, [])
  | .hwtimerEnable period => some ({ m with hw := m.hw.hwtimerEnable period.toNat }, [])
  | .hwtimerWakeInTime time => some ({ m with hw := m.hw.hwtimerWakeInTime time.toNat }, [])
  | .hwtimerSetSilentTicks n => some ({ m with hw := m.hw.hwtimerSetSilentTicks n.toInt }, [])
  | .hwCounterSetPeriod period => some ({ m with hw := m.hw.hwCounterSetPeriod period.toNat }, [])
  | .hwCounterSetTarget target => some ({ m with hw := m.hw.hwCounterSetTarget target.toNat }, [])
  | .hwCounterStart => some ({ m with hw := m.hw.hwCounterStart }, [])
  | .hwCounterStop => some ({ m with hw := m.hw.hwCounterStop }, [])
  | .hwmSetEndOfTime t => some ({ m with hw := m.hw.hwmSetEndOfTime t.toNat }, [])
  | .isrReturn ret => m.isrReturn ret
  | .halt => some (m.halt, [])
  | .hwmSignalEnd | .hwmOneEvent => none

/-- **What can happen next**: the software goes on while the CPU runs, the hardware models while it
is halted; a signal to the process can come at any moment. -/
def step (m : Soc F) (a : Act F) : Option (Out F) :=
  match a, m.cpu with
  | .hwmSignalEnd, .running | .hwmSignalEnd, .halted =>
    some ({ m with hw := m.hw.hwmSignalEndHandler }, [])
  | a, .running => m.swStep a
  | .hwmOneEvent, .halted => some m.hwmOneEvent
  | _, _ => none

/-- The steps, with what is seen. -/
def Step : Lts (Act F × List (Obs F)) (Soc F) := fun m l m' => m.step l.1 = some (m', l.2)

/-- The run of a list of steps, if they are possible. -/
def trace (m : Soc F) : List (Act F) → Option (List (Act F × List (Obs F)) × Soc F)
  | [] => some ([], m)
  | a :: as => (m.step a).bind fun r => (r.1.trace as).map fun t => ((a, r.2) :: t.1, t.2)

theorem run_of_trace {m : Soc F} {as : List (Act F)} {t : List (Act F × List (Obs F)) × Soc F}
    (h : m.trace as = some t) : Step.Run m t.1 t.2 := by
  induction as generalizing m t with
  | nil =>
    obtain rfl := Option.some.inj h
    exact .nil _
  | cons a as ih =>
    obtain ⟨r, hr, h⟩ := Option.bind_eq_some_iff.mp h
    obtain ⟨t, ht, rfl⟩ := Option.map_eq_some_iff.mp h
    exact .cons hr (ih ht)

theorem fst_of_trace {m : Soc F} {as : List (Act F)} {t : List (Act F × List (Obs F)) × Soc F}
    (h : m.trace as = some t) : t.1.map Prod.fst = as := by
  induction as generalizing m t with
  | nil =>
    obtain rfl := Option.some.inj h
    rfl
  | cons a as ih =>
    obtain ⟨r, -, h⟩ := Option.bind_eq_some_iff.mp h
    obtain ⟨t, ht, rfl⟩ := Option.map_eq_some_iff.mp h
    exact congrArg (a :: ·) (ih ht)

/-- What all acts of a list satisfy, the run satisfies. -/
theorem forall_of_trace {m : Soc F} {as : List (Act F)} {t : List (Act F × List (Obs F)) × Soc F}
    (h : m.trace as = some t) {P : Act F → Prop} (hP : ∀ a ∈ as, P a) : ∀ l ∈ t.1, P l.1 :=
  fun _ hl => hP _ (fst_of_trace h ▸ List.mem_map_of_mem hl)

end Soc

end MeshNode
