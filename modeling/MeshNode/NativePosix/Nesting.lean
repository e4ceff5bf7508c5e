import MeshNode.NativePosix.Dispatch

/-!
# Nested interrupts

* `Quiet`, `Kind`, `StepKind`, **`kind_step`**: a step leaves the handlers alone, or calls
  `posix_irq_handler`, or returns to it;
* `activeLines`: the handlers that run, told from the steps that were made;
* `Nested`: the nesting counter, the running line and the frames tell the same;
* **`interrupts_nest`**: at every moment of every run;
* `Fresh`, **`most_urgent_starts`**: a handler that starts is that of the most urgent line;
* **`vectored_le_asked`**, **`pending_until_served`**: no interrupt is invented or lost.
-/

namespace MeshNode

open Interact Lines

variable {F : Type}

namespace Soc

/-! ### The kinds of steps -/

/-- No handler starts, ends or is declared. -/
structure Quiet (m : Soc F) (r : Out F) : Prop where
  frames : r.1.frames = m.frames
  nested : r.1.nested = m.nested
  irq : r.1.currentlyRunningIrq = m.currentlyRunningIrq
  prio : r.1.ctrl.currentlyRunningPrio = m.ctrl.currentlyRunningPrio
  table : r.1.irqVectorTable = m.irqVectorTable
  vectored : r.2.filterMap Obs.vectored = []
  latched : m.ctrl.Latched → r.1.ctrl.Latched

/-- An operation in which no handler returns. -/
inductive Kind (m : Soc F) : Out F → Prop
  | quiet {r : Out F} : Quiet m r → Kind m r
  | handled {r : Out F} : Quiet m r → Kind m (r.andThen posixIrqHandler)

/-- A step of the board, as far as handlers are concerned. -/
inductive StepKind (m : Soc F) : Act F → Out F → Prop
  | stays {a : Act F} {r : Out F} : (∀ ret, a ≠ .isrReturn ret) → Kind m r → StepKind m a r
  | declared (irq : ℕ) (flags : UInt32) (func : Option F) (param : ℕ) :
      StepKind m (.posixIsrDeclare irq flags func param) (m.posixIsrDeclare irq flags func param, [])
  | returned {frame : Frame} {frames : List Frame} (ret : ℤ) : m.frames = frame :: frames →
      StepKind m (.isrReturn ret) (m.restore ret frame frames).loopHead

variable {m : Soc F} {r : Out F} {f : Soc F → Out F}

theorem Quiet.refl (m : Soc F) : Quiet m (m, []) := ⟨rfl, rfl, rfl, rfl, rfl, rfl, id⟩

theorem Quiet.andThen (h : Quiet m r) (hf : Quiet r.1 (f r.1)) : Quiet m (r.andThen f) where
  frames := hf.frames.trans h.frames
  nested := hf.nested.trans h.nested
  irq := hf.irq.trans h.irq
  prio := hf.prio.trans h.prio
  table := hf.table.trans h.table
  vectored := by simp [Out.andThen, h.vectored, hf.vectored]
  latched hm := hf.latched (h.latched hm)

/-- First a quiet operation, then one that is quiet or calls `posix_irq_handler`. -/
theorem Quiet.andThen_kind (h : Quiet m r) (hf : Quiet r.1 (f r.1) ∨ f r.1 = r.1.posixIrqHandler) :
    Kind m (r.andThen f) := by
  rcases hf with hf | hf
  · exact .quiet (h.andThen hf)
  · have : r.andThen f = r.andThen posixIrqHandler := by simp [Out.andThen, hf]
    exact this ▸ .handled h

theorem posixIrqHandlerImFromSw_cases (m : Soc F) :
    Quiet m m.posixIrqHandlerImFromSw ∨ m.posixIrqHandlerImFromSw = m.posixIrqHandler := by
  unfold posixIrqHandlerImFromSw
  split_ifs
  · exact .inl ⟨rfl, rfl, rfl, rfl, rfl, rfl, id⟩
  · exact .inr rfl
  · exact .inl (.refl m)

theorem kind_hwIrqCtrlChangeLock (m : Soc F) (newLock : Bool) :
    Kind m (m.hwIrqCtrlChangeLock newLock) := by
  unfold hwIrqCtrlChangeLock
  dsimp only
  split_ifs
  · exact Quiet.andThen_kind ⟨rfl, rfl, rfl, rfl, rfl, rfl, fun h => h.congr rfl rfl rfl⟩
      (posixIrqHandlerImFromSw_cases _)
  · exact .quiet ⟨rfl, rfl, rfl, rfl, rfl, rfl, fun h => h.congr rfl rfl rfl⟩

theorem kind_hwIrqCtrlRaiseImFromSw (m : Soc F) {c : IrqCtrl} {irq : ℕ}
    (hc : c.currentlyRunningPrio = m.ctrl.currentlyRunningPrio)
    (hl : m.ctrl.Latched → (c.irqRaisePrefix irq).Latched) :
    Kind m (hwIrqCtrlRaiseImFromSw { m with ctrl := c } irq) := by
  have h : Quiet m ({ m with ctrl := c.irqRaisePrefix irq }, []) :=
    ⟨rfl, rfl, rfl, by simpa using hc, rfl, rfl, hl⟩
  unfold hwIrqCtrlRaiseImFromSw
  dsimp only
  split_ifs
  · exact h.andThen_kind (posixIrqHandlerImFromSw_cases _)
  · exact .quiet h

theorem kind_hwIrqCtrlEnableIrq (m : Soc F) (irq : ℕ) : Kind m (m.hwIrqCtrlEnableIrq irq) := by
  unfold hwIrqCtrlEnableIrq
  dsimp only
  split_ifs with h
  · exact kind_hwIrqCtrlRaiseImFromSw m rfl fun hm => hm.enable_raise (and_bit_ne_zero.mp h)
  · exact .quiet ⟨rfl, rfl, rfl, rfl, rfl, rfl, fun hm => hm.enable (mt and_bit_ne_zero.mpr h)⟩

theorem quiet_hwIrqCtrlSetIrq (m : Soc F) (irq : ℕ) : Quiet m (m.hwIrqCtrlSetIrq irq, []) := by
  unfold hwIrqCtrlSetIrq awakeInOneDelta
  dsimp only
  split_ifs <;> exact ⟨rfl, rfl, rfl, by simp, rfl, rfl, fun h => h.irqRaisePrefix irq⟩

theorem quiet_hwmEventEnd (m : Soc F) : Quiet m (m.hwmEventEnd, []) := by
  unfold hwmEventEnd
  split_ifs <;> exact ⟨rfl, rfl, rfl, rfl, rfl, rfl, id⟩

theorem quiet_halt (m : Soc F) : Quiet m (m.halt, []) := by
  unfold halt
  dsimp only
  split_ifs
  · have h := quiet_hwmEventEnd { m with cpu := .halted }
    exact ⟨h.frames, h.nested, h.irq, h.prio, h.table, h.vectored, h.latched⟩
  · exact ⟨rfl, rfl, rfl, rfl, rfl, rfl, id⟩

theorem quiet_hwtimerTickTimerReached (m : Soc F) : Quiet m m.hwtimerTickTimerReached := by
  unfold hwtimerTickTimerReached hwIrqCtrlSetIrq awakeInOneDelta
  dsimp only
  split_ifs
  · exact ⟨rfl, rfl, rfl, rfl, rfl, rfl, id⟩
  · exact ⟨rfl, rfl, rfl, by simp, rfl, rfl, fun h => h.irqRaisePrefix timerTickIrq⟩
  · exact ⟨rfl, rfl, rfl, by simp, rfl, rfl, fun h => h.irqRaisePrefix timerTickIrq⟩

theorem quiet_hwtimerAwakeTimerReached (m : Soc F) :
    Quiet m (m.hwtimerAwakeTimerReached, []) := by
  unfold hwtimerAwakeTimerReached hwIrqCtrlSetIrq awakeInOneDelta
  dsimp only
  split_ifs <;> exact ⟨rfl, rfl, rfl, by simp, rfl, rfl, fun h => h.irqRaisePrefix phonyHardIrq⟩

theorem quiet_hwtimerTimerReached (m : Soc F) : Quiet m m.hwtimerTimerReached := by
  have h : ∀ n : Soc F, Quiet m (n, []) → Quiet m
      (if n.hw.timer.hwTimerTickTimer = m.hw.timer.hwTimerTimer then n.hwtimerTickTimerReached
        else (n, [])) := by
    intro n hn
    split_ifs
    · exact hn.andThen (quiet_hwtimerTickTimerReached n)
    · exact hn
  refine h _ ?_
  split_ifs
  · exact quiet_hwtimerAwakeTimerReached m
  · exact .refl m

theorem quiet_hwCounterTriggered (m : Soc F) : Quiet m m.hwCounterTriggered := by
  unfold hwCounterTriggered hwIrqCtrlSetIrq awakeInOneDelta
  dsimp only
  split_ifs
  · exact ⟨rfl, rfl, rfl, rfl, rfl, rfl, id⟩
  · exact ⟨rfl, rfl, rfl, by simp, rfl, rfl, fun h => h.irqRaisePrefix counterEventIrq⟩
  · exact ⟨rfl, rfl, rfl, by simp, rfl, rfl, fun h => h.irqRaisePrefix counterEventIrq⟩
  · exact ⟨rfl, rfl, rfl, rfl, rfl, rfl, id⟩

theorem quiet_hwmSleepUntilNextTimer (m : Soc F) : Quiet m m.hwmSleepUntilNextTimer := by
  unfold hwmSleepUntilNextTimer Out.andThen
  dsimp only
  split_ifs <;> exact ⟨rfl, rfl, rfl, rfl, rfl, rfl, id⟩

/-- The timer of the controller wakes the CPU, which calls `posix_irq_handler`, or does nothing. -/
theorem hwIrqCtrlTimerTriggered_cases (m : Soc F) :
    (¬ (m.ctrl.irqsLocked = false ∨ m.ctrl.lockIgnore = true) ∧
      m.hwIrqCtrlTimerTriggered = ({ m with hw := { m.hw with irqCtrlTimer := never } }, [])) ∨
    ((m.ctrl.irqsLocked = false ∨ m.ctrl.lockIgnore = true) ∧ m.hwIrqCtrlTimerTriggered =
      Out.andThen ({ m with hw := { m.hw with irqCtrlTimer := never },
                            ctrl := { m.ctrl with lockIgnore := false },
                            cpu := .running, inEvent := true }, [.wake]) posixIrqHandler) := by
  unfold hwIrqCtrlTimerTriggered irqRaisingFromHwNow
  dsimp only
  split_ifs with h
  · exact .inr ⟨h, rfl⟩
  · exact .inl ⟨h, rfl⟩

theorem cpu_loopHead (m : Soc F) : m.loopHead.1.cpu = m.cpu ∨ m.loopHead.1.cpu = .exited 1 := by
  rcases m.loopHead_cases with ⟨-, o, e, -⟩ | ⟨irq, -, ⟨f, param, e⟩ | e⟩ <;> rw [e]
  · exact .inl rfl
  · exact .inl rfl
  · exact .inr rfl

theorem cpu_posixIrqHandler (m : Soc F) :
    m.posixIrqHandler.1.cpu = m.cpu ∨ m.posixIrqHandler.1.cpu = .exited 1 := by
  unfold posixIrqHandler
  split_ifs
  · exact .inl rfl
  · exact cpu_loopHead _
  · exact cpu_loopHead _

theorem kind_hwmOneEvent (m : Soc F) : Kind m m.hwmOneEvent := by
  have hs := quiet_hwmSleepUntilNextTimer m
  rw [hwmOneEvent_eq]
  split_ifs with hc
  · generalize m.hwmSleepUntilNextTimer = s at hs hc ⊢
    have quiet : ∀ n : Out F, Quiet s.1 n → Kind m (n.1.hwmEventEnd, s.2 ++ n.2) := by
      intro n hn
      have h := (hs.andThen (f := fun _ => n) hn).andThen (f := fun x => (x.hwmEventEnd, []))
        (quiet_hwmEventEnd _)
      simpa [Out.andThen] using Kind.quiet h
    unfold hwmSwitch
    split
    · exact quiet _ (quiet_hwtimerTimerReached _)
    · rcases hwIrqCtrlTimerTriggered_cases s.1 with ⟨-, e⟩ | ⟨-, e⟩ <;> rw [e]
      · exact quiet _ ⟨rfl, rfl, rfl, rfl, rfl, rfl, id⟩
      · -- the CPU runs, so that the event does not end yet
        have hq : Quiet m ({ s.1 with hw := { s.1.hw with irqCtrlTimer := never },
                                      ctrl := { s.1.ctrl with lockIgnore := false },
                                      cpu := .running, inEvent := true }, s.2 ++ [.wake]) :=
          ⟨hs.frames, hs.nested, hs.irq, hs.prio, hs.table, by simp [hs.vectored, Obs.vectored],
            fun h => (hs.latched h).congr rfl rfl rfl⟩
        have he : ∀ n : Soc F, n.cpu = .running ∨ n.cpu = .exited 1 → n.hwmEventEnd = n := by
          intro n hn
          unfold hwmEventEnd
          rw [if_neg (by rcases hn with hn | hn <;> simp [hn])]
        have := Kind.handled hq
        simp only [Out.andThen, List.append_assoc] at this ⊢
        rw [he _ (cpu_posixIrqHandler _)]
        exact this
    · exact quiet _ (quiet_hwCounterTriggered _)
    · exact quiet _ ⟨rfl, rfl, rfl, rfl, rfl, rfl, id⟩
  · exact .quiet hs

theorem kind_swStep {a : Act F} (h : m.swStep a = some r) : StepKind m a r := by
  cases a <;> simp only [swStep, Option.ite_none_right_eq_some, Option.some.injEq,
    reduceCtorEq] at h
  case isrReturn ret =>
    unfold isrReturn at h
    cases hf : m.frames with
    | nil => simp [hf] at h
    | cons frame frames =>
      rw [hf] at h
      exact Option.some.inj h ▸ .returned ret hf
  case posixIsrDeclare irq flags func param => exact h.2 ▸ .declared irq flags func param
  all_goals refine .stays (by simp) ?_
  case posixIrqLock => exact h ▸ kind_hwIrqCtrlChangeLock m true
  case posixIrqUnlock key => exact h ▸ kind_hwIrqCtrlChangeLock m key
  case posixIrqEnable irq => exact h.2 ▸ kind_hwIrqCtrlEnableIrq m irq
  case posixIrqDisable irq =>
    exact h.2 ▸ .quiet ⟨rfl, rfl, rfl, rfl, rfl, rfl, fun hm => hm.disableIrq irq⟩
  case posixSwSetPendingIrq irq =>
    exact h ▸ kind_hwIrqCtrlRaiseImFromSw m rfl fun hm => hm.irqRaisePrefix irq
  case posixSwClearPendingIrq irq =>
    exact h.2 ▸ .quiet ⟨rfl, rfl, rfl, rfl, rfl, rfl, fun hm => hm.clearIrq irq⟩
  case posixIrqPrioritySet =>
    exact h.2 ▸ .quiet ⟨rfl, rfl, rfl, rfl, rfl, rfl, fun hm => hm.congr rfl rfl rfl⟩
  case hwIrqCtrlSetIrq irq => exact h ▸ .quiet (quiet_hwIrqCtrlSetIrq m irq)
  case hwIrqCtrlClearAllEnabledIrqs =>
    exact h ▸ .quiet ⟨rfl, rfl, rfl, rfl, rfl, rfl, fun hm => hm.clearAllEnabledIrqs⟩
  case hwIrqCtrlClearAllIrqs =>
    exact h ▸ .quiet ⟨rfl, rfl, rfl, rfl, rfl, rfl, fun _ => .clearAllIrqs _⟩
  case halt => exact h ▸ .quiet (quiet_halt m)
  all_goals exact h ▸ .quiet ⟨rfl, rfl, rfl, rfl, rfl, rfl, id⟩

/-- **The kinds of steps.** -/
theorem kind_step {l : Act F × List (Obs F)} {m' : Soc F} (h : Step m l m') :
    StepKind m l.1 (m', l.2) := by
  obtain ⟨a, o⟩ := l
  rcases step_eq_some.mp h with ⟨-, h⟩ | ⟨-, rfl, h⟩ | ⟨-, rfl, h⟩
  · exact kind_swStep h
  · exact .stays (by simp) (h ▸ kind_hwmOneEvent m)
  · exact .stays (by simp) (h ▸ .quiet ⟨rfl, rfl, rfl, rfl, rfl, rfl, id⟩)

/-! ### The frames -/

/-- The lines whose handlers run after a step, innermost first: a return takes the innermost away,
and a handler that is entered, or at which the process ends because it is missing, comes on top. -/
def nest (active : List ℕ) (l : Act F × List (Obs F)) : List ℕ :=
  (vectored l).reverse ++ match l.1 with
    | .isrReturn _ => active.tail
    | _ => active

/-- The lines whose handlers run after the steps `ls` from the start on, innermost first. -/
def activeLines (ls : List (Act F × List (Obs F))) : List ℕ := ls.foldl nest []

theorem nest_of_stays {a : Act F} (ha : ∀ ret, a ≠ .isrReturn ret) (active : List ℕ)
    (o : List (Obs F)) : nest active (a, o) = (o.filterMap Obs.vectored).reverse ++ active := by
  cases a with
  | isrReturn ret => exact absurd rfl (ha ret)
  | _ => rfl

/-- The counter and the numbers of lines tell how handlers are nested: `active` are the lines whose
handlers run. -/
structure Nested (m : Soc F) (active : List ℕ) : Prop where
  count : m.nested = m.frames.length
  linked : m.currentlyRunningIrq :: m.frames.map Frame.lastRunningIrq =
    active.map some ++ [none]

variable {active : List ℕ}

theorem Nested.length (h : Nested m active) : m.frames.length = active.length := by
  simpa using congrArg List.length h.linked

/-- No number is kept exactly when no handler runs. -/
theorem Nested.irq_eq_none_iff (h : Nested m active) :
    m.currentlyRunningIrq = none ↔ m.nested = 0 := by
  rw [h.count, h.length, List.length_eq_zero_iff]
  have hl := h.linked
  cases active with
  | nil => simpa using (List.cons.inj hl).1
  | cons irq active => simp [(List.cons.inj hl).1]

theorem Nested.of_quiet (h : Nested m active) (hq : Quiet m r) : Nested r.1 active :=
  ⟨by rw [hq.nested, hq.frames, h.count], by rw [hq.irq, hq.frames]; exact h.linked⟩

/-- The loop runs inside one more call than there are handlers running. -/
theorem nested_loopHead (hc : m.nested = m.frames.length + 1)
    (hl : m.currentlyRunningIrq :: m.frames.map Frame.lastRunningIrq = active.map some ++ [none]) :
    Nested m.loopHead.1 ((m.loopHead.2.filterMap Obs.vectored).reverse ++ active) := by
  rcases m.loopHead_cases with ⟨-, o, e, rfl | rfl⟩ | ⟨irq, -, ⟨f, param, e⟩ | e⟩ <;> rw [e]
  · exact ⟨by simp [hc], hl⟩
  · exact ⟨by simp [hc], hl⟩
  · exact ⟨hc, congrArg (some irq :: ·) hl⟩
  · exact ⟨hc, congrArg (some irq :: ·) hl⟩

theorem Nested.posixIrqHandler (h : Nested m active) : Nested m.posixIrqHandler.1
    ((m.posixIrqHandler.2.filterMap Obs.vectored).reverse ++ active) := by
  unfold Soc.posixIrqHandler
  split_ifs
  · exact h
  · exact nested_loopHead (congrArg (· + 1) h.count) h.linked
  · exact nested_loopHead (congrArg (· + 1) h.count) h.linked

theorem Nested.step {a : Act F} (h : Nested m active) (hk : StepKind m a r) :
    Nested r.1 (nest active (a, r.2)) := by
  cases hk with
  | stays ha hk =>
    rw [nest_of_stays ha]
    cases hk with
    | quiet hq =>
      rw [hq.vectored]
      exact h.of_quiet hq
    | @handled r hq =>
      simp only [Out.andThen, List.filterMap_append, hq.vectored, List.nil_append]
      exact (h.of_quiet hq).posixIrqHandler
  | declared => exact ⟨h.count, h.linked⟩
  | @returned frame frames ret hf =>
    -- the frame on top belongs to the innermost handler
    obtain ⟨irq, active, rfl⟩ := List.exists_cons_of_length_pos (l := active)
      (by rw [← h.length, hf]; exact Nat.succ_pos _)
    have hl := h.linked
    rw [hf] at hl
    exact nested_loopHead (by simp [restore, h.count, hf]) (List.cons.inj hl).2

/-! ### Handlers that start -/

/-- The handler of line `irq` has just started: nothing that waits outranks it, and it outranks what
it interrupted. -/
structure Fresh (m : Soc F) (irq : ℕ) : Prop where
  running : m.currentlyRunningIrq = some irq
  unlocked : m.ctrl.irqsLocked = false
  level : m.ctrl.currentlyRunningPrio = m.ctrl.prioOf irq
  taken : irq ∉ lines m.ctrl.irqStatus
  settled : ∀ j ∈ lines m.ctrl.irqStatus, m.ctrl.prioOf irq ≤ m.ctrl.prioOf j
  outranks : ∀ frame ∈ m.frames.head?, m.ctrl.prioOf irq < frame.lastCurrentRunningPrio

theorem fresh_loopHead (hm : m.ctrl.Latched) :
    ∀ irq ∈ m.loopHead.2.filterMap Obs.vectored, Fresh m.loopHead.1 irq := by
  rcases m.loopHead_cases with ⟨-, o, e, rfl | rfl⟩ | ⟨irq, hi, h⟩
  · simp [e]
  · simp [e, Obs.vectored]
  · obtain ⟨hu, hn⟩ := IrqCtrl.hwIrqCtrlGetHighestPrioIrq_eq_some hm [] hi
    have hf : ∀ cpu, Fresh (m.entered irq cpu) irq := fun cpu =>
      { running := rfl
        unlocked := hu
        level := rfl
        taken := fun h => (mem_lines_and_not_bit.mp h).2 rfl
        settled := fun j hj => hn.settled j <| by
          obtain ⟨hj, hne⟩ := mem_lines_and_not_bit.mp hj
          exact Finset.mem_erase.mpr ⟨hne, hj⟩
        outranks := by
          simp only [entered, List.head?_cons, Option.mem_def, Option.some.injEq, forall_eq']
          exact hn.outranks }
    rcases h with ⟨f, param, e⟩ | e <;> rw [e] <;> simpa [Obs.vectored] using hf _

theorem fresh_posixIrqHandler (hm : m.ctrl.Latched) :
    ∀ irq ∈ m.posixIrqHandler.2.filterMap Obs.vectored, Fresh m.posixIrqHandler.1 irq := by
  unfold posixIrqHandler
  split_ifs
  · simp
  · exact fresh_loopHead hm
  · exact fresh_loopHead hm

theorem fresh_kind {a : Act F} (hm : m.ctrl.Latched) (h : StepKind m a r) :
    ∀ irq ∈ r.2.filterMap Obs.vectored, Fresh r.1 irq := by
  cases h with
  | stays ha hk =>
    cases hk with
    | quiet hq => simp [hq.vectored]
    | @handled r hq =>
      simp only [Out.andThen, List.filterMap_append, hq.vectored, List.nil_append]
      exact fresh_posixIrqHandler (hq.latched hm)
  | declared => simp
  | returned ret hf => exact fresh_loopHead (hm.congr rfl rfl rfl)

/-! ### Handlers and the table -/

/-- What is seen when line `irq` is vectored to: its handler in the table starts, or is missing. -/
def vectorObs (table : Vector (Entry F) nIrqs) (irq : ℕ) : Obs F :=
  match table[irq]?.bind fun e => e.func.map fun f => (f, e.param) with
  | none => .error "Received irq %i without a registered handler\n" (.int irq)
  | some (f, param) => .isr irq f param

/-- The table is `table`, and what is vectored to is what stands in it. -/
structure Vectors (table : Vector (Entry F) nIrqs) (r : Out F) : Prop where
  stays : r.1.irqVectorTable = table
  eq_vectorObs : ∀ o ∈ r.2, ∀ irq ∈ o.vectored, o = vectorObs table irq

theorem vectors_loopHead (m : Soc F) : Vectors m.irqVectorTable m.loopHead := by
  unfold loopHead
  split
  · refine ⟨rfl, fun o ho => ?_⟩
    split_ifs at ho <;> simp_all [Obs.vectored]
  · rename_i irq _
    simp only [vectorToIrq]
    unfold posixPrintErrorAndExit
    cases h : m.irqVectorTable[irq]?.bind fun e => e.func.map fun f => (f, e.param) with
    | none => exact ⟨rfl, by simp [Obs.vectored, vectorObs, h]⟩
    | some fp => exact ⟨rfl, by simp [Obs.vectored, vectorObs, h]⟩

theorem vectors_posixIrqHandler (m : Soc F) : Vectors m.irqVectorTable m.posixIrqHandler := by
  unfold posixIrqHandler
  split_ifs
  · exact ⟨rfl, by simp⟩
  · exact vectors_loopHead { m with maySwap := false, nested := m.nested + 1 }
  · exact vectors_loopHead { m with nested := m.nested + 1 }

theorem Quiet.vectors (hq : Quiet m r) : Vectors m.irqVectorTable r := by
  refine ⟨hq.table, fun o ho irq hi => ?_⟩
  rw [List.filterMap_eq_nil_iff.mp hq.vectored o ho] at hi
  cases hi

theorem vectors_kind (h : Kind m r) : Vectors m.irqVectorTable r := by
  cases h with
  | quiet hq => exact hq.vectors
  | @handled r hq =>
    have hv := vectors_posixIrqHandler r.1
    rw [hq.table] at hv
    exact ⟨hv.stays, fun o ho => (List.mem_append.mp ho).elim (hq.vectors.eq_vectorObs o)
      (hv.eq_vectorObs o)⟩

/-- **The table stays as it is** unless the software declares a handler, and each line is vectored
to as it says. -/
theorem vectors_step {a : Act F} (h : StepKind m a r) : Vectors m.irqVectorTable r ∨
    ∃ irq flags func param, a = .posixIsrDeclare irq flags func param ∧
      r = (m.posixIsrDeclare irq flags func param, []) := by
  cases h with
  | stays _ hk => exact .inl (vectors_kind hk)
  | declared irq flags func param => exact .inr ⟨irq, flags, func, param, rfl, rfl⟩
  | returned ret hf => exact .inl (vectors_loopHead (m.restore ret _ _))

/-! ### Runs from boot -/

variable {m' : Soc F} {l : Act F × List (Obs F)} {ls : List (Act F × List (Obs F))}

theorem latched_boot : (boot : Soc F).ctrl.Latched := .init

theorem latched_run (h : Step.Run boot ls m) : m.ctrl.Latched := (run_refines h latched_boot).1

/-- A run keeps the books. -/
theorem Nested.run (h : Nested m active) (hrun : Step.Run m ls m') :
    Nested m' (ls.foldl nest active) := by
  induction hrun generalizing active with
  | nil => exact h
  | cons hl _ ih => exact ih (h.step (kind_step hl))

theorem nested_run (h : Step.Run boot ls m) : Nested m (activeLines ls) :=
  have h₀ : Nested (boot : Soc F) [] := ⟨rfl, rfl⟩
  h₀.run h

theorem chain_run (h : Step.Run boot ls m) :
    m.toPreempt.levels.IsChain (· < ·) ∧ m.toPreempt.base = 256 := by
  obtain ⟨-, actss, hrun, -⟩ := run_refines h latched_boot
  exact ⟨Preempt.chain_run hrun (.singleton _), Preempt.base_run hrun⟩

/-- **Interrupts nest.** At every moment of every run, the levels of what runs and of what it
interrupted increase strictly up to that of the threads, 256, so that at most 256 handlers are
nested; the counter is the number of handlers that were entered and have not returned, the numbers
of running lines that are kept are theirs, down to none; and what runs has the level of the threads
exactly when no handler runs. -/
theorem interrupts_nest (h : Step.Run boot ls m) :
    (m.ctrl.currentlyRunningPrio :: m.frames.map Frame.lastCurrentRunningPrio).IsChain (· < ·) ∧
    (m.ctrl.currentlyRunningPrio :: m.frames.map Frame.lastCurrentRunningPrio).getLast? = some 256 ∧
    (∀ p ∈ m.frames.map Frame.lastCurrentRunningPrio, p ≤ 256) ∧
    m.currentlyRunningIrq :: m.frames.map Frame.lastRunningIrq =
      (activeLines ls).map some ++ [none] ∧
    m.nested = (activeLines ls).length ∧ m.nested = m.frames.length ∧ m.nested ≤ 256 ∧
    (m.ctrl.currentlyRunningPrio = 256 ↔ m.nested = 0) ∧
    (m.currentlyRunningIrq = none ↔ m.nested = 0) := by
  obtain ⟨hc, hb⟩ := chain_run h
  have hn := nested_run h
  have hle : ∀ p ∈ m.toPreempt.levels, p ≤ 256 := fun p hp => hb ▸ Preempt.le_base hc p hp
  have hlen := Preempt.length_le_card (p := Finset.range 257) hc
    fun p hp => Finset.mem_range.mpr (Nat.lt_succ_of_le (hle p hp))
  have hcount : m.toPreempt.levels.length = m.frames.length + 1 := by
    simp [Preempt.State.levels, toPreempt, IrqCtrl.toPreempt]
  rw [hcount, Finset.card_range] at hlen
  refine ⟨hc, (List.getLast?_cons ..).trans ?_, fun p hp => hle p (List.mem_cons_of_mem _ hp),
    hn.linked, hn.count.trans hn.length, hn.count, by have := hn.count; omega, ?_,
    hn.irq_eq_none_iff⟩
  · rw [← List.getLastD_eq_getLast?]
    exact congrArg some hb
  · have hbase := Preempt.level_eq_base_iff hc
    rw [hb] at hbase
    rw [hn.count, List.length_eq_zero_iff, ← List.map_eq_nil_iff]
    exact hbase

/-- Lines 3 and 2 with handlers `true` and `false`, of priorities 1 and 5, enabled. -/
def twoLines : List (Act Bool) :=
  [.posixIsrDeclare 3 0 (some true) 0, .posixIrqPrioritySet 3 1, .posixIrqEnable 3,
    .posixIsrDeclare 2 0 (some false) 0, .posixIrqPrioritySet 2 5, .posixIrqEnable 2]

/-- The handler of line 3 interrupts that of line 2. -/
theorem interrupts_nest_twice : ∃ ls m, Step.Run (boot : Soc Bool) ls m ∧
    activeLines ls = [3, 2] ∧ m.nested = 2 ∧
    m.currentlyRunningIrq :: m.frames.map Frame.lastRunningIrq = [some 3, some 2, none] := by
  obtain ⟨t, ht, e⟩ := Option.map_eq_some_iff.mp (show ((boot : Soc Bool).trace
    (twoLines ++ [.posixSwSetPendingIrq 2, .posixSwSetPendingIrq 3])).map (fun t =>
      activeLines t.1) = some [3, 2] by rfl)
  have hls := run_of_trace ht
  obtain ⟨-, -, -, hirqs, hcount, -⟩ := interrupts_nest hls
  rw [e] at hirqs hcount
  exact ⟨t.1, t.2, hls, e, hcount, hirqs⟩

/-- **The most urgent line is served.** Whenever a handler starts, in any run, interrupts are not
locked, the handler is that of the line whose number is kept as the running one, it outranks what it
interrupts, and no line that still waits outranks it. -/
theorem most_urgent_starts (h : Step.Run boot ls m) (hl : Step m l m') {irq : ℕ}
    (hi : irq ∈ vectored l) : Fresh m' irq :=
  fresh_kind (latched_run h) (kind_step hl) irq hi

/-- Unlocking, with both lines pending, starts the handler of line 3. -/
theorem most_urgent_starts_three : ∃ ls m l m', Step.Run (boot : Soc Bool) ls m ∧ Step m l m' ∧
    l = (.posixIrqUnlock false, [.key true, .isr 3 true 0]) ∧ Fresh m' 3 := by
  obtain ⟨t, ht, he⟩ := Option.bind_eq_some_iff.mp (show ((boot : Soc Bool).trace (twoLines ++
    [.posixIrqLock, .posixSwSetPendingIrq 2, .posixSwSetPendingIrq 3])).bind (fun t =>
      (t.2.step (.posixIrqUnlock false)).map Prod.snd) = some [.key true, .isr 3 true 0] by rfl)
  obtain ⟨r, hr, hv⟩ := Option.map_eq_some_iff.mp he
  have hls := run_of_trace ht
  have hs : Step t.2 (.posixIrqUnlock false, r.2) r.1 := hr
  rw [hv] at hs
  exact ⟨t.1, t.2, _, r.1, hls, hs, rfl,
    most_urgent_starts hls hs (by simp [vectored, Obs.vectored])⟩

/-! ### No interrupt is invented or lost -/

theorem started_eq_vectored {actss : List (List (Preempt.Act ℕ ℕ))}
    (h : List.Forall₂ Matches ls actss) :
    actss.flatten.filterMap Preempt.Act.started = ls.flatMap vectored := by
  induction h with
  | nil => rfl
  | cons hm _ ih => rw [List.flatten_cons, List.filterMap_append, ih, hm.1, List.flatMap_cons]

theorem asked_sublist {actss : List (List (Preempt.Act ℕ ℕ))} (h : List.Forall₂ Matches ls actss) :
    (actss.flatten.filterMap Preempt.Act.asked).Sublist (ls.flatMap asked) := by
  induction h with
  | nil => exact List.Sublist.refl _
  | cons hm _ ih =>
    rw [List.flatten_cons, List.filterMap_append, List.flatMap_cons]
    exact hm.2.1.append ih

/-- From any state on, the handler of a line is entered at most as often as the line is asked for,
with the request that was there at first, and once less while a request is left. -/
theorem count_vectored_le (h : Step.Run m ls m') (hm : m.ctrl.Latched) (i : ℕ) :
    (ls.flatMap vectored).count i + (if i ∈ lines m'.ctrl.irqPremask then 1 else 0) ≤
      (ls.flatMap asked).count i + (if i ∈ lines m.ctrl.irqPremask then 1 else 0) := by
  obtain ⟨-, actss, hrun, hq⟩ := run_refines h hm
  have hle := Preempt.served_le_asked hrun hm.pending_premask i
  rw [started_eq_vectored hq] at hle
  exact hle.trans (Nat.add_le_add_right ((asked_sublist hq).count_le i) _)

/-- **No interrupt is invented.** In every run, the handler of a line was entered at most as often
as software and hardware raised the line, and once less while a request for it is left in the
premask. -/
theorem vectored_le_asked (h : Step.Run boot ls m) (i : ℕ) :
    (ls.flatMap vectored).count i + (if i ∈ lines m.ctrl.irqPremask then 1 else 0) ≤
      (ls.flatMap asked).count i := by
  have hle := count_vectored_le h latched_boot i
  have h₀ : i ∉ lines (boot : Soc F).ctrl.irqPremask := by
    simp [boot, IrqCtrl.static, IrqCtrl.hwIrqCtrlInit]
  rwa [if_neg h₀, Nat.add_zero] at hle

/-- Line 2 is raised twice while it is locked, its handler is entered once, and enabling the line
again makes no difference. -/
theorem vectored_le_asked_twice : ∃ ls m, Step.Run (boot : Soc Bool) ls m ∧
    ls.flatMap vectored = [2] ∧ ls.flatMap asked = [2, 2] ∧
    (ls.flatMap vectored).count 2 ≤ (ls.flatMap asked).count 2 := by
  obtain ⟨t, ht, e⟩ := Option.map_eq_some_iff.mp (show ((boot : Soc Bool).trace (twoLines ++
    [.posixIrqLock, .posixSwSetPendingIrq 2, .posixSwSetPendingIrq 2, .posixIrqUnlock false,
      .posixIrqEnable 2])).map (fun t => (t.1.flatMap vectored, t.1.flatMap asked)) =
    some ([2], [2, 2]) by rfl)
  obtain ⟨hv, ha⟩ := Prod.mk.inj e
  have hls := run_of_trace ht
  exact ⟨t.1, t.2, hls, hv, ha, (Nat.le_add_right _ _).trans (vectored_le_asked hls 2)⟩

/-- What waits is served, or waits on, unless it is taken back. -/
theorem pending_or_vectored_run (h : Step.Run m ls m') (hm : m.ctrl.Latched) {i : ℕ}
    (hi : i ∈ lines m.ctrl.irqStatus) (hls : ∀ l ∈ ls, ¬ l.1.Clears i) :
    i ∈ ls.flatMap vectored ∨ i ∈ lines m'.ctrl.irqStatus := by
  induction h with
  | nil => exact .inr hi
  | @cons m n m' l ls hl _ ih =>
    obtain ⟨hcl, hls⟩ := List.forall_mem_cons.mp hls
    obtain ⟨hn, hp⟩ := plays_step hl hm
    rcases hp.pending_or_vectored hi hcl with hv | hp
    · exact .inl (List.mem_flatMap.mpr ⟨l, List.mem_cons_self, hv⟩)
    · refine (ih hn hp hls).imp_left fun h => ?_
      rw [List.flatMap_cons]
      exact List.mem_append_right _ h

/-- **No interrupt is lost.** From every state of a run on, a pending line stays pending until its
handler is entered or the software clears it, whatever is masked, locked or served meanwhile. -/
theorem pending_until_served (h : Step.Run boot ls m) {ls' : List (Act F × List (Obs F))}
    (h' : Step.Run m ls' m') {i : ℕ} (hi : i ∈ lines m.ctrl.irqStatus)
    (hls : ∀ l ∈ ls', ¬ l.1.Clears i ∧ i ∉ vectored l) : i ∈ lines m'.ctrl.irqStatus := by
  refine (pending_or_vectored_run h' (latched_run h) hi fun l hl => (hls l hl).1).resolve_left ?_
  intro hv
  obtain ⟨l, hl, hv⟩ := List.mem_flatMap.mp hv
  exact (hls l hl).2 hv

/-- Line 2 is masked and then waits through the handler of line 3. -/
theorem pending_until_served_masked : ∃ ls m ls' m', Step.Run (boot : Soc Bool) ls m ∧
    Step.Run m ls' m' ∧ ls'.map Prod.fst = [.posixIrqDisable 2, .posixIrqUnlock false] ∧
    2 ∈ lines m.ctrl.irqStatus ∧ 2 ∈ lines m'.ctrl.irqStatus := by
  obtain ⟨t, ht, he⟩ := Option.bind_eq_some_iff.mp (show ((boot : Soc Bool).trace (twoLines ++
    [.posixIrqLock, .posixSwSetPendingIrq 2, .posixSwSetPendingIrq 3])).bind (fun t =>
      (t.2.step (.posixIrqDisable 2)).bind fun r => (r.1.step (.posixIrqUnlock false)).map fun r' =>
        (t.2.ctrl.irqStatus, vectored (.posixIrqDisable 2, r.2),
          vectored (.posixIrqUnlock false, r'.2))) = some (12, [], [3]) by rfl)
  obtain ⟨r, hr, he⟩ := Option.bind_eq_some_iff.mp he
  obtain ⟨r', hr', he⟩ := Option.map_eq_some_iff.mp he
  simp only [Prod.mk.injEq] at he
  have h2 : 2 ∈ lines t.2.ctrl.irqStatus := by
    rw [he.1]
    decide
  have hls := run_of_trace ht
  have hrun : Step.Run t.2 [(.posixIrqDisable 2, r.2), (.posixIrqUnlock false, r'.2)] r'.1 :=
    .cons hr (.single hr')
  exact ⟨t.1, t.2, _, r'.1, hls, hrun, rfl, h2,
    pending_until_served hls hrun h2 (by simp [he, Act.Clears])⟩

end Soc

end MeshNode
