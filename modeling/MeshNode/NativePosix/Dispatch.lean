import MeshNode.NativePosix.Soc

/-!
# Interrupts as preemptive priorities

Whatever software and hardware do, the interrupts of the board are served by preemptive priorities.

* `Soc.toPreempt`: the board as pending lines, what runs, and what it interrupted;
* `loopHead_cases`: the loop of `posix_irq_handler` ends, or starts the handler of the next line;
* `Plays`: an operation is a run of preemptive priorities, with the same lines started, started
  lines among those asked for, and no line taken back but those it clears; `Plays.andThen`;
* `plays_posixIrqHandler`, `plays_hwIrqCtrlSetIrq`, ...: one lemma for each function;
* **`plays_step`**: every step; **`run_refines`**: every run.
-/

namespace MeshNode

open Interact Lines

variable {F : Type}

/-- The line whose handler is entered, or is found missing. -/
def Obs.vectored : Obs F → Option ℕ
  | .isr irq _ _ | .error _ (.int irq) => some irq
  | _ => none

/-- The line that the hardware raised. -/
def Obs.asked : Obs F → Option ℕ
  | .tick true => some timerTickIrq
  | .count true => some counterEventIrq
  | _ => none

/-- The line that the software raises. -/
def Act.asked : Act F → Option ℕ
  | .posixSwSetPendingIrq irq | .hwIrqCtrlSetIrq irq => some irq
  | _ => none

/-- The software clears line `i`. -/
def Act.Clears : Act F → ℕ → Prop
  | .posixSwClearPendingIrq irq, i => i = irq
  | .hwIrqCtrlClearAllEnabledIrqs, _ | .hwIrqCtrlClearAllIrqs, _ => True
  | _, _ => False

/-- The lines asked for in a step. -/
def asked (l : Act F × List (Obs F)) : List ℕ := l.1.asked.toList ++ l.2.filterMap Obs.asked

/-- The lines vectored to in a step. -/
def vectored (l : Act F × List (Obs F)) : List ℕ := l.2.filterMap Obs.vectored

namespace Soc

/-- The board as preemptive priorities. -/
def toPreempt (m : Soc F) : Preempt.State ℕ ℕ :=
  m.ctrl.toPreempt (m.frames.map Frame.lastCurrentRunningPrio)

/-! ### The loop of `posix_irq_handler` -/

/-- The board after the handler of line `irq` was entered. -/
def entered (m : Soc F) (irq : ℕ) (cpu : Cpu) : Soc F :=
  { m with ctrl := (m.ctrl.hwIrqCtrlSetCurPrio (m.ctrl.prioOf irq)).hwIrqCtrlClearIrq irq,
           currentlyRunningIrq := some irq,
           frames :=
            ⟨m.ctrl.currentlyRunningPrio, m.currentlyRunningIrq, m.isDirect irq⟩ :: m.frames,
           cpu := cpu }

/-- **What the head of the loop does.** -/
theorem loopHead_cases (m : Soc F) :
    (m.ctrl.hwIrqCtrlGetHighestPrioIrq = none ∧
      ∃ o, m.loopHead = ({ m with nested := m.nested - 1 }, o) ∧ (o = [] ∨ o = [.swap])) ∨
    ∃ irq, m.ctrl.hwIrqCtrlGetHighestPrioIrq = some irq ∧
      ((∃ f param, m.loopHead = (m.entered irq m.cpu, [.isr irq f param])) ∨
        m.loopHead = (m.entered irq (.exited 1),
          [.error "Received irq %i without a registered handler\n" (.int irq)])) := by
  unfold loopHead
  cases h : m.ctrl.hwIrqCtrlGetHighestPrioIrq with
  | none =>
    refine .inl ⟨rfl, _, rfl, ?_⟩
    split_ifs
    · exact .inr rfl
    · exact .inl rfl
  | some irq =>
    refine .inr ⟨irq, rfl, ?_⟩
    simp only [vectorToIrq]
    cases m.irqVectorTable[irq]?.bind fun e => e.func.map fun f => (f, e.param) with
    | none => exact .inr rfl
    | some fp => exact .inl ⟨fp.1, fp.2, rfl⟩

/-! ### Operations as preemptive priorities -/

/-- The operation from `m` to `r` is a run of preemptive priorities in which the lines vectored to
are started, only lines of `asks` ask, and only lines of `clears` are taken back. -/
def PlaysRun (asks : List ℕ) (clears : ℕ → Prop) (m : Soc F) (r : Out F) : Prop :=
  ∃ acts, Preempt.Step.Run m.toPreempt acts r.1.toPreempt ∧
    acts.filterMap Preempt.Act.started = r.2.filterMap Obs.vectored ∧
    (acts.filterMap Preempt.Act.asked).Sublist asks ∧
    ∀ i, ¬ clears i → ∀ a ∈ acts, a.Leaves i ∨ a = .start i

/-- The operation does so where `Latched` holds, and keeps it. -/
def Plays (asks : List ℕ) (clears : ℕ → Prop) (m : Soc F) (r : Out F) : Prop :=
  m.ctrl.Latched → r.1.ctrl.Latched ∧ PlaysRun asks clears m r

variable {m : Soc F} {r : Out F} {asks asks' : List ℕ} {clears : ℕ → Prop}

/-- What waits is served by the operation, or waits on, unless it is taken back. -/
theorem PlaysRun.pending_or_vectored (h : PlaysRun asks clears m r) {i : ℕ}
    (hi : i ∈ lines m.ctrl.irqStatus) (hcl : ¬ clears i) :
    i ∈ r.2.filterMap Obs.vectored ∨ i ∈ lines r.1.ctrl.irqStatus := by
  obtain ⟨acts, hrun, hs, -, hc⟩ := h
  by_cases hv : i ∈ r.2.filterMap Obs.vectored
  · exact .inl hv
  · refine .inr (Preempt.pending_of_run hrun hi fun a ha => (hc i hcl a ha).resolve_right ?_)
    rintro rfl
    exact hv (hs ▸ List.mem_filterMap.mpr ⟨_, ha, rfl⟩)

/-- Nothing that matters changes. -/
theorem Plays.of_eq (hl : m.ctrl.Latched → r.1.ctrl.Latched) (h : r.1.toPreempt = m.toPreempt)
    (ho : r.2.filterMap Obs.vectored = []) : Plays asks clears m r :=
  fun hm => ⟨hl hm, [], h ▸ .nil _, ho.symm, List.nil_sublist _, by simp⟩

theorem Plays.refl (m : Soc F) : Plays asks clears m (m, []) := .of_eq id rfl rfl

theorem Plays.andThen {f : Soc F → Out F} (h : Plays asks clears m r)
    (hf : Plays asks' clears r.1 (f r.1)) : Plays (asks ++ asks') clears m (r.andThen f) := by
  intro hm
  obtain ⟨hr, acts, hrun, hs, ha, hc⟩ := h hm
  obtain ⟨hr', acts', hrun', hs', ha', hc'⟩ := hf hr
  refine ⟨hr', acts ++ acts', hrun.append hrun', ?_, ?_, fun i hi => ?_⟩
  · simp only [Out.andThen, List.filterMap_append, hs, hs']
  · rw [List.filterMap_append]
    exact ha.append ha'
  · exact List.forall_mem_append.mpr ⟨hc i hi, hc' i hi⟩

/-- After an operation that asks for nothing. -/
theorem Plays.nil_andThen {f : Soc F → Out F} (h : Plays [] clears m r)
    (hf : Plays asks clears r.1 (f r.1)) : Plays asks clears m (r.andThen f) :=
  h.andThen hf

theorem Plays.mono (h : Plays asks clears m r) (ha : asks.Sublist asks') :
    Plays asks' clears m r := by
  intro hm
  obtain ⟨hr, acts, hrun, hs, ha', hc⟩ := h hm
  exact ⟨hr, acts, hrun, hs, ha'.trans ha, hc⟩

/-- From a state that differs in nothing that matters. -/
theorem Plays.congr {n : Soc F} (h : Plays asks clears n r) (hc : n.ctrl.Latched ↔ m.ctrl.Latched)
    (hp : n.toPreempt = m.toPreempt) : Plays asks clears m r := by
  intro hm
  obtain ⟨hl, acts, hrun, h⟩ := h (hc.mpr hm)
  exact ⟨hl, acts, hp ▸ hrun, h⟩

theorem plays_loopHead (m : Soc F) : Plays [] clears m m.loopHead := by
  intro hm
  rcases m.loopHead_cases with ⟨-, o, e, ho⟩ | ⟨irq, hi, h⟩
  · rw [e]
    have hv : o.filterMap Obs.vectored = [] := by rcases ho with rfl | rfl <;> rfl
    exact Plays.of_eq (m := m) id rfl hv hm
  · obtain ⟨-, hn⟩ := IrqCtrl.hwIrqCtrlGetHighestPrioIrq_eq_some hm
      (m.frames.map Frame.lastCurrentRunningPrio) hi
    have hp : ∀ cpu, Preempt.Step m.toPreempt (.start irq) (m.entered irq cpu).toPreempt := by
      intro cpu
      have : (m.entered irq cpu).toPreempt = { m.toPreempt with
          requested := m.toPreempt.requested.erase irq, pending := m.toPreempt.pending.erase irq,
          level := m.toPreempt.prio irq, saved := m.toPreempt.level :: m.toPreempt.saved } := by
        simp only [toPreempt, IrqCtrl.toPreempt, entered, Preempt.State.mk.injEq]
        exact ⟨lines_and_not_bit _ _, lines_and_not_bit _ _, rfl, rfl, rfl⟩
      rw [this]
      exact .start hn
    have hl : ∀ cpu, (m.entered irq cpu).ctrl.Latched := fun _ =>
      (hm.congr (d := m.ctrl.hwIrqCtrlSetCurPrio (m.ctrl.prioOf irq)) rfl rfl rfl).clearIrq irq
    rcases h with ⟨f, param, e⟩ | e <;> rw [e]
    · exact ⟨hl _, [.start irq], .single (hp _), rfl, List.Sublist.refl _,
        fun i _ => by simp [Preempt.Act.Leaves, eq_comm, em']⟩
    · exact ⟨hl _, [.start irq], .single (hp _), rfl, List.Sublist.refl _,
        fun i _ => by simp [Preempt.Act.Leaves, eq_comm, em']⟩

theorem plays_posixIrqHandler (m : Soc F) : Plays [] clears m m.posixIrqHandler := by
  unfold posixIrqHandler
  split_ifs
  · exact .refl m
  · exact (plays_loopHead _).congr Iff.rfl rfl
  · exact (plays_loopHead _).congr Iff.rfl rfl

theorem plays_posixIrqHandlerImFromSw (m : Soc F) :
    Plays [] clears m m.posixIrqHandlerImFromSw := by
  unfold posixIrqHandlerImFromSw
  split_ifs
  · exact .of_eq id rfl rfl
  · exact plays_posixIrqHandler m
  · exact .refl m

theorem plays_hwIrqCtrlChangeLock (m : Soc F) (newLock : Bool) :
    Plays [] clears m (m.hwIrqCtrlChangeLock newLock) := by
  have h : Plays (F := F) [] clears m
      ({ m with ctrl := { m.ctrl with irqsLocked := newLock } }, [.key m.ctrl.irqsLocked]) :=
    .of_eq (fun hm => hm.congr rfl rfl rfl) rfl rfl
  unfold hwIrqCtrlChangeLock
  dsimp only
  split_ifs
  · exact h.andThen (plays_posixIrqHandlerImFromSw _)
  · exact h

/-- Raising a line that was raised before admits it, or changes nothing that matters. -/
theorem playsRun_allow (m : Soc F) {irq : ℕ} (hi : irq ∈ lines m.ctrl.irqPremask) :
    PlaysRun [] clears m ({ m with ctrl := m.ctrl.irqRaisePrefix irq }, []) := by
  have hpre : lines (m.ctrl.irqRaisePrefix irq).irqPremask = lines m.ctrl.irqPremask := by
    ext i
    rw [IrqCtrl.mem_premask_irqRaisePrefix, or_iff_left_iff_imp]
    rintro ⟨rfl, -⟩
    exact hi
  have hmem : ∀ i, i ∈ lines (m.ctrl.irqRaisePrefix irq).irqStatus ↔ _ :=
    fun i => IrqCtrl.mem_status_irqRaisePrefix m.ctrl
  by_cases h : irq ∈ lines (m.ctrl.irqRaisePrefix irq).irqStatus
  · refine ⟨[.allow irq], ?_, rfl, List.nil_sublist _, by simp [Preempt.Act.Leaves]⟩
    have e : toPreempt { m with ctrl := m.ctrl.irqRaisePrefix irq } =
        { m.toPreempt with pending := insert irq m.toPreempt.pending } := by
      simp only [toPreempt, IrqCtrl.toPreempt, Preempt.State.mk.injEq, hpre,
        IrqCtrl.prioOf_irqRaisePrefix, IrqCtrl.currentlyRunningPrio_irqRaisePrefix, and_true,
        true_and]
      ext i
      rw [Finset.mem_insert]
      refine ⟨fun hi => ((hmem i).mp hi).symm.imp_left And.left, ?_⟩
      rintro (rfl | hi)
      · exact h
      · exact (hmem i).mpr (.inl hi)
    rw [e]
    exact .single (.allow hi)
  · refine ⟨[], ?_, rfl, List.nil_sublist _, by simp⟩
    have e : toPreempt { m with ctrl := m.ctrl.irqRaisePrefix irq } = m.toPreempt := by
      simp only [toPreempt, IrqCtrl.toPreempt, Preempt.State.mk.injEq, hpre,
        IrqCtrl.prioOf_irqRaisePrefix, IrqCtrl.currentlyRunningPrio_irqRaisePrefix, and_true,
        true_and]
      ext i
      refine ⟨fun hi => ((hmem i).mp hi).resolve_right ?_, fun hi => (hmem i).mpr (.inl hi)⟩
      rintro ⟨rfl, -⟩
      exact h hi
    rw [e]
    exact .nil _

/-- Raising a line asks for it, and admits it or changes nothing else that matters. -/
theorem playsRun_irqRaisePrefix (m : Soc F) (irq : ℕ) :
    PlaysRun [irq] clears m ({ m with ctrl := m.ctrl.irqRaisePrefix irq }, []) := by
  by_cases hlt : irq < nIrqs
  · -- the line is in the premask first
    have h64 : irq < 64 := hlt.trans (by decide)
    obtain ⟨acts, hrun, hs, ha, hc⟩ : PlaysRun [] clears _ _ := playsRun_allow
      { m with ctrl := { m.ctrl with irqPremask := m.ctrl.irqPremask ||| bit 64 irq } }
      ((mem_lines_or_bit h64).mpr (.inr rfl))
    rw [m.ctrl.irqRaisePrefix_premask hlt] at hrun
    refine ⟨.ask irq :: acts, .cons ?_ hrun, hs, ?_, fun i hi =>
      List.forall_mem_cons.mpr ⟨.inl trivial, hc i hi⟩⟩
    · have e : toPreempt { m with
          ctrl := { m.ctrl with irqPremask := m.ctrl.irqPremask ||| bit 64 irq } } =
          { m.toPreempt with requested := insert irq m.toPreempt.requested } := by
        simp only [toPreempt, IrqCtrl.toPreempt, Preempt.State.mk.injEq, lines_or_bit h64]
        exact ⟨trivial, trivial, rfl, trivial, trivial⟩
      rw [e]
      exact .ask _ _
    · exact ha.cons_cons irq
  · refine ⟨[], ?_, rfl, List.nil_sublist _, by simp⟩
    have e : toPreempt { m with ctrl := m.ctrl.irqRaisePrefix irq } = m.toPreempt := by
      unfold IrqCtrl.irqRaisePrefix
      dsimp only
      rw [if_neg hlt]
      split_ifs <;> rfl
    rw [e]
    exact .nil _

theorem plays_irqRaisePrefix (m : Soc F) (irq : ℕ) :
    Plays [irq] clears m ({ m with ctrl := m.ctrl.irqRaisePrefix irq }, []) :=
  fun hm => ⟨hm.irqRaisePrefix irq, playsRun_irqRaisePrefix m irq⟩

theorem plays_hwIrqCtrlRaiseImFromSw (m : Soc F) (irq : ℕ) :
    Plays [irq] clears m (m.hwIrqCtrlRaiseImFromSw irq) := by
  unfold hwIrqCtrlRaiseImFromSw
  dsimp only
  split_ifs
  · exact (plays_irqRaisePrefix m irq).andThen (plays_posixIrqHandlerImFromSw _)
  · exact plays_irqRaisePrefix m irq

theorem plays_hwIrqCtrlSetIrq (m : Soc F) (irq : ℕ) :
    Plays [irq] clears m (m.hwIrqCtrlSetIrq irq, []) := by
  have h : Plays [irq] clears m _ := plays_irqRaisePrefix m irq
  unfold hwIrqCtrlSetIrq awakeInOneDelta
  dsimp only
  split_ifs
  · exact fun hm => h hm
  · exact h

/-- Enabling a line asks for nothing: it admits a request that is there. -/
theorem plays_hwIrqCtrlEnableIrq (m : Soc F) (irq : ℕ) :
    Plays [] clears m (m.hwIrqCtrlEnableIrq irq) := by
  intro hm
  unfold hwIrqCtrlEnableIrq
  dsimp only
  split_ifs with h
  · -- `Latched` fails for the enabled line until it is raised again
    have hi := and_bit_ne_zero.mp h
    have hr : Plays [] clears m ({ m with ctrl :=
        { m.ctrl with irqMask := m.ctrl.irqMask ||| bit 64 irq }.irqRaisePrefix irq }, []) :=
      fun hm => ⟨hm.enable_raise hi, playsRun_allow
        { m with ctrl := { m.ctrl with irqMask := m.ctrl.irqMask ||| bit 64 irq } } hi⟩
    unfold hwIrqCtrlRaiseImFromSw
    dsimp only
    split_ifs
    · exact hr.andThen (plays_posixIrqHandlerImFromSw _) hm
    · exact hr hm
  · exact Plays.of_eq (m := m) (fun hm => hm.enable (mt and_bit_ne_zero.mpr h)) rfl rfl hm

/-! ### Other changes of the controller -/

theorem plays_hwIrqCtrlDisableIrq (m : Soc F) (irq : ℕ) :
    Plays [] clears m ({ m with ctrl := m.ctrl.hwIrqCtrlDisableIrq irq }, []) :=
  .of_eq (fun hm => hm.disableIrq irq) rfl rfl

/-- Requests are taken back. -/
theorem plays_retract {c : IrqCtrl} {t : Finset ℕ} (hl : m.ctrl.Latched → c.Latched)
    (hr : lines c.irqPremask = lines m.ctrl.irqPremask \ t)
    (hs : m.ctrl.Latched → lines c.irqStatus = lines m.ctrl.irqStatus \ t)
    (hp : c.irqPrio = m.ctrl.irqPrio) (hc : c.currentlyRunningPrio = m.ctrl.currentlyRunningPrio)
    (ht : ∀ i ∈ t, clears i) : Plays [] clears m ({ m with ctrl := c }, []) := by
  refine fun hm => ⟨hl hm, [.retract t], ?_, rfl, List.nil_sublist _, fun i hi a ha => ?_⟩
  · have e : toPreempt { m with ctrl := c } = { m.toPreempt with
        requested := m.toPreempt.requested \ t, pending := m.toPreempt.pending \ t } := by
      simp only [toPreempt, IrqCtrl.toPreempt, Preempt.State.mk.injEq, hr, hs hm, hc, and_true,
        true_and]
      exact funext fun i => by simp [IrqCtrl.prioOf, IrqCtrl.hwIrqCtrlGetPrio, hp]
    rw [e]
    exact .single (.retract _ _)
  · obtain rfl := List.mem_singleton.mp ha
    exact .inl fun h => hi (ht i h)

theorem plays_hwIrqCtrlClearIrq (m : Soc F) (irq : ℕ) :
    Plays [] (· = irq) m ({ m with ctrl := m.ctrl.hwIrqCtrlClearIrq irq }, []) :=
  plays_retract (t := {irq}) (fun hm => hm.clearIrq irq)
    ((lines_and_not_bit _ _).trans (Finset.sdiff_singleton_eq_erase _ _).symm)
    (fun _ => (lines_and_not_bit _ _).trans (Finset.sdiff_singleton_eq_erase _ _).symm) rfl rfl
    (by simp)

theorem plays_hwIrqCtrlClearAllIrqs (m : Soc F) :
    Plays [] (fun _ => True) m ({ m with ctrl := m.ctrl.hwIrqCtrlClearAllIrqs }, []) := by
  refine plays_retract (t := lines m.ctrl.irqPremask) (fun _ => .clearAllIrqs _)
    (by simp [IrqCtrl.hwIrqCtrlClearAllIrqs]) (fun hm => ?_) rfl rfl (by simp)
  rw [Finset.sdiff_eq_empty_iff_subset.mpr hm.pending_premask]
  simp [IrqCtrl.hwIrqCtrlClearAllIrqs]

/-- The requests of the enabled lines are taken back; those of other lines wait no longer. -/
theorem plays_hwIrqCtrlClearAllEnabledIrqs (m : Soc F) :
    Plays [] (fun _ => True) m ({ m with ctrl := m.ctrl.hwIrqCtrlClearAllEnabledIrqs }, []) := by
  refine fun hm => ⟨hm.clearAllEnabledIrqs,
    [.defer (lines m.ctrl.irqStatus), .retract (lines m.ctrl.irqMask)], .cons (.defer _ _)
      (.single ?_), rfl, List.nil_sublist _, fun i hi => absurd trivial hi⟩
  have e : toPreempt { m with ctrl := m.ctrl.hwIrqCtrlClearAllEnabledIrqs } = { m.toPreempt with
      requested := m.toPreempt.requested \ lines m.ctrl.irqMask,
      pending := (m.toPreempt.pending \ lines m.ctrl.irqStatus) \ lines m.ctrl.irqMask } := by
    simp only [toPreempt, IrqCtrl.toPreempt, Preempt.State.mk.injEq]
    refine ⟨lines_and_not _ _, ?_, rfl, rfl, trivial⟩
    simp [IrqCtrl.hwIrqCtrlClearAllEnabledIrqs]
  rw [e]
  exact .retract _ _

theorem plays_hwIrqCtrlPrioSet (m : Soc F) {irq : ℕ} (hi : irq < nIrqs) (prio : ℕ) :
    Plays [] clears m ({ m with ctrl := m.ctrl.hwIrqCtrlPrioSet irq prio }, []) := by
  refine fun hm => ⟨hm.congr rfl rfl rfl, [.regrade irq (prio % 256)], ?_, rfl,
    List.nil_sublist _, by simp [Preempt.Act.Leaves]⟩
  have e : toPreempt { m with ctrl := m.ctrl.hwIrqCtrlPrioSet irq prio } =
      { m.toPreempt with prio := Function.update m.toPreempt.prio irq (prio % 256) } := by
    simp only [toPreempt, IrqCtrl.toPreempt, Preempt.State.mk.injEq, and_true]
    refine ⟨rfl, rfl, funext fun i => ?_, rfl⟩
    by_cases hii : i = irq
    · subst hii
      simp [IrqCtrl.prioOf, IrqCtrl.hwIrqCtrlGetPrio, IrqCtrl.hwIrqCtrlPrioSet, hi]
    · simp [IrqCtrl.prioOf, IrqCtrl.hwIrqCtrlGetPrio, IrqCtrl.hwIrqCtrlPrioSet, hii, Ne.symm hii]
  rw [e]
  exact .single (.regrade _ _ _)

theorem plays_isrReturn (m : Soc F) (ret : ℤ) (h : m.isrReturn ret = some r) :
    Plays [] clears m r := by
  unfold isrReturn at h
  cases hf : m.frames with
  | nil => simp [hf] at h
  | cons frame frames =>
    rw [hf] at h
    obtain rfl := Option.some.inj h
    intro hm
    have hr : (m.restore ret frame frames).ctrl.Latched := hm.congr rfl rfl rfl
    have hp : Plays [] clears (m.restore ret frame frames) _ := plays_loopHead _
    obtain ⟨hl, acts, hrun, hrest⟩ := hp hr
    refine ⟨hl, .finish :: acts, .cons ?_ hrun, hrest.1, hrest.2.1, fun i hi =>
      List.forall_mem_cons.mpr ⟨.inl trivial, hrest.2.2 i hi⟩⟩
    have : m.toPreempt.saved = frame.lastCurrentRunningPrio ::
        frames.map Frame.lastCurrentRunningPrio := by
      simp [toPreempt, IrqCtrl.toPreempt, hf]
    exact .finish this

/-! ### Events -/

theorem plays_posixInterruptRaised (m : Soc F) : Plays [] clears m m.posixInterruptRaised :=
  Plays.nil_andThen (.of_eq id rfl rfl) (plays_posixIrqHandler _)

theorem plays_irqRaisingFromHwNow (m : Soc F) : Plays [] clears m m.irqRaisingFromHwNow := by
  unfold irqRaisingFromHwNow
  split_ifs
  · exact (plays_posixInterruptRaised _).congr
      ⟨fun h => h.congr rfl rfl rfl, fun h => h.congr rfl rfl rfl⟩ rfl
  · exact .refl m

theorem plays_hwIrqCtrlTimerTriggered (m : Soc F) :
    Plays [] clears m m.hwIrqCtrlTimerTriggered :=
  (plays_irqRaisingFromHwNow _).congr Iff.rfl rfl

theorem plays_hwtimerTickTimerReached (m : Soc F) :
    Plays (m.hwtimerTickTimerReached.2.filterMap Obs.asked) clears m m.hwtimerTickTimerReached := by
  unfold hwtimerTickTimerReached
  dsimp only
  split_ifs
  · exact .of_eq id rfl rfl
  · exact fun hm => plays_hwIrqCtrlSetIrq _ _ hm

/-- The wake-up interrupt has no line. -/
theorem plays_hwtimerAwakeTimerReached (m : Soc F) :
    Plays [] clears m (m.hwtimerAwakeTimerReached, []) := by
  have h : (m.hwtimerAwakeTimerReached).ctrl = { m.ctrl with lockIgnore := true } ∧
      (m.hwtimerAwakeTimerReached).frames = m.frames := by
    unfold hwtimerAwakeTimerReached hwIrqCtrlSetIrq awakeInOneDelta
    dsimp only
    split_ifs <;> exact ⟨rfl, rfl⟩
  refine .of_eq (fun hm => ?_) ?_ rfl
  · exact hm.congr (by rw [h.1]) (by rw [h.1]) (by rw [h.1])
  · simp only [toPreempt, h.1, h.2]
    rfl

theorem plays_hwtimerTimerReached (m : Soc F) :
    Plays (m.hwtimerTimerReached.2.filterMap Obs.asked) clears m m.hwtimerTimerReached := by
  have h : ∀ n : Soc F, Plays [] clears m (n, []) → Plays
      ((if n.hw.timer.hwTimerTickTimer = m.hw.timer.hwTimerTimer then n.hwtimerTickTimerReached
        else (n, [])).2.filterMap Obs.asked) clears m
      (if n.hw.timer.hwTimerTickTimer = m.hw.timer.hwTimerTimer then n.hwtimerTickTimerReached
        else (n, [])) := by
    intro n hn
    split_ifs
    · exact hn.andThen (plays_hwtimerTickTimerReached n)
    · exact hn
  refine h _ ?_
  split_ifs
  · exact plays_hwtimerAwakeTimerReached m
  · exact .refl m

theorem plays_hwCounterTriggered (m : Soc F) :
    Plays (m.hwCounterTriggered.2.filterMap Obs.asked) clears m m.hwCounterTriggered := by
  unfold hwCounterTriggered
  dsimp only
  split_ifs
  · exact .of_eq id rfl rfl
  · exact fun hm => plays_hwIrqCtrlSetIrq _ _ hm
  · exact .of_eq id rfl rfl

theorem plays_hwmSleepUntilNextTimer (m : Soc F) :
    Plays [] clears m m.hwmSleepUntilNextTimer := by
  refine Plays.nil_andThen ?_ ?_
  · split_ifs <;> exact .of_eq id rfl rfl
  · dsimp only
    split_ifs <;> exact .of_eq id rfl rfl

theorem plays_hwmSwitch (m : Soc F) :
    Plays (m.hwmSwitch.2.filterMap Obs.asked) clears m m.hwmSwitch := by
  unfold hwmSwitch
  split
  · exact plays_hwtimerTimerReached m
  · exact (plays_hwIrqCtrlTimerTriggered m).mono (List.nil_sublist _)
  · exact plays_hwCounterTriggered m
  · exact .of_eq id rfl rfl

theorem plays_hwmEventEnd (m : Soc F) : Plays asks clears m (m.hwmEventEnd, []) := by
  unfold hwmEventEnd
  split_ifs <;> exact .of_eq id rfl rfl

theorem asked_hwmSleepUntilNextTimer (m : Soc F) :
    m.hwmSleepUntilNextTimer.2.filterMap Obs.asked = [] := by
  unfold hwmSleepUntilNextTimer Out.andThen
  dsimp only
  split_ifs <;> rfl

/-- An event: time moves on, then the timer that is due is handled unless the process ends. -/
theorem hwmOneEvent_eq (m : Soc F) : m.hwmOneEvent =
    if m.hwmSleepUntilNextTimer.1.cpu = .halted then
      (m.hwmSleepUntilNextTimer.1.hwmSwitch.1.hwmEventEnd,
        m.hwmSleepUntilNextTimer.2 ++ m.hwmSleepUntilNextTimer.1.hwmSwitch.2)
    else m.hwmSleepUntilNextTimer := by
  unfold hwmOneEvent Out.andThen
  dsimp only
  split_ifs with h
  · simp
  · simp [hwmEventEnd, h]

theorem plays_hwmOneEvent (m : Soc F) :
    Plays (m.hwmOneEvent.2.filterMap Obs.asked) clears m m.hwmOneEvent := by
  rw [hwmOneEvent_eq]
  have h : Plays [] clears m m.hwmSleepUntilNextTimer := plays_hwmSleepUntilNextTimer m
  split_ifs with hc
  · rw [List.filterMap_append, asked_hwmSleepUntilNextTimer]
    intro hm
    obtain ⟨hl, acts, hrun, hs, ha, hcl⟩ := h.andThen (plays_hwmSwitch _) hm
    have he : Plays [] clears m.hwmSleepUntilNextTimer.1.hwmSwitch.1 _ := plays_hwmEventEnd _
    obtain ⟨hl', acts', hrun', hs', ha', hcl'⟩ := he hl
    exact ⟨hl', acts ++ acts', hrun.append hrun', by simp [hs, hs', Out.andThen],
      by simpa using ha.append ha',
      fun i hi => List.forall_mem_append.mpr ⟨hcl i hi, hcl' i hi⟩⟩
  · rw [asked_hwmSleepUntilNextTimer]
    exact h

theorem plays_halt (m : Soc F) : Plays asks clears m (m.halt, []) := by
  unfold halt
  dsimp only
  split_ifs
  · exact (plays_hwmEventEnd _).congr Iff.rfl rfl
  · exact .of_eq id rfl rfl

/-! ### Steps and runs -/

theorem plays_swStep {a : Act F} (h : m.swStep a = some r) :
    Plays a.asked.toList a.Clears m r := by
  cases a <;> simp only [swStep, Option.ite_none_right_eq_some, Option.some.injEq,
    reduceCtorEq] at h
  case posixIrqLock => exact h ▸ plays_hwIrqCtrlChangeLock m true
  case posixIrqUnlock key => exact h ▸ plays_hwIrqCtrlChangeLock m key
  case posixIrqEnable irq => exact h.2 ▸ plays_hwIrqCtrlEnableIrq m irq
  case posixIrqDisable irq => exact h.2 ▸ plays_hwIrqCtrlDisableIrq m irq
  case posixSwSetPendingIrq irq => exact h ▸ plays_hwIrqCtrlRaiseImFromSw m irq
  case posixSwClearPendingIrq irq => exact h.2 ▸ plays_hwIrqCtrlClearIrq m irq
  case posixIrqPrioritySet irq prio => exact h.2 ▸ plays_hwIrqCtrlPrioSet m h.1 prio
  case posixIsrDeclare => exact h.2 ▸ .of_eq id rfl rfl
  case hwIrqCtrlSetIrq irq => exact h ▸ plays_hwIrqCtrlSetIrq m irq
  case hwIrqCtrlClearAllEnabledIrqs => exact h ▸ plays_hwIrqCtrlClearAllEnabledIrqs m
  case hwIrqCtrlClearAllIrqs => exact h ▸ plays_hwIrqCtrlClearAllIrqs m
  case isrReturn ret => exact plays_isrReturn m ret h
  case halt => exact h ▸ plays_halt m
  all_goals exact h ▸ .of_eq id rfl rfl

theorem step_eq_some {a : Act F} : m.step a = some r ↔
    (m.cpu = .running ∧ m.swStep a = some r) ∨ (m.cpu = .halted ∧ a = .hwmOneEvent ∧
      m.hwmOneEvent = r) ∨ ((m.cpu = .running ∨ m.cpu = .halted) ∧ a = .hwmSignalEnd ∧
      r = ({ m with hw := m.hw.hwmSignalEndHandler }, [])) := by
  cases a <;> cases hc : m.cpu <;> simp [step, hc, swStep, eq_comm]

/-- A step of the software. -/
theorem swStep_of_step {a : Act F} {o : List (Obs F)} {m' : Soc F}
    (h : Step m (a, o) m') (ha : a ≠ .hwmOneEvent) (hs : a ≠ .hwmSignalEnd) :
    m.cpu = .running ∧ m.swStep a = some (m', o) := by
  rcases step_eq_some.mp h with h | ⟨-, h, -⟩ | ⟨-, h, -⟩
  · exact h
  · exact absurd h ha
  · exact absurd h hs

/-- A step of the hardware models. -/
theorem step_hwmOneEvent (hc : m.cpu = .halted) :
    Step m (.hwmOneEvent, m.hwmOneEvent.2) m.hwmOneEvent.1 :=
  step_eq_some.mpr (.inr (.inl ⟨hc, rfl, rfl⟩))

/-- **Every step** plays by the rules of preemptive priorities. -/
theorem plays_step {l : Act F × List (Obs F)} {m' : Soc F} (h : Step m l m') :
    Plays (asked l) l.1.Clears m (m', l.2) := by
  obtain ⟨a, o⟩ := l
  rcases step_eq_some.mp h with ⟨-, h⟩ | ⟨-, rfl, h⟩ | ⟨-, rfl, h⟩
  · exact (plays_swStep h).mono (List.sublist_append_left _ _)
  · have he : Plays (m.hwmOneEvent.2.filterMap Obs.asked) (fun _ => False) m m.hwmOneEvent :=
      plays_hwmOneEvent m
    rw [h] at he
    exact he
  · obtain ⟨rfl, rfl⟩ := Prod.mk.inj h
    exact .of_eq id rfl rfl

/-- What a step of the board shows and what the steps that match it do. -/
def Matches (l : Act F × List (Obs F)) (acts : List (Preempt.Act ℕ ℕ)) : Prop :=
  acts.filterMap Preempt.Act.started = vectored l ∧
    (acts.filterMap Preempt.Act.asked).Sublist (asked l) ∧
    ∀ i, ¬ l.1.Clears i → ∀ a ∈ acts, a.Leaves i ∨ a = .start i

/-- **Every run** of the board is a run of preemptive priorities, step by step. -/
theorem run_refines {m m' : Soc F} {ls : List (Act F × List (Obs F))} (h : Step.Run m ls m')
    (hm : m.ctrl.Latched) : m'.ctrl.Latched ∧
      ∃ actss, Preempt.Step.Run m.toPreempt actss.flatten m'.toPreempt ∧
        List.Forall₂ Matches ls actss := by
  have hstep : ∀ (n : Soc F) l n' (s : Preempt.State ℕ ℕ), (s = n.toPreempt ∧ n.ctrl.Latched) →
      Step n l n' → ∃ acts t, Preempt.Step.Run s acts t ∧ (t = n'.toPreempt ∧ n'.ctrl.Latched) ∧
        Matches l acts := by
    rintro n l n' s ⟨rfl, hn⟩ hl
    obtain ⟨hl', acts, hrun, hacts⟩ := plays_step hl hn
    exact ⟨acts, _, hrun, ⟨rfl, hl'⟩, hacts⟩
  obtain ⟨actss, s, hrun, ⟨rfl, hl⟩, hq⟩ := h.simulate hstep ⟨rfl, hm⟩
  exact ⟨hl, actss, hrun, hq⟩

end Soc

end MeshNode
