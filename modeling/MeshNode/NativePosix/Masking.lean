import MeshNode.NativePosix.Timers

/-!
# Masked interrupts

* `IrqCtrl.Masked`: a line is neither enabled nor pending. The test of
  `hw_irq_ctrl_irq_raise_prefix` for line 31 also looks at the lines from 32 on, none of which is
  enabled then;
* `IrqCtrl.Held`: so it is with a controller whose words fit together; each function keeps it;
* `Holds`: an operation holds the line back, and keeps what was asked for; `Holds.andThen`;
* `holds_posixIrqHandler`, `holds_hwIrqCtrlSetIrq`, ...: one lemma for each function;
* `holds_step`: every step but one that enables the line;
* **`masked_held`**: no handler of a masked line starts until software enables the line;
* **`request_waits_for_enable`**: what was asked for meanwhile is served, or waits, from then on.
-/

namespace MeshNode

open Interact Lines

variable {F : Type}

/-- The software enables line `i`, or one that the test for line 31 takes for it. -/
def Act.Enables : Act F → ℕ → Prop
  | .posixIrqEnable irq, i => irq = i ∨ i = 31 ∧ nIrqs ≤ irq
  | _, _ => False

/-- The software takes back what was asked of line `i` while it is masked. -/
def Act.Takes : Act F → ℕ → Prop
  | .posixSwClearPendingIrq irq, i => irq = i
  | .hwIrqCtrlClearAllIrqs, _ => True
  | _, _ => False

namespace IrqCtrl

/-- Line `i` is neither enabled nor pending. -/
structure Masked (c : IrqCtrl) (i : ℕ) : Prop where
  lt : i < nIrqs
  masked : i ∉ lines c.irqMask
  idle : i ∉ lines c.irqStatus
  high : i = 31 → ∀ j ∈ lines c.irqMask, j < nIrqs

/-- The same of a controller whose words fit together. -/
structure Held (c : IrqCtrl) (i : ℕ) : Prop extends Latched c, Masked c i

namespace Held

variable {c : IrqCtrl} {i : ℕ}

/-- Only the three words matter. -/
theorem congr {d : IrqCtrl} (h : c.Held i) (hs : d.irqStatus = c.irqStatus)
    (hp : d.irqPremask = c.irqPremask) (hm : d.irqMask = c.irqMask) : d.Held i where
  toLatched := h.toLatched.congr hs hp hm
  lt := h.lt
  masked := hm ▸ h.masked
  idle := hs ▸ h.idle
  high := hm ▸ h.high

theorem irqRaisePrefix (h : c.Held i) (irq : ℕ) : (c.irqRaisePrefix irq).Held i where
  toLatched := h.toLatched.irqRaisePrefix irq
  lt := h.lt
  masked := by simpa using h.masked
  idle hi := by
    rcases (mem_status_irqRaisePrefix c).mp hi with hi | ⟨rfl, -, hi | ⟨h31, j, hj, hle⟩⟩
    · exact h.idle hi
    · exact h.masked hi
    · exact absurd (h.high h31 j hj) (not_lt.mpr hle)
  high := by simpa using h.high

theorem clearIrq (h : c.Held i) (irq : ℕ) : (c.hwIrqCtrlClearIrq irq).Held i where
  toLatched := h.toLatched.clearIrq irq
  lt := h.lt
  masked := h.masked
  idle hi := h.idle (mem_lines_and_not_bit.mp hi).1
  high := h.high

theorem disableIrq (h : c.Held i) (irq : ℕ) : (c.hwIrqCtrlDisableIrq irq).Held i where
  toLatched := h.toLatched.disableIrq irq
  lt := h.lt
  masked hi := h.masked (mem_lines_and_not_bit.mp hi).1
  idle := h.idle
  high h31 j hj := h.high h31 j (mem_lines_and_not_bit.mp hj).1

/-- All that is pending is cleared. -/
theorem clear {d : IrqCtrl} (h : c.Held i) (hd : d.Latched) (hs : d.irqStatus = 0)
    (hm : d.irqMask = c.irqMask) : d.Held i where
  toLatched := hd
  lt := h.lt
  masked := hm ▸ h.masked
  idle := by simp [hs]
  high := hm ▸ h.high

/-- Another line is enabled; `hd` tells what becomes of a request for it. -/
theorem enable {d : IrqCtrl} {irq : ℕ} (h : c.Held i) (hi : ¬ (irq = i ∨ i = 31 ∧ nIrqs ≤ irq))
    (hirq : irq < 64) (hd : d.Latched) (hm : d.irqMask = c.irqMask ||| bit 64 irq)
    (hs : ∀ j ∈ lines d.irqStatus, j ∈ lines c.irqStatus ∨ j = irq) : d.Held i where
  toLatched := hd
  lt := h.lt
  masked hj := by
    rw [hm, mem_lines_or_bit hirq] at hj
    exact hj.elim h.masked fun e => hi (.inl e.symm)
  idle hj := (hs i hj).elim h.idle fun e => hi (.inl e.symm)
  high h31 j hj := by
    rw [hm, mem_lines_or_bit hirq] at hj
    rcases hj with hj | rfl
    · exact h.high h31 j hj
    · exact not_le.mp fun hle => hi (.inr ⟨h31, hle⟩)

end Held

end IrqCtrl

namespace Soc

/-! ### Operations that hold a line back -/

/-- The operation from `m` to `r` leaves line `i` held back, does not vector to it, and keeps what
was asked of it, or is by `asks`, unless the operation takes it back. -/
structure Keeps (i : ℕ) (asks : List ℕ) (takes : Prop) (m : Soc F) (r : Out F) : Prop where
  held : r.1.ctrl.Held i
  silent : i ∉ r.2.filterMap Obs.vectored
  kept : ¬ takes → i ∈ lines m.ctrl.irqPremask ∨ i ∈ asks → i ∈ lines r.1.ctrl.irqPremask

/-- The operation does so where line `i` is held back. -/
def Holds (i : ℕ) (asks : List ℕ) (takes : Prop) (m : Soc F) (r : Out F) : Prop :=
  m.ctrl.Held i → Keeps i asks takes m r

variable {m : Soc F} {r : Out F} {i : ℕ} {asks asks' : List ℕ} {takes : Prop}

/-- Nothing that matters changes. -/
theorem Holds.of_eq (hs : r.1.ctrl.irqStatus = m.ctrl.irqStatus)
    (hp : r.1.ctrl.irqPremask = m.ctrl.irqPremask) (hm : r.1.ctrl.irqMask = m.ctrl.irqMask)
    (ho : r.2.filterMap Obs.vectored = []) : Holds i [] takes m r := by
  refine fun h => ⟨h.congr hs hp hm, by simp [ho], fun _ hi => ?_⟩
  rw [hp]
  simpa using hi

theorem Holds.refl (m : Soc F) : Holds i [] takes m (m, []) := .of_eq rfl rfl rfl rfl

theorem Holds.andThen {f : Soc F → Out F} (h : Holds i asks takes m r)
    (hf : Holds i asks' takes r.1 (f r.1)) : Holds i (asks ++ asks') takes m (r.andThen f) := by
  intro hm
  have hr := h hm
  have hr' := hf hr.held
  refine ⟨hr'.held, ?_, fun ht hi => ?_⟩
  · rw [Out.andThen, List.filterMap_append, List.mem_append]
    exact not_or.mpr ⟨hr.silent, hr'.silent⟩
  · rw [List.mem_append, ← or_assoc] at hi
    exact hr'.kept ht (hi.imp_left (hr.kept ht))

/-- After an operation that asks for nothing. -/
theorem Holds.nil_andThen {f : Soc F → Out F} (h : Holds i [] takes m r)
    (hf : Holds i asks takes r.1 (f r.1)) : Holds i asks takes m (r.andThen f) :=
  h.andThen hf

/-- Before an operation that asks for nothing. -/
theorem Holds.andThen_nil {f : Soc F → Out F} (h : Holds i asks takes m r)
    (hf : Holds i [] takes r.1 (f r.1)) : Holds i asks takes m (r.andThen f) := by
  simpa using h.andThen hf

/-- From a state that differs in nothing that matters. -/
theorem Holds.congr {n : Soc F} (h : Holds i asks takes n r)
    (hs : n.ctrl.irqStatus = m.ctrl.irqStatus) (hp : n.ctrl.irqPremask = m.ctrl.irqPremask)
    (hm : n.ctrl.irqMask = m.ctrl.irqMask) : Holds i asks takes m r := by
  intro hh
  have hr := h (hh.congr hs hp hm)
  exact ⟨hr.held, hr.silent, hp ▸ hr.kept⟩

/-- A change of the controller. -/
theorem Holds.of_ctrl {c : IrqCtrl} (hh : m.ctrl.Held i → c.Held i)
    (hk : ¬ takes → i ∈ lines m.ctrl.irqPremask → i ∈ lines c.irqPremask) :
    Holds i [] takes m ({ m with ctrl := c }, []) :=
  fun hm => ⟨hh hm, List.not_mem_nil, fun ht hi => hk ht (by simpa using hi)⟩

/-- Observations that are no handlers. -/
theorem Holds.shown {o : List (Obs F)} (h : Holds i asks takes m (r.1, []))
    (ho : o.filterMap Obs.vectored = []) : Holds i asks takes m (r.1, o) := by
  intro hm
  obtain ⟨hh, -, hk⟩ := h hm
  exact ⟨hh, by simp [ho], hk⟩

theorem holds_loopHead (m : Soc F) : Holds i [] takes m m.loopHead := by
  intro hm
  rcases m.loopHead_cases with ⟨-, o, e, ho⟩ | ⟨irq, hi, h⟩
  · rw [e]
    have hv : o.filterMap Obs.vectored = [] := by rcases ho with rfl | rfl <;> rfl
    exact Holds.of_eq (m := m) rfl rfl rfl hv hm
  · -- the line that is found is pending
    obtain ⟨-, hn⟩ := IrqCtrl.hwIrqCtrlGetHighestPrioIrq_eq_some hm.toLatched [] hi
    have hne : i ≠ irq := fun e => hm.idle (e ▸ hn.pending)
    have hk : ∀ cpu o, o.filterMap Obs.vectored = [irq] →
        Keeps i [] takes m (m.entered irq cpu, o) := by
      intro cpu o ho
      refine ⟨?_, by simp [ho, hne], fun _ h => ?_⟩
      · exact (hm.congr (d := m.ctrl.hwIrqCtrlSetCurPrio (m.ctrl.prioOf irq)) rfl rfl rfl).clearIrq
          irq
      · exact mem_lines_and_not_bit.mpr ⟨h.resolve_right List.not_mem_nil, hne⟩
    rcases h with ⟨f, param, e⟩ | e <;> rw [e]
    · exact hk _ _ rfl
    · exact hk _ _ rfl

theorem holds_posixIrqHandler (m : Soc F) : Holds i [] takes m m.posixIrqHandler := by
  unfold posixIrqHandler
  split_ifs
  · exact .refl m
  · exact (holds_loopHead _).congr rfl rfl rfl
  · exact (holds_loopHead _).congr rfl rfl rfl

theorem holds_posixIrqHandlerImFromSw (m : Soc F) :
    Holds i [] takes m m.posixIrqHandlerImFromSw := by
  unfold posixIrqHandlerImFromSw
  split_ifs
  · exact .of_eq rfl rfl rfl rfl
  · exact holds_posixIrqHandler m
  · exact .refl m

theorem holds_hwIrqCtrlChangeLock (m : Soc F) (newLock : Bool) :
    Holds i [] takes m (m.hwIrqCtrlChangeLock newLock) := by
  unfold hwIrqCtrlChangeLock
  dsimp only
  split_ifs
  · exact Holds.nil_andThen (.of_eq rfl rfl rfl rfl) (holds_posixIrqHandlerImFromSw _)
  · exact .of_eq rfl rfl rfl rfl

theorem holds_irqRaisePrefix (m : Soc F) (irq : ℕ) :
    Holds i [irq] takes m ({ m with ctrl := m.ctrl.irqRaisePrefix irq }, []) := by
  intro hm
  refine ⟨hm.irqRaisePrefix irq, List.not_mem_nil, fun _ h => ?_⟩
  rw [List.mem_singleton] at h
  exact (IrqCtrl.mem_premask_irqRaisePrefix _).mpr (h.imp_right fun e => ⟨e, e ▸ hm.lt⟩)

theorem holds_hwIrqCtrlRaiseImFromSw (m : Soc F) (irq : ℕ) :
    Holds i [irq] takes m (m.hwIrqCtrlRaiseImFromSw irq) := by
  unfold hwIrqCtrlRaiseImFromSw
  dsimp only
  split_ifs
  · exact (holds_irqRaisePrefix m irq).andThen_nil (holds_posixIrqHandlerImFromSw _)
  · exact holds_irqRaisePrefix m irq

theorem holds_hwIrqCtrlSetIrq (m : Soc F) (irq : ℕ) :
    Holds i [irq] takes m (m.hwIrqCtrlSetIrq irq, []) := by
  have h : Holds i [irq] takes m _ := holds_irqRaisePrefix m irq
  unfold hwIrqCtrlSetIrq awakeInOneDelta
  dsimp only
  split_ifs
  · intro hm
    have hk := h hm
    exact ⟨hk.held, hk.silent, hk.kept⟩
  · exact h

/-- Another line is enabled. -/
theorem holds_hwIrqCtrlEnableIrq (m : Soc F) {irq : ℕ} (hirq : irq < 64)
    (hi : ¬ (irq = i ∨ i = 31 ∧ nIrqs ≤ irq)) :
    Holds i [] takes m (m.hwIrqCtrlEnableIrq irq) := by
  intro hm
  unfold hwIrqCtrlEnableIrq
  dsimp only
  split_ifs with h
  · have hr : Keeps i [] takes m ({ m with ctrl :=
        { m.ctrl with irqMask := m.ctrl.irqMask ||| bit 64 irq }.irqRaisePrefix irq }, []) := by
      refine ⟨hm.enable hi hirq (hm.enable_raise (and_bit_ne_zero.mp h)) (by simp) ?_,
        List.not_mem_nil, fun _ h => ?_⟩
      · intro j hj
        exact ((IrqCtrl.mem_status_irqRaisePrefix _).mp hj).imp_right And.left
      · exact (IrqCtrl.mem_premask_irqRaisePrefix _).mpr (.inl (h.resolve_right List.not_mem_nil))
    unfold hwIrqCtrlRaiseImFromSw
    dsimp only
    split_ifs
    · exact Holds.andThen_nil (fun _ => hr) (holds_posixIrqHandlerImFromSw _) hm
    · exact hr
  · refine Holds.of_ctrl (fun hm => hm.enable hi hirq ?_ rfl fun j hj => .inl hj)
      (fun _ hp => hp) hm
    exact hm.toLatched.enable (mt and_bit_ne_zero.mpr h)

/-! ### Events -/

theorem holds_hwtimerTickTimerReached (m : Soc F) :
    Holds i (m.hwtimerTickTimerReached.2.filterMap Obs.asked) takes m m.hwtimerTickTimerReached := by
  unfold hwtimerTickTimerReached
  dsimp only
  split_ifs
  · exact .of_eq rfl rfl rfl rfl
  · exact Holds.shown (r := (_, [])) ((holds_hwIrqCtrlSetIrq _ _).congr rfl rfl rfl) rfl

/-- The wake-up interrupt has no line. -/
theorem holds_hwtimerAwakeTimerReached (m : Soc F) :
    Holds i [] takes m (m.hwtimerAwakeTimerReached, []) := by
  unfold hwtimerAwakeTimerReached hwIrqCtrlSetIrq awakeInOneDelta
  dsimp only
  split_ifs <;> exact .of_eq rfl rfl rfl rfl

theorem holds_hwtimerTimerReached (m : Soc F) :
    Holds i (m.hwtimerTimerReached.2.filterMap Obs.asked) takes m m.hwtimerTimerReached := by
  have h : ∀ n : Soc F, Holds i [] takes m (n, []) → Holds i
      ((if n.hw.timer.hwTimerTickTimer = m.hw.timer.hwTimerTimer then n.hwtimerTickTimerReached
        else (n, [])).2.filterMap Obs.asked) takes m
      (if n.hw.timer.hwTimerTickTimer = m.hw.timer.hwTimerTimer then n.hwtimerTickTimerReached
        else (n, [])) := by
    intro n hn
    split_ifs
    · exact hn.nil_andThen (holds_hwtimerTickTimerReached n)
    · exact hn
  refine h _ ?_
  split_ifs
  · exact holds_hwtimerAwakeTimerReached m
  · exact .refl m

theorem holds_hwCounterTriggered (m : Soc F) :
    Holds i (m.hwCounterTriggered.2.filterMap Obs.asked) takes m m.hwCounterTriggered := by
  unfold hwCounterTriggered
  dsimp only
  split_ifs
  · exact .of_eq rfl rfl rfl rfl
  · exact Holds.shown (r := (_, [])) ((holds_hwIrqCtrlSetIrq _ _).congr rfl rfl rfl) rfl
  · exact .of_eq rfl rfl rfl rfl

/-- What shows nothing of the timers raises no line. -/
theorem asked_of_shown {o : List (Obs F)} (h : o.filterMap Obs.timerAct = []) :
    o.filterMap Obs.asked = [] := by
  rw [List.filterMap_eq_nil_iff] at h ⊢
  intro x hx
  have := h x hx
  cases x <;> simp_all [Obs.timerAct, Obs.asked]

theorem holds_hwIrqCtrlTimerTriggered (m : Soc F) :
    Holds i (m.hwIrqCtrlTimerTriggered.2.filterMap Obs.asked) takes m m.hwIrqCtrlTimerTriggered := by
  rcases hwIrqCtrlTimerTriggered_cases m with ⟨-, e⟩ | ⟨-, e⟩ <;> rw [e]
  · exact .of_eq rfl rfl rfl rfl
  · rw [Out.andThen, List.filterMap_append, asked_of_shown (untimed_posixIrqHandler _).shown]
    exact Holds.nil_andThen (.of_eq rfl rfl rfl rfl) (holds_posixIrqHandler _)

theorem holds_hwmSleepUntilNextTimer (m : Soc F) :
    Holds i [] takes m m.hwmSleepUntilNextTimer := by
  unfold hwmSleepUntilNextTimer
  refine Holds.nil_andThen ?_ ?_
  · split_ifs <;> exact .of_eq rfl rfl rfl rfl
  · dsimp only
    split_ifs <;> exact .of_eq rfl rfl rfl rfl

theorem holds_hwmSwitch (m : Soc F) :
    Holds i (m.hwmSwitch.2.filterMap Obs.asked) takes m m.hwmSwitch := by
  unfold hwmSwitch
  split
  · exact holds_hwtimerTimerReached m
  · exact holds_hwIrqCtrlTimerTriggered m
  · exact holds_hwCounterTriggered m
  · exact .of_eq rfl rfl rfl rfl

theorem holds_hwmEventEnd (m : Soc F) : Holds i [] takes m (m.hwmEventEnd, []) := by
  unfold hwmEventEnd
  split_ifs <;> exact .of_eq rfl rfl rfl rfl

theorem holds_hwmOneEvent (m : Soc F) :
    Holds i (m.hwmOneEvent.2.filterMap Obs.asked) takes m m.hwmOneEvent := by
  have hs : Holds i [] takes m m.hwmSleepUntilNextTimer := holds_hwmSleepUntilNextTimer m
  rw [hwmOneEvent_eq]
  split_ifs with hc
  · have h := (hs.nil_andThen (holds_hwmSwitch _)).andThen_nil (f := fun n => (n.hwmEventEnd, []))
      (holds_hwmEventEnd _)
    rw [List.filterMap_append, asked_hwmSleepUntilNextTimer, List.nil_append]
    simpa only [Out.andThen, List.append_nil] using h
  · rw [asked_hwmSleepUntilNextTimer]
    exact hs

theorem holds_halt (m : Soc F) : Holds i [] takes m (m.halt, []) := by
  unfold halt
  dsimp only
  split_ifs
  · exact (holds_hwmEventEnd _).congr rfl rfl rfl
  · exact .of_eq rfl rfl rfl rfl

/-! ### Steps -/

theorem holds_isrReturn (m : Soc F) (ret : ℤ) (h : m.isrReturn ret = some r) :
    Holds i [] takes m r := by
  unfold isrReturn at h
  cases hf : m.frames with
  | nil => simp [hf] at h
  | cons frame frames =>
    rw [hf] at h
    obtain rfl := Option.some.inj h
    exact (holds_loopHead _).congr rfl rfl rfl

theorem holds_swStep {a : Act F} (h : m.swStep a = some r) (ha : ¬ a.Enables i) :
    Holds i a.asked.toList (a.Takes i) m r := by
  cases a <;> simp only [swStep, Option.ite_none_right_eq_some, Option.some.injEq,
    reduceCtorEq] at h
  case posixIrqLock => exact h ▸ holds_hwIrqCtrlChangeLock m true
  case posixIrqUnlock key => exact h ▸ holds_hwIrqCtrlChangeLock m key
  case posixIrqEnable irq => exact h.2 ▸ holds_hwIrqCtrlEnableIrq m h.1 ha
  case posixIrqDisable irq => exact h.2 ▸ .of_ctrl (fun hm => hm.disableIrq irq) fun _ => id
  case posixSwSetPendingIrq irq => exact h ▸ holds_hwIrqCtrlRaiseImFromSw m irq
  case posixSwClearPendingIrq irq =>
    refine h.2 ▸ .of_ctrl (fun hm => hm.clearIrq irq) fun ht hi => ?_
    exact mem_lines_and_not_bit.mpr ⟨hi, Ne.symm ht⟩
  case posixIrqPrioritySet => exact h.2 ▸ .of_eq rfl rfl rfl rfl
  case posixIsrDeclare => exact h.2 ▸ .of_eq rfl rfl rfl rfl
  case hwIrqCtrlSetIrq irq => exact h ▸ holds_hwIrqCtrlSetIrq m irq
  case hwIrqCtrlClearAllEnabledIrqs =>
    -- line `i` is not enabled, so that its request is kept
    intro hm
    refine (h ▸ Holds.of_ctrl (fun hm => hm.clear hm.clearAllEnabledIrqs rfl rfl)
      (fun _ hi => mem_lines_and_not.mpr ⟨hi, hm.masked⟩) : Holds i [] _ m r) hm
  case hwIrqCtrlClearAllIrqs =>
    exact h ▸ .of_ctrl (fun hm => hm.clear (.clearAllIrqs _) rfl rfl) fun ht => absurd trivial ht
  case isrReturn ret => exact holds_isrReturn m ret h
  case halt => exact h ▸ holds_halt m
  all_goals exact h ▸ .of_eq rfl rfl rfl rfl

/-- **Every step** but one that enables the line. -/
theorem holds_step {l : Act F × List (Obs F)} {m' : Soc F} (h : Step m l m')
    (hl : ¬ l.1.Enables i) : Holds i (asked l) (l.1.Takes i) m (m', l.2) := by
  obtain ⟨a, o⟩ := l
  rcases step_eq_some.mp h with ⟨hc, h⟩ | ⟨-, rfl, h⟩ | ⟨-, rfl, h⟩
  · have ho : o.filterMap Obs.asked = [] := by
      rcases swStep_cases h with ⟨-, hu⟩ | ⟨-, irq, e⟩ | ⟨c, -, e⟩ | ⟨-, e⟩
      · exact asked_of_shown hu.shown
      all_goals
        obtain rfl := (Prod.mk.inj e).2
        rfl
    simpa only [asked, ho, List.append_nil] using holds_swStep h hl
  · have he : Holds i (m.hwmOneEvent.2.filterMap Obs.asked) False m m.hwmOneEvent :=
      holds_hwmOneEvent m
    rw [h] at he
    exact he
  · obtain ⟨rfl, rfl⟩ := Prod.mk.inj h
    exact .of_eq rfl rfl rfl rfl

/-! ### Runs -/

variable {m₀ m₁ m₂ m₃ : Soc F} {l l' : Act F × List (Obs F)} {ls₀ ls : List (Act F × List (Obs F))}

/-- **Every run** that does not enable the line. -/
theorem held_run (h : Step.Run m₁ ls m₂) (hm : m₁.ctrl.Held i) (hls : ∀ l ∈ ls, ¬ l.1.Enables i) :
    m₂.ctrl.Held i ∧ (∀ l ∈ ls, i ∉ vectored l) ∧
      ((∀ l ∈ ls, ¬ l.1.Takes i) → i ∈ lines m₁.ctrl.irqPremask →
        i ∈ lines m₂.ctrl.irqPremask) := by
  induction h with
  | nil => exact ⟨hm, by simp, fun _ => id⟩
  | cons hl _ ih =>
    obtain ⟨hle, hls⟩ := List.forall_mem_cons.mp hls
    obtain ⟨hh, hs, hk⟩ := holds_step hl hle hm
    obtain ⟨hh', hs', hk'⟩ := ih hh hls
    refine ⟨hh', List.forall_mem_cons.mpr ⟨hs, hs'⟩, fun ht hi => ?_⟩
    obtain ⟨htl, ht⟩ := List.forall_mem_cons.mp ht
    exact hk' ht (hk htl (.inl hi))

/-- **A masked line is held back.** In every run, from a moment on at which a line is neither
enabled nor pending, and for line 31 no line from 32 on is enabled, no handler of it is entered, and
it stays so, until software enables the line, or for line 31 one of those. -/
theorem masked_held (h₀ : Step.Run boot ls₀ m₁) (h : Step.Run m₁ ls m₂) (hm : m₁.ctrl.Masked i)
    (hls : ∀ l ∈ ls, ¬ l.1.Enables i) : m₂.ctrl.Masked i ∧ ∀ l ∈ ls, i ∉ vectored l := by
  obtain ⟨hh, hs, -⟩ := held_run h ⟨latched_run h₀, hm⟩ hls
  exact ⟨hh.toMasked, hs⟩

/-- A handler for line `irq`, of priority 1. -/
def declared (irq : ℕ) : List (Act Unit) :=
  [.posixIsrDeclare irq 0 (some ()) 0, .posixIrqPrioritySet irq 1]

/-- Line 2 is asked for and starts no handler. -/
theorem masked_held_two : ∃ ls₀ m₁ ls m₂, Step.Run (boot : Soc Unit) ls₀ m₁ ∧ Step.Run m₁ ls m₂ ∧
    ls.map Prod.fst = [.posixSwSetPendingIrq 2] ∧ m₂.ctrl.Masked 2 ∧ ∀ l ∈ ls, 2 ∉ vectored l := by
  obtain ⟨t, ht, he⟩ := Option.bind_eq_some_iff.mp (show ((boot : Soc Unit).trace
    (declared 2)).bind (fun t => (t.2.step (.posixSwSetPendingIrq 2)).map fun _ =>
      (t.2.ctrl.irqMask, t.2.ctrl.irqStatus)) = some (0, 0) by rfl)
  obtain ⟨r, hr, he⟩ := Option.map_eq_some_iff.mp he
  obtain ⟨hm, hs⟩ := Prod.mk.inj he
  have hls : Step.Run t.2 [(.posixSwSetPendingIrq 2, r.2)] r.1 := .single hr
  obtain ⟨hh, hv⟩ := masked_held (i := 2) (run_of_trace ht) hls
    ⟨by decide, by simp [hm], by simp [hs], nofun⟩ (by simp [Act.Enables])
  exact ⟨t.1, t.2, _, r.1, run_of_trace ht, hls, rfl, hh, hv⟩

-- A masked line 31 is served while line 32 is enabled.
example : ((boot : Soc Unit).trace (declared 31 ++ [.posixIrqEnable 32,
    .posixSwSetPendingIrq 31])).map (fun t => t.1.flatMap vectored) = some [31] := rfl

end Soc

end MeshNode
