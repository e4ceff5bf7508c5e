import MeshNode.NativePosix.Latency
import MeshNode.NativePosix.Masking

/-!
# Interrupts of the software

Software that raises lines as software does, and not in one delta cycle as the hardware models do,
is interrupted at once.

* `Prudent`: the steps of such software, which changes no priority of a pending line either;
* `Ready`, `ready_step`: where the CPU runs, no interrupt can be served;
* **`running_settled`**: at every moment of a run; a thread runs with no interrupt pending;
* `Offload`, `OffloadStep`: the board with the storage for functions offloaded to interrupts, and
  the calls of `offload_sw_irq_handler`;
* `IrqOffload`: runs of `posix_irq_offload`, with what other code does in between, and signals;
* `vectored_once`, `calls_run`: the line is vectored to once, and the storage is called each time;
* **`irq_offload_once`**: its routine is called once, in interrupt context, before it returns.
-/

namespace MeshNode

open Interact Lines

variable {F : Type}

namespace Soc

open IrqCtrl

variable {m m' m₀ m₁ m₂ m₃ m₄ : Soc F} {ls₀ ls : List (Act F × List (Obs F))}
  {l : Act F × List (Obs F)}

/-- Software raises no line in one delta cycle, and changes no priority of a pending line. -/
def Prudent (m : Soc F) (l : Act F × List (Obs F)) (m' : Soc F) : Prop :=
  Steady m l m' ∧ ∀ irq, l.1 ≠ .hwIrqCtrlSetIrq irq

/-- Where the CPU runs, no interrupt can be served. -/
def Ready (m : Soc F) : Prop := m.cpu = .running → m.ctrl.Calm

/-- When an event has woken the CPU, `posix_irq_handler` has run. -/
theorem ready_hwmOneEvent (hm : m.ctrl.Latched) (hc : m.cpu = .halted) : Ready m.hwmOneEvent.1 := by
  intro hr
  have hsl : m.hwmSleepUntilNextTimer.1.ctrl.Latched :=
    (quiet_hwmSleepUntilNextTimer m).latched hm
  have hend : ∀ n : Soc F, n.hwmEventEnd.cpu = n.cpu ∧ n.hwmEventEnd.ctrl = n.ctrl := by
    intro n
    unfold hwmEventEnd
    split_ifs <;> exact ⟨rfl, rfl⟩
  rw [hwmOneEvent_eq] at hr ⊢
  split_ifs at hr ⊢ with hh
  · generalize m.hwmSleepUntilNextTimer.1 = n at hsl hh hr ⊢
    rw [(hend _).1] at hr
    rw [(hend _).2]
    revert hr
    unfold hwmSwitch
    split
    · exact fun hr => absurd ((inEvent_hwtimerTimerReached n).2.symm.trans hr) (by simp [hh])
    · rcases n.hwIrqCtrlTimerTriggered_cases with ⟨-, e⟩ | ⟨-, e⟩ <;> rw [e]
      · exact fun hr => absurd hr (by simp [hh])
      · exact fun _ => calm_posixIrqHandler (hsl.congr rfl rfl rfl)
    · exact fun hr => absurd ((inEvent_hwCounterTriggered n).2.symm.trans hr) (by simp [hh])
    · exact fun hr => absurd hr (by simp [posixPrintErrorAndExit])
  · obtain ⟨o, e, -⟩ := m.hwmSleepUntilNextTimer_eq
    rw [e] at hr
    dsimp only at hr
    split_ifs at hr
    cases hc.symm.trans hr

theorem ready_step (h : Ready m) (hm : m.ctrl.Latched) (hg : Prudent m l m') (hl : Step m l m') :
    Ready m' := by
  obtain ⟨a, o⟩ := l
  rcases step_eq_some.mp hl with ⟨hc, hs⟩ | ⟨hc, rfl, hs⟩ | ⟨-, rfl, hs⟩
  · exact fun _ => (calms_swStep hm hc hs hg.1 hg.2).calm (h hc)
  · have he := ready_hwmOneEvent hm hc
    rwa [hs] at he
  · obtain ⟨rfl, -⟩ := Prod.mk.inj hs
    exact h

theorem ready_run (h : (Step.such Prudent).Run (boot : Soc F) ls m) : Ready m := by
  refine (h.invariant (I := fun n => n.ctrl.Latched ∧ Ready n) (fun n l n' hn hl => ?_)
    ⟨latched_boot, fun _ => calm_of_status_zero rfl⟩).2
  exact ⟨(plays_step hl.2 hn.1).1, ready_step hn.2 hn.1 hl.1 hl.2⟩

/-- Threads run at a level below all priorities. -/
theorem level_of_thread (h : Step.Run boot ls m) (hn : m.nested = 0) :
    m.ctrl.currentlyRunningPrio = 256 := by
  obtain ⟨-, hb⟩ := chain_run h
  have hf : m.frames = [] := List.length_eq_zero_iff.mp ((nested_run h).count.symm.trans hn)
  simpa [Preempt.State.base, toPreempt, IrqCtrl.toPreempt, hf] using hb

/-- No interrupt is pending while a thread runs with interrupts not locked. -/
theorem status_of_thread (h : (Step.such Prudent).Run (boot : Soc F) ls m) (hc : m.cpu = .running)
    (hl : m.ctrl.irqsLocked = false) (hn : m.nested = 0) : m.ctrl.irqStatus = 0 := by
  have hs := (ready_run h hc).resolve_left (by simp [hl])
  refine lines_eq_empty.mp (Finset.eq_empty_iff_forall_notMem.mpr fun j hj => ?_)
  have h₁ := hs j hj
  have h₂ := m.ctrl.prioOf_lt j
  rw [level_of_thread h.of_such hn] at h₁
  omega

/-- **Software is interrupted at once.** In every run of such software, while the CPU runs and
interrupts are not locked, no pending line outranks what runs, and none is pending while a thread
runs. -/
theorem running_settled (h : (Step.such Prudent).Run (boot : Soc F) ls m) (hc : m.cpu = .running)
    (hl : m.ctrl.irqsLocked = false) :
    (∀ j ∈ lines m.ctrl.irqStatus, m.ctrl.currentlyRunningPrio ≤ m.ctrl.prioOf j) ∧
      (m.nested = 0 → m.ctrl.irqStatus = 0) :=
  ⟨(ready_run h hc).resolve_left (by simp [hl]), status_of_thread h hc hl⟩

/-- Acts that are prudent whatever the state. -/
theorem prudent_of_act {a : Act F} (hp : ∀ irq prio, a ≠ .posixIrqPrioritySet irq prio)
    (hs : ∀ irq, a ≠ .hwIrqCtrlSetIrq irq) (m : Soc F) (o : List (Obs F)) (m' : Soc F) :
    Prudent m (a, o) m' :=
  ⟨fun irq prio e => absurd e (hp irq prio), hs⟩

/-- A run of such acts. -/
theorem prudent_of_trace {as : List (Act F)} {t : List (Act F × List (Obs F)) × Soc F}
    (h : m.trace as = some t) (hp : ∀ a ∈ as, (∀ irq prio, a ≠ .posixIrqPrioritySet irq prio) ∧
      ∀ irq, a ≠ .hwIrqCtrlSetIrq irq) : (Step.such Prudent).Run m t.1 t.2 :=
  (run_of_trace h).to_such fun l hl _ _ =>
    have hl := forall_of_trace h hp l hl
    prudent_of_act hl.1 hl.2 _ _ _

/-- Line 2 waits while the handler of line 1 runs. -/
theorem running_settled_two : ∃ ls m, (Step.such Prudent).Run (boot : Soc Unit) ls m ∧
    m.ctrl.irqStatus = 4 ∧
    ∀ j ∈ lines m.ctrl.irqStatus, m.ctrl.currentlyRunningPrio ≤ m.ctrl.prioOf j := by
  obtain ⟨t, ht, he⟩ := Option.map_eq_some_iff.mp (show ((boot : Soc Unit).trace
    [.posixIsrDeclare 1 0 (some ()) 0, .posixIrqEnable 1, .posixIrqEnable 2,
      .posixSwSetPendingIrq 1, .posixSwSetPendingIrq 2]).map (fun t =>
        (t.2.cpu, t.2.ctrl.irqsLocked, t.2.ctrl.irqStatus)) = some (.running, false, 4) by rfl)
  simp only [Prod.mk.injEq] at he
  have hrun := prudent_of_trace ht (by simp)
  exact ⟨t.1, t.2, hrun, he.2.2, (running_settled hrun he.1 he.2.1).1⟩

/-! ### The line of `posix_irq_offload` -/

/-- Raising an enabled line serves it at once, or makes it wait. -/
theorem hwIrqCtrlRaiseImFromSw_served (hm : m.ctrl.Latched) {i : ℕ} (hi : i < nIrqs)
    (he : i ∈ lines m.ctrl.irqMask) :
    i ∈ (m.hwIrqCtrlRaiseImFromSw i).2.filterMap Obs.vectored ∨
      i ∈ lines (m.hwIrqCtrlRaiseImFromSw i).1.ctrl.irqStatus := by
  have hs : i ∈ lines (m.ctrl.irqRaisePrefix i).irqStatus :=
    (mem_status_irqRaisePrefix _).mpr (.inr ⟨rfl, hi, .inl he⟩)
  unfold hwIrqCtrlRaiseImFromSw
  dsimp only
  split_ifs
  · have hp : Plays [] (fun _ => False) { m with ctrl := m.ctrl.irqRaisePrefix i } _ :=
      plays_posixIrqHandlerImFromSw _
    exact (hp (hm.irqRaisePrefix i)).2.pending_or_vectored hs id
  · exact .inr hs

/-- Enabling a line for which there is no request starts no handler. -/
theorem enabled_of_step {i : ℕ} {o : List (Obs F)} (h : Step m (.posixIrqEnable i, o) m')
    (hi : i ∉ lines m.ctrl.irqPremask) :
    o = [] ∧ i ∈ lines m'.ctrl.irqMask ∧ m'.ctrl.irqPremask = m.ctrl.irqPremask ∧
      m'.irqVectorTable = m.irqVectorTable := by
  obtain ⟨-, e⟩ := swStep_of_step h (by simp) (by simp)
  simp only [swStep, Option.ite_none_right_eq_some, Option.some.injEq] at e
  obtain ⟨hlt, e⟩ := e
  rw [hwIrqCtrlEnableIrq, if_neg (mt and_bit_ne_zero.mp hi)] at e
  obtain ⟨rfl, rfl⟩ := Prod.mk.inj e
  exact ⟨rfl, (mem_lines_or_bit hlt).mpr (.inr rfl), rfl, rfl⟩

/-- **A line that is raised is vectored to once** until a thread goes on, whatever handlers and
other threads do meanwhile that leave it alone. -/
theorem vectored_once (h : (Step.such Prudent).Run boot ls₀ m₂) {i : ℕ} {o : List (Obs F)}
    (hi : i ∉ lines m₂.ctrl.irqPremask) (hlt : i < nIrqs) (he : i ∈ lines m₂.ctrl.irqMask)
    (h₃ : Step m₂ (.posixSwSetPendingIrq i, o) m₃) (hr : (Step.such Prudent).Run m₃ ls m₄)
    (hls : ∀ l ∈ ls, i ∉ asked l ∧ ¬ l.1.Clears i) (hc : m₄.cpu = .running) (hn : m₄.nested = 0)
    (hl : m₄.ctrl.irqsLocked = false) :
    (((.posixSwSetPendingIrq i, o) :: ls).flatMap vectored).count i = 1 := by
  have hm := latched_run h.of_such
  obtain ⟨-, e₃⟩ := swStep_of_step h₃ (by simp) (by simp)
  simp only [swStep, Option.some.injEq] at e₃
  have hle : (((.posixSwSetPendingIrq i, o) :: ls).flatMap vectored).count i ≤ 1 := by
    have hcount := count_vectored_le (.cons h₃ hr.of_such) hm i
    have hshown := (untimed_hwIrqCtrlRaiseImFromSw m₂ i).shown
    rw [e₃] at hshown
    have hnone : (ls.flatMap asked).count i = 0 := List.count_eq_zero.mpr fun hmem => by
      obtain ⟨l, hl, hmem⟩ := List.mem_flatMap.mp hmem
      exact (hls l hl).1 hmem
    have hone : (asked (.posixSwSetPendingIrq i, o)).count i = 1 := by
      simp [asked, Act.asked, asked_of_shown hshown]
    simp only [List.flatMap_cons, List.count_append, hone, hnone, if_neg hi] at hcount ⊢
    omega
  have hge : i ∈ ((.posixSwSetPendingIrq i, o) :: ls).flatMap vectored := by
    have hserved := hwIrqCtrlRaiseImFromSw_served hm hlt he
    rw [e₃] at hserved
    rw [List.flatMap_cons, List.mem_append]
    rcases hserved with hv | hs
    · exact .inl hv
    · -- where the thread goes on, nothing waits any more
      refine .inr ((pending_or_vectored_run hr.of_such (plays_step h₃ hm).1 hs
        fun l hl => (hls l hl).2).resolve_right ?_)
      have hrun := h.append (.cons ⟨by simp [Prudent, Steady], h₃⟩ hr)
      simp [status_of_thread hrun hc hl hn]
  exact le_antisymm hle (List.count_pos_iff.mpr hge)

/-- A handler runs when one has been entered. -/
theorem nested_pos (h : Step.Run boot ls m) (hl : Step m l m') {irq : ℕ} (hi : irq ∈ vectored l) :
    0 < m'.nested := by
  have hn := (nested_run h).step (kind_step hl)
  have hf := (fresh_kind (latched_run h) (kind_step hl) irq hi).running
  rw [hn.count]
  refine Nat.pos_of_ne_zero fun h0 => ?_
  have hlinked := hn.linked
  rw [List.length_eq_zero_iff.mp h0, hf] at hlinked
  cases active : nest (activeLines ls) (l.1, l.2) with
  | nil => simp [active] at hlinked
  | cons => simp [active] at hlinked

end Soc

/-! ### `posix_irq_offload` -/

/-- The handlers of the board: that of `posix_irq_offload`, and the others. -/
inductive Isr (F : Type)
  | offloadSwIrqHandler
  | other (f : F)

/-- The board with the storage for functions offloaded to interrupts. -/
structure Offload (F R : Type) where
  soc : Soc (Isr F)
  offRoutine : Option R
  offParameter : ℕ

/-- A call `off_routine(off_parameter)`, with the nesting counter of the kernel at that moment. -/
structure OffCall (R : Type) where
  offRoutine : Option R
  offParameter : ℕ
  nested : ℕ

/-- A step of the board, or the assignments to the storage. -/
inductive OffAct (F R : Type)
  | board (l : Act (Isr F) × List (Obs (Isr F)))
  | store (routine : R) (parameter : ℕ)

/-- The step of the board. -/
def OffAct.onBoard {F R : Type} : OffAct F R → Option (Act (Isr F) × List (Obs (Isr F)))
  | .board l => some l
  | .store _ _ => none

@[simp] theorem OffAct.onBoard_board {F R : Type} (l : Act (Isr F) × List (Obs (Isr F))) :
    (OffAct.board l : OffAct F R).onBoard = some l := rfl

@[simp] theorem OffAct.onBoard_store {F R : Type} (routine : R) (parameter : ℕ) :
    (OffAct.store routine parameter : OffAct F R).onBoard = none := rfl

namespace Offload

open Soc

variable {F R : Type}

def boot : Offload F R := ⟨.boot, none, 0⟩

/-- `offload_sw_irq_handler`. -/
def offloadSwIrqHandler (s : Offload F R) : OffCall R := ⟨s.offRoutine, s.offParameter, s.soc.nested⟩

/-- The call of a handler that was entered on the way to `s`. -/
def callOf (s : Offload F R) : Obs (Isr F) → Option (OffCall R)
  | .isr _ .offloadSwIrqHandler _ => some s.offloadSwIrqHandler
  | _ => none

/-- The calls of all handlers that were. -/
def calls (s : Offload F R) (o : List (Obs (Isr F))) : List (OffCall R) := o.filterMap s.callOf

/-- The steps, with the calls made in them. -/
inductive OffloadStep : Lts (OffAct F R × List (OffCall R)) (Offload F R)
  | board {s : Offload F R} {l : Act (Isr F) × List (Obs (Isr F))} {m : Soc (Isr F)} :
      Soc.Step s.soc l m → OffloadStep s (.board l, calls { s with soc := m } l.2)
        { s with soc := m }
  | store {s : Offload F R} (routine : R) (parameter : ℕ) : s.soc.cpu = .running →
      OffloadStep s (.store routine parameter, [])
        { s with offRoutine := some routine, offParameter := parameter }

/-- The code on the board: it raises no line in one delta cycle, changes no priority of a pending
line, and declares `offload_sw_irq_handler` for its own line only. -/
def Fair (s : Offload F R) (l : OffAct F R × List (OffCall R)) (s' : Offload F R) : Prop :=
  ∀ b ∈ l.1.onBoard, Prudent s.soc b s'.soc ∧ ∀ irq flags param,
    b.1 = .posixIsrDeclare irq flags (some .offloadSwIrqHandler) param → irq = offloadSwIrq

/-- The storage stays, and so does the handler of the line. -/
def Spares (l : OffAct F R × List (OffCall R)) : Prop :=
  ∃ b, l.1 = .board b ∧ ∀ flags func param, b.1 ≠ .posixIsrDeclare offloadSwIrq flags func param

/-- The line is left alone as well: it is neither raised nor cleared. -/
def Aloof (l : OffAct F R × List (OffCall R)) : Prop :=
  Spares l ∧ ∀ b ∈ l.1.onBoard, offloadSwIrq ∉ asked b ∧ ¬ b.1.Clears offloadSwIrq

/-- A step of some code, and the signals to the process that come before its next one. -/
def Signalled (s : Offload F R) (l : OffAct F R × List (OffCall R))
    (all : List (OffAct F R × List (OffCall R))) (s' : Offload F R) : Prop :=
  ∃ t signals, OffloadStep s l t ∧ (OffloadStep.such Fair).Run t signals s' ∧
    (∀ x ∈ signals, ∃ o, x.1 = .board (.hwmSignalEnd, o)) ∧ all = l :: signals

/-- Runs of `posix_irq_offload`. Handlers and other threads may run, and leave its line and its
storage alone, before its third call returns to its own thread with interrupts not locked; signals
to the process may come at any moment. -/
inductive IrqOffload (routine : R) (parameter : ℕ) (s : Offload F R)
    (all : List (OffAct F R × List (OffCall R))) (s' : Offload F R) : Prop
  | mk {s₀ s₁ s₂ s₃ s₄ : Offload F R} {o₁ o₂ o₃ o₄ : List (Obs (Isr F))}
      {c₀ c₁ c₂ c₃ c₄ : List (OffCall R)} {ls₀ ls₁ ls₂ ls : List (OffAct F R × List (OffCall R))} :
      Signalled s (.store routine parameter, c₀) ls₀ s₀ →
      Signalled s₀ (.board (.posixIsrDeclare offloadSwIrq 0 (some .offloadSwIrqHandler) 0, o₁), c₁)
        ls₁ s₁ →
      Signalled s₁ (.board (.posixIrqEnable offloadSwIrq, o₂), c₂) ls₂ s₂ →
      OffloadStep s₂ (.board (.posixSwSetPendingIrq offloadSwIrq, o₃), c₃) s₃ →
      (OffloadStep.such Fair).Run s₃ ls s₄ → (∀ l ∈ ls, Aloof l) →
      s₄.soc.nested = 0 → s₄.soc.ctrl.irqsLocked = false →
      OffloadStep s₄ (.board (.posixIrqDisable offloadSwIrq, o₄), c₄) s' →
      all = ls₀ ++ ls₁ ++ ls₂ ++ (.board (.posixSwSetPendingIrq offloadSwIrq, o₃), c₃) ::
        (ls ++ [(.board (.posixIrqDisable offloadSwIrq, o₄), c₄)]) →
      IrqOffload routine parameter s all s'

/-! ### The handler of the line -/

variable {s s' : Offload F R} {l : OffAct F R × List (OffCall R)}
  {ls ls₀ : List (OffAct F R × List (OffCall R))} {routine : R} {parameter : ℕ}

/-- The steps of the board in a run. -/
def boards (ls : List (OffAct F R × List (OffCall R))) : List (Act (Isr F) × List (Obs (Isr F))) :=
  ls.filterMap fun l => l.1.onBoard

theorem boards_cons {b : Act (Isr F) × List (Obs (Isr F))} (h : l.1 = .board b) :
    boards (l :: ls) = b :: boards ls := by
  obtain ⟨a, c⟩ := l
  obtain rfl : a = _ := h
  rfl

/-- A run is one of the board. -/
theorem board_run (h : (OffloadStep.such Fair).Run s ls s') :
    (Soc.Step.such Prudent).Run s.soc (boards ls) s'.soc := by
  induction h with
  | nil => exact .nil _
  | cons hl _ ih =>
    obtain ⟨hf, hl⟩ := hl
    cases hl with
    | board h => exact .cons ⟨(hf _ rfl).1, h⟩ ih
    | store => exact ih

/-- The handler of line `irq` in the table. -/
def handlerAt (table : Vector (Entry (Isr F)) nIrqs) (irq : ℕ) : Option (Isr F) :=
  table[irq]?.bind Entry.func

theorem handlerAt_declare (m : Soc (Isr F)) (irq : ℕ) (flags : UInt32) (func : Option (Isr F))
    (param j : ℕ) : handlerAt (m.posixIsrDeclare irq flags func param).irqVectorTable j =
      if j = irq ∧ j < nIrqs then func else handlerAt m.irqVectorTable j := by
  unfold handlerAt posixIsrDeclare
  dsimp only
  rw [Vector.getElem?_setIfInBounds]
  by_cases hj : j = irq
  · subst hj
    by_cases hlt : j < nIrqs
    · rw [if_pos rfl, if_pos hlt, if_pos ⟨rfl, hlt⟩]
      rfl
    · rw [if_pos rfl, if_neg hlt, if_neg fun h => hlt h.2, Vector.getElem?_eq_none (not_lt.mp hlt)]
  · rw [if_neg (Ne.symm hj), if_neg fun h => hj h.1]

theorem callOf_vectorObs (s : Offload F R) (table : Vector (Entry (Isr F)) nIrqs) (irq : ℕ) :
    s.callOf (vectorObs table irq) = match handlerAt table irq with
      | some .offloadSwIrqHandler => some s.offloadSwIrqHandler
      | _ => none := by
  unfold handlerAt vectorObs
  cases table[irq]? with
  | none => rfl
  | some e =>
    obtain ⟨_, func, _, _⟩ := e
    rcases func with _ | (_ | f) <;> rfl

/-- **The calls of a step**: one for each time that the line is vectored to. -/
theorem calls_eq {table : Vector (Entry (Isr F)) nIrqs}
    (hline : ∀ irq, handlerAt table irq = some .offloadSwIrqHandler ↔ irq = offloadSwIrq)
    {o : List (Obs (Isr F))} (ho : ∀ x ∈ o, ∀ irq ∈ x.vectored, x = vectorObs table irq)
    (s : Offload F R) : s.calls o =
      .replicate ((o.filterMap Obs.vectored).count offloadSwIrq) s.offloadSwIrqHandler := by
  induction o with
  | nil => rfl
  | cons x o ih =>
    obtain ⟨hx, ho⟩ := List.forall_mem_cons.mp ho
    have ih := ih ho
    unfold calls at ih ⊢
    cases hv : x.vectored with
    | none =>
      have hc : s.callOf x = none := by
        cases x with
        | isr => cases hv
        | _ => rfl
      rw [List.filterMap_cons_none hc, List.filterMap_cons_none hv, ih]
    | some irq =>
      have hc := callOf_vectorObs s table irq
      rw [← hx irq hv] at hc
      rw [List.filterMap_cons_some hv]
      by_cases hi : irq = offloadSwIrq
      · rw [(hline irq).mpr hi] at hc
        rw [List.filterMap_cons_some hc, ih, hi, List.count_cons_self, List.replicate_succ]
      · have hne := mt (hline irq).mp hi
        have hc : s.callOf x = none := by
          rw [hc]
          rcases hh : handlerAt table irq with _ | (_ | f)
          · rfl
          · exact absurd hh hne
          · rfl
        rw [List.filterMap_cons_none hc, ih, List.count_cons_of_ne (fun e => hi e)]

/-- The storage and the line are those of a running `posix_irq_offload`. -/
structure Loaded (routine : R) (parameter : ℕ) (s : Offload F R) : Prop where
  reached : ∃ ls, (Soc.Step.such Prudent).Run .boot ls s.soc
  offRoutine : s.offRoutine = some routine
  offParameter : s.offParameter = parameter
  line : ∀ irq, handlerAt s.soc.irqVectorTable irq = some .offloadSwIrqHandler ↔ irq = offloadSwIrq

/-- A step that leaves both alone calls the storage once for each time it vectors to the line. -/
theorem Loaded.step (h : Loaded routine parameter s) (hf : Fair s l s') (hs : Spares l)
    (hl : OffloadStep s l s') : Loaded routine parameter s' ∧ ∃ b, l.1 = .board b ∧
      l.2.length = (vectored b).count offloadSwIrq ∧
      ∀ c ∈ l.2, c = ⟨some routine, parameter, c.nested⟩ ∧ 0 < c.nested := by
  obtain ⟨b, hb, hdecl⟩ := hs
  cases hl with
  | store => cases hb
  | @board _ _ m hstep =>
    cases hb
    obtain ⟨ls, hreach⟩ := h.reached
    have hreached : ∃ ls, (Soc.Step.such Prudent).Run .boot ls m :=
      ⟨_, hreach.append (.single ⟨(hf _ rfl).1, hstep⟩)⟩
    rcases vectors_step (kind_step hstep) with ⟨hstays, hobs⟩ | ⟨irq, flags, func, param, ha, hr⟩
    · have hline : ∀ irq, handlerAt m.irqVectorTable irq = some .offloadSwIrqHandler ↔
          irq = offloadSwIrq := by
        rw [hstays]
        exact h.line
      refine ⟨⟨hreached, h.offRoutine, h.offParameter, hline⟩, b, rfl, ?_, ?_⟩
      · rw [calls_eq h.line hobs, List.length_replicate]
        rfl
      · intro c hc
        rw [calls_eq h.line hobs] at hc
        obtain ⟨hne, rfl⟩ := List.mem_replicate.mp hc
        refine ⟨by simp [offloadSwIrqHandler, h.offRoutine, h.offParameter], ?_⟩
        exact nested_pos hreach.of_such hstep (List.count_pos_iff.mp (Nat.pos_of_ne_zero hne))
    · -- another line is declared, with another handler
      obtain ⟨a, o⟩ := b
      obtain rfl : a = _ := ha
      obtain ⟨rfl, rfl⟩ := Prod.mk.inj hr
      refine ⟨⟨hreached, h.offRoutine, h.offParameter, fun j => ?_⟩, _, rfl, rfl, by simp [calls]⟩
      rw [handlerAt_declare]
      split_ifs with hj
      · obtain ⟨rfl, -⟩ := hj
        have hne : j ≠ offloadSwIrq := by
          rintro rfl
          exact hdecl flags func param rfl
        refine iff_of_false ?_ hne
        rintro rfl
        exact hne ((hf _ rfl).2 j flags param rfl)
      · exact h.line j

/-- **The calls of a run** of such steps. -/
theorem calls_run (h : (OffloadStep.such Fair).Run s ls s') (hs : Loaded routine parameter s)
    (hls : ∀ l ∈ ls, Spares l) :
    (ls.flatMap Prod.snd).length = ((boards ls).flatMap vectored).count offloadSwIrq ∧
      ∀ c ∈ ls.flatMap Prod.snd, c = ⟨some routine, parameter, c.nested⟩ ∧ 0 < c.nested := by
  induction h with
  | nil => exact ⟨rfl, by simp⟩
  | cons hl _ ih =>
    obtain ⟨hl', hls⟩ := List.forall_mem_cons.mp hls
    obtain ⟨hs, b, hb, hlen, hcall⟩ := hs.step hl.1 hl' hl.2
    obtain ⟨hlens, hcalls⟩ := ih hs hls
    refine ⟨?_, ?_⟩
    · rw [List.flatMap_cons, List.length_append, hlen, hlens, boards_cons hb, List.flatMap_cons,
        List.count_append]
    · rw [List.flatMap_cons]
      exact fun c hc => (List.mem_append.mp hc).elim (hcall c) (hcalls c)

/-- The handler of `posix_irq_offload` is declared for no other line. -/
theorem reserved_run (h : (OffloadStep.such Fair).Run (boot : Offload F R) ls s) :
    ∀ irq, handlerAt s.soc.irqVectorTable irq = some .offloadSwIrqHandler → irq = offloadSwIrq := by
  refine h.invariant (I := fun s => ∀ irq, handlerAt s.soc.irqVectorTable irq =
    some .offloadSwIrqHandler → irq = offloadSwIrq) ?_ ?_
  · rintro s l s' hs ⟨hf, hl⟩
    cases hl with
    | store => exact hs
    | @board _ b m hstep =>
      rcases vectors_step (kind_step hstep) with ⟨hstays, -⟩ | ⟨irq, flags, func, param, ha, hr⟩
      · rw [← hstays] at hs
        exact hs
      · obtain ⟨a, o⟩ := b
        obtain rfl : a = _ := ha
        obtain ⟨rfl, rfl⟩ := Prod.mk.inj hr
        intro j
        rw [handlerAt_declare]
        split_ifs with hj
        · rintro rfl
          exact hj.1 ▸ (hf _ rfl).2 irq flags param rfl
        · exact hs j
  · intro irq h
    simp only [handlerAt, boot, Soc.boot, Vector.getElem?_replicate] at h
    split_ifs at h <;> simp at h

/-- Signals make no call, and change nothing but the hardware models. -/
theorem signals_run (h : (OffloadStep.such Fair).Run s ls s')
    (hls : ∀ x ∈ ls, ∃ o, x.1 = .board (.hwmSignalEnd, o)) :
    (∃ hw, s' = { s with soc := { s.soc with hw := hw } }) ∧ ls.flatMap Prod.snd = [] := by
  induction h with
  | nil => exact ⟨⟨_, rfl⟩, rfl⟩
  | cons hl _ ih =>
    obtain ⟨⟨o, hsig⟩, hrest⟩ := List.forall_mem_cons.mp hls
    obtain ⟨-, hl⟩ := hl
    cases hl with
    | store => cases hsig
    | board h =>
      cases hsig
      rcases step_eq_some.mp h with ⟨-, h⟩ | ⟨-, h, -⟩ | ⟨-, -, h⟩
      · cases h
      · cases h
      · obtain ⟨rfl, rfl⟩ := Prod.mk.inj h
        obtain ⟨⟨hw, rfl⟩, hnone⟩ := ih hrest
        exact ⟨⟨hw, rfl⟩, hnone⟩

/-- With the signals after it, a step does and calls what it does and calls without. -/
theorem Signalled.spec {all : List (OffAct F R × List (OffCall R))} (h : Signalled s l all s') :
    ∃ t hw, OffloadStep s l t ∧ s' = { t with soc := { t.soc with hw := hw } } ∧
      all.flatMap Prod.snd = l.2 ∧ (Fair s l t → (OffloadStep.such Fair).Run s all s') := by
  obtain ⟨t, signals, hl, hrun, hs, rfl⟩ := h
  obtain ⟨⟨hw, e⟩, hnone⟩ := signals_run hrun hs
  exact ⟨t, hw, hl, e, by rw [List.flatMap_cons, hnone, List.append_nil],
    fun hf => .cons ⟨hf, hl⟩ hrun⟩

/-- Acts that are fair whatever the state. -/
theorem fair_of_act {a : Act (Isr F)} (hp : ∀ irq prio, a ≠ .posixIrqPrioritySet irq prio)
    (hs : ∀ irq, a ≠ .hwIrqCtrlSetIrq irq) (hd : ∀ irq flags param,
      a = .posixIsrDeclare irq flags (some .offloadSwIrqHandler) param → irq = offloadSwIrq)
    (s : Offload F R) (o : List (Obs (Isr F))) (c : List (OffCall R)) (s' : Offload F R) :
    Fair s (.board (a, o), c) s' := by
  rintro b ⟨⟩
  exact ⟨prudent_of_act hp hs _ _ _, hd⟩

/-- The first steps of `posix_irq_offload` make no call, and enable the line. -/
theorem loaded_of_steps {s₀ s₁ s₂ : Offload F R} {o₁ o₂ : List (Obs (Isr F))}
    {c₀ c₁ c₂ : List (OffCall R)} {l₀ l₁ l₂ : List (OffAct F R × List (OffCall R))}
    (h : (OffloadStep.such Fair).Run boot ls₀ s) (hi : offloadSwIrq ∉ lines s.soc.ctrl.irqPremask)
    (h₀ : Signalled s (.store routine parameter, c₀) l₀ s₀)
    (h₁ : Signalled s₀
      (.board (.posixIsrDeclare offloadSwIrq 0 (some .offloadSwIrqHandler) 0, o₁), c₁) l₁ s₁)
    (h₂ : Signalled s₁ (.board (.posixIrqEnable offloadSwIrq, o₂), c₂) l₂ s₂) :
    (l₀ ++ l₁ ++ l₂).flatMap Prod.snd = [] ∧ Loaded routine parameter s₂ ∧
      offloadSwIrq ∉ lines s₂.soc.ctrl.irqPremask ∧ offloadSwIrq ∈ lines s₂.soc.ctrl.irqMask := by
  have hres := reserved_run h
  obtain ⟨t₀, w₀, g₀, rfl, e₀, hrun₀⟩ := h₀.spec
  obtain ⟨t₁, w₁, g₁, rfl, e₁, hrun₁⟩ := h₁.spec
  obtain ⟨t₂, w₂, g₂, rfl, e₂, hrun₂⟩ := h₂.spec
  have hreach := board_run (((h.append (hrun₀ (by rintro b ⟨⟩))).append
    (hrun₁ (fair_of_act (by simp) (by simp) (by simp) _ _ _ _))).append
    (hrun₂ (fair_of_act (by simp) (by simp) (by simp) _ _ _ _)))
  rw [List.flatMap_append, List.flatMap_append, e₀, e₁, e₂]
  cases g₀ with | store _ _ hc₀ =>
  cases g₁ with | @board _ _ m₁ g₁ =>
  cases g₂ with | @board _ _ m₂ g₂ =>
  obtain ⟨-, e₁⟩ := swStep_of_step g₁ (by simp) (by simp)
  simp only [swStep, Option.ite_none_right_eq_some, Option.some.injEq, Prod.mk.injEq] at e₁
  obtain ⟨-, rfl, rfl⟩ := e₁
  obtain ⟨rfl, hmask, hpre, htable⟩ := enabled_of_step g₂ hi
  refine ⟨rfl, ⟨⟨_, hreach⟩, rfl, rfl, fun irq => ?_⟩, hpre ▸ hi, hmask⟩
  show handlerAt m₂.irqVectorTable irq = _ ↔ _
  rw [htable]
  show handlerAt (posixIsrDeclare _ _ _ _ _).irqVectorTable irq = _ ↔ _
  rw [handlerAt_declare]
  split_ifs with hj
  · exact iff_of_true rfl hj.1
  · refine ⟨hres irq, fun e => absurd ⟨e, ?_⟩ hj⟩
    rw [e]
    decide

/-- **The routine is called once**, in interrupt context, before `posix_irq_offload` returns to a
thread, whatever handlers and other threads do meanwhile. -/
theorem irq_offload_once (h : (OffloadStep.such Fair).Run boot ls₀ s)
    (hi : offloadSwIrq ∉ lines s.soc.ctrl.irqPremask) (ho : IrqOffload routine parameter s ls s') :
    ∃ nested, 0 < nested ∧ ls.flatMap Prod.snd = [⟨some routine, parameter, nested⟩] := by
  obtain @⟨s₀, s₁, s₂, s₃, s₄, o₁, o₂, o₃, o₄, c₀, c₁, c₂, c₃, c₄, l₀, l₁, l₂, ls, h₀, h₁, h₂, h₃,
    hr, hls, hn, hl, h₄, rfl⟩ := ho
  obtain ⟨hnone, hload, hfree, hmask⟩ := loaded_of_steps h hi h₀ h₁ h₂
  obtain ⟨hc, rfl⟩ : s₄.soc.cpu = .running ∧ c₄ = [] := by
    cases h₄ with | board h₄ =>
    obtain ⟨hc, e₄⟩ := swStep_of_step h₄ (by simp) (by simp)
    simp only [swStep, Option.ite_none_right_eq_some, Option.some.injEq, Prod.mk.injEq] at e₄
    obtain ⟨-, -, rfl⟩ := e₄
    exact ⟨hc, rfl⟩
  -- the third call and what follows it until the thread goes on
  have hfair : Fair s₂ (.board (.posixSwSetPendingIrq offloadSwIrq, o₃), c₃) s₃ :=
    fair_of_act (by simp) (by simp) (by simp) _ _ _ _
  obtain ⟨hlen, hcalls⟩ := calls_run (.cons ⟨hfair, h₃⟩ hr) hload
    (List.forall_mem_cons.mpr ⟨⟨_, rfl, by simp⟩, fun l hl => (hls l hl).1⟩)
  have hone : ((boards ((.board (.posixSwSetPendingIrq offloadSwIrq, o₃), c₃) :: ls)).flatMap
      vectored).count offloadSwIrq = 1 := by
    obtain ⟨ls₂, hrun⟩ := hload.reached
    cases h₃ with | board h₃ =>
    refine vectored_once hrun hfree (by decide) hmask h₃ (board_run hr) (fun b hb => ?_) hc hn hl
    obtain ⟨l, hl, hb⟩ := List.mem_filterMap.mp hb
    exact (hls l hl).2 b hb
  obtain ⟨c, hc⟩ := List.length_eq_one_iff.mp (hlen.trans hone)
  obtain ⟨hval, hpos⟩ := hcalls c (by rw [hc]; exact List.mem_singleton_self c)
  refine ⟨c.nested, hpos, ?_⟩
  rw [← hval, ← hc, List.flatMap_append, hnone]
  simp

/-- A run of acts of the board, which are such as the code on it makes. -/
theorem exists_run_of_trace {as : List (Act (Isr F))}
    {t : List (Act (Isr F) × List (Obs (Isr F))) × Soc (Isr F)} (h : s.soc.trace as = some t)
    (has : ∀ a ∈ as, (∀ irq prio, a ≠ .posixIrqPrioritySet irq prio) ∧
      (∀ irq, a ≠ .hwIrqCtrlSetIrq irq) ∧ ∀ irq flags param,
        a ≠ .posixIsrDeclare irq flags (some .offloadSwIrqHandler) param) :
    ∃ ls, (OffloadStep.such Fair).Run s ls { s with soc := t.2 } ∧ boards ls = t.1 ∧
      ∀ l ∈ ls, ∃ b ∈ t.1, l.1 = .board b := by
  induction as generalizing s t with
  | nil =>
    obtain rfl := Option.some.inj h
    exact ⟨[], .nil _, rfl, by simp⟩
  | cons a as ih =>
    obtain ⟨⟨hp, hs, hd⟩, has⟩ := List.forall_mem_cons.mp has
    obtain ⟨r, hr, h⟩ := Option.bind_eq_some_iff.mp h
    obtain ⟨t, ht, rfl⟩ := Option.map_eq_some_iff.mp h
    obtain ⟨ls, hrun, hboards, hls⟩ := ih (s := { s with soc := r.1 }) ht has
    have hstep : Soc.Step s.soc (a, r.2) r.1 := hr
    refine ⟨_, .cons ⟨?_, .board hstep⟩ hrun, congrArg _ hboards, List.forall_mem_cons.mpr
      ⟨⟨_, List.mem_cons_self, rfl⟩, fun l hl => ?_⟩⟩
    · exact fair_of_act hp hs (fun irq flags param e => absurd e (hd irq flags param)) _ _ _ _
    · obtain ⟨b, hb, he⟩ := hls l hl
      exact ⟨b, List.mem_cons_of_mem _ hb, he⟩

/-- Called with interrupts locked and line 0 pending: the handler of line 0 runs first. -/
theorem irq_offload_once_locked : ∃ s ls s', IrqOffload true 7 (s : Offload Unit Bool) ls s' ∧
    (boards ls).flatMap vectored = [0, 1] ∧
    ∃ nested, 0 < nested ∧ ls.flatMap Prod.snd = [⟨some true, 7, nested⟩] := by
  obtain ⟨t₀, ht₀, he⟩ := Option.bind_eq_some_iff.mp (show ((Soc.boot : Soc (Isr Unit)).trace
    [.posixIsrDeclare 0 0 (some (.other ())) 0, .posixIrqEnable 0, .posixIrqLock,
      .posixSwSetPendingIrq 0]).bind (fun t₀ =>
        (t₀.2.step (.posixIsrDeclare 1 0 (some .offloadSwIrqHandler) 0)).bind fun r₁ =>
          (r₁.1.step (.posixIrqEnable 1)).bind fun r₂ =>
            (r₂.1.step (.posixSwSetPendingIrq 1)).bind fun r₃ =>
              (r₃.1.trace [.posixIrqUnlock false, .isrReturn 0, .isrReturn 0]).bind fun t =>
                (t.2.step (.posixIrqDisable 1)).map fun r₄ =>
                  (t₀.2.cpu, t₀.2.ctrl.irqPremask, (r₁.2 ++ r₂.2 ++ r₃.2).filterMap Obs.vectored,
                    t.1.flatMap vectored, t.1.flatMap asked, t.2.nested, t.2.ctrl.irqsLocked,
                    r₄.2.filterMap Obs.vectored)) =
      some (.running, 1, [], [0, 1], [], 0, false, []) by rfl)
  obtain ⟨r₁, hr₁, he⟩ := Option.bind_eq_some_iff.mp he
  obtain ⟨r₂, hr₂, he⟩ := Option.bind_eq_some_iff.mp he
  obtain ⟨r₃, hr₃, he⟩ := Option.bind_eq_some_iff.mp he
  obtain ⟨t, ht, he⟩ := Option.bind_eq_some_iff.mp he
  obtain ⟨r₄, hr₄, he⟩ := Option.map_eq_some_iff.mp he
  simp only [Prod.mk.injEq, List.filterMap_append, List.append_eq_nil_iff] at he
  obtain ⟨hc, hpre, ⟨⟨hv₁, hv₂⟩, hv₃⟩, hv, ha, hn, hl, hv₄⟩ := he
  have h₁ : Soc.Step t₀.2 (.posixIsrDeclare 1 0 (some .offloadSwIrqHandler) 0, r₁.2) r₁.1 := hr₁
  have h₂ : Soc.Step r₁.1 (.posixIrqEnable 1, r₂.2) r₂.1 := hr₂
  have h₃ : Soc.Step r₂.1 (.posixSwSetPendingIrq 1, r₃.2) r₃.1 := hr₃
  have h₄ : Soc.Step t.2 (.posixIrqDisable 1, r₄.2) r₄.1 := hr₄
  obtain ⟨ls₀, hrun₀, -⟩ := exists_run_of_trace (s := (boot : Offload Unit Bool)) ht₀ (by simp)
  obtain ⟨ls, hrun, hboards, hls⟩ := exists_run_of_trace
    (s := (⟨r₃.1, some true, 7⟩ : Offload Unit Bool)) ht (by simp)
  have haloof : ∀ l ∈ ls, Aloof l := by
    intro l hl
    obtain ⟨b, hb, e⟩ := hls l hl
    have hact := forall_of_trace ht (P := fun a => (∀ flags func param,
      a ≠ .posixIsrDeclare offloadSwIrq flags func param) ∧ ¬ a.Clears offloadSwIrq)
      (by simp [Act.Clears]) b hb
    refine ⟨⟨b, e, hact.1⟩, ?_⟩
    rw [e]
    rintro _ ⟨⟩
    exact ⟨fun h => List.eq_nil_iff_forall_not_mem.mp ha _ (List.mem_flatMap.mpr ⟨b, hb, h⟩), hact.2⟩
  have ho : IrqOffload true 7 (⟨t₀.2, none, 0⟩ : Offload Unit Bool) _ _ :=
    .mk ⟨_, [], .store true 7 hc, .nil _, by simp, rfl⟩ ⟨_, [], .board h₁, .nil _, by simp, rfl⟩
      ⟨_, [], .board h₂, .nil _, by simp, rfl⟩ (.board h₃) hrun haloof hn hl (.board h₄) rfl
  refine ⟨_, _, _, ho, ?_, irq_offload_once hrun₀ (by simp [hpre]; decide) ho⟩
  rw [boards] at hboards
  simp only [boards, List.filterMap_cons, List.filterMap_append, List.filterMap_nil,
    OffAct.onBoard_board, OffAct.onBoard_store, hboards, List.flatMap_cons, List.flatMap_append,
    List.flatMap_nil, hv]
  simp [vectored, hv₁, hv₂, hv₃, hv₄]

end Offload

end MeshNode
