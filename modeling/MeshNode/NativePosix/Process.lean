import MeshNode.NativePosix.BoardOptions
import MeshNode.NativePosix.Ticks

/-!
# The process

The board runs from its start with the options of the command line until the process ends.

* `Soc.start`: the board when `hwm_init` is done, with the end of time of the command line;
* `Still`, `still_swStep`, `still_hwmSwitch`: what leaves the end of time alone;
* `Obeys`, `obeys_step`: the end of time is obeyed so far;
* **`stop_at_obeyed`**: in every run from a command line on.
-/

namespace MeshNode

open Cmdline Interact

variable {F D G : Type}

namespace Soc

/-- The board when `hwm_init` is done, after the command line set the end of time. -/
def start (endOfTime : UInt64) : Soc F :=
  { boot with hw := { Hw.static with endOfTime := endOfTime.toNat }.hwmInit }

variable {m m' n : Soc F} {r : Out F} {ls : List (Act F × List (Obs F))}
  {l : Act F × List (Obs F)} {E : ℕ}

/-! ### What leaves the end of time alone -/

/-- Time does not pass, its end and the signal stay, and the process does not stop. -/
structure Still (m n : Soc F) : Prop where
  simuTime : n.hw.simuTime = m.hw.simuTime
  endOfTime : n.hw.endOfTime = m.hw.endOfTime
  signaledEnd : n.hw.signaledEnd = m.hw.signaledEnd
  cpu : n.cpu = .exited 0 → m.cpu = .exited 0

theorem Still.refl (m : Soc F) : Still m m := ⟨rfl, rfl, rfl, id⟩

theorem Still.trans (h : Still m n) (h' : Still n m') : Still m m' :=
  ⟨h'.simuTime.trans h.simuTime, h'.endOfTime.trans h.endOfTime,
    h'.signaledEnd.trans h.signaledEnd, fun hc => h.cpu (h'.cpu hc)⟩

/-- From a state that differs in nothing of this. -/
theorem Still.congr {m₀ : Soc F} (h : Still m₀ n) (hh : m₀.hw = m.hw) (hc : m₀.cpu = m.cpu) :
    Still m n :=
  ⟨h.simuTime.trans (by rw [hh]), h.endOfTime.trans (by rw [hh]), h.signaledEnd.trans (by rw [hh]),
    fun e => hc ▸ h.cpu e⟩

theorem still_posixIrqHandler (m : Soc F) : Still m m.posixIrqHandler.1 := by
  have h := (untimed_posixIrqHandler m).hw
  refine ⟨by rw [h], by rw [h], by rw [h], fun hc => ?_⟩
  rcases cpu_posixIrqHandler m with e | e
  · exact e.symm.trans hc
  · exact absurd (e.symm.trans hc) (by decide)

theorem still_loopHead (m : Soc F) : Still m m.loopHead.1 := by
  have h := (untimed_loopHead m).hw
  refine ⟨by rw [h], by rw [h], by rw [h], fun hc => ?_⟩
  rcases cpu_loopHead m with e | e
  · exact e.symm.trans hc
  · exact absurd (e.symm.trans hc) (by decide)

theorem still_posixIrqHandlerImFromSw (m : Soc F) : Still m m.posixIrqHandlerImFromSw.1 := by
  unfold posixIrqHandlerImFromSw
  split_ifs
  · exact ⟨rfl, rfl, rfl, by simp [posixPrintErrorAndExit]⟩
  · exact still_posixIrqHandler m
  · exact .refl m

theorem still_hwIrqCtrlRaiseImFromSw (m : Soc F) (irq : ℕ) :
    Still m (m.hwIrqCtrlRaiseImFromSw irq).1 := by
  unfold hwIrqCtrlRaiseImFromSw
  dsimp only
  split_ifs
  · exact (still_posixIrqHandlerImFromSw _).congr rfl rfl
  · exact ⟨rfl, rfl, rfl, id⟩

theorem still_hwIrqCtrlChangeLock (m : Soc F) (newLock : Bool) :
    Still m (m.hwIrqCtrlChangeLock newLock).1 := by
  unfold hwIrqCtrlChangeLock
  dsimp only
  split_ifs
  · exact (still_posixIrqHandlerImFromSw _).congr rfl rfl
  · exact ⟨rfl, rfl, rfl, id⟩

theorem still_hwIrqCtrlSetIrq (m : Soc F) (irq : ℕ) : Still m (m.hwIrqCtrlSetIrq irq) := by
  unfold hwIrqCtrlSetIrq awakeInOneDelta
  dsimp only
  split_ifs <;> exact ⟨rfl, rfl, rfl, id⟩

theorem still_hwmEventEnd (m : Soc F) : Still m m.hwmEventEnd := by
  unfold hwmEventEnd
  split_ifs <;> exact ⟨rfl, rfl, rfl, id⟩

theorem still_timerCall (m : Soc F) {c : TimerCall} (hc : ∀ t, c ≠ .hwmSetEndOfTime t) :
    Still m { m with hw := c.apply m.hw } := by
  cases c with
  | hwmSetEndOfTime t => exact absurd rfl (hc t)
  | hwtimerWakeInTime time =>
    simp only [TimerCall.apply, Hw.hwtimerWakeInTime]
    split_ifs <;> exact ⟨rfl, rfl, rfl, id⟩
  | hwCounterStart =>
    simp only [TimerCall.apply, Hw.hwCounterStart]
    split_ifs <;> exact ⟨rfl, rfl, rfl, id⟩
  | _ => exact ⟨rfl, rfl, rfl, id⟩

/-- **What software does**, but for setting the end of time. -/
theorem still_swStep {a : Act F} (h : m.swStep a = some r)
    (ha : ∀ t, a ≠ .hwmSetEndOfTime t) : Still m r.1 := by
  by_cases hcall : a.timerCall = none
  swap
  · rcases swStep_cases h with ⟨hn, -⟩ | ⟨hn, -⟩ | ⟨c, hcall, rfl⟩ | ⟨rfl, -⟩
    · exact absurd hn hcall
    · exact absurd hn hcall
    · refine still_timerCall m fun t e => ?_
      subst e
      cases a <;> simp [Act.timerCall] at hcall
      exact ha _ rfl
    · exact absurd rfl hcall
  cases a <;> simp only [swStep, Option.ite_none_right_eq_some, Option.some.injEq,
    reduceCtorEq] at h
  case posixIrqLock => exact h ▸ still_hwIrqCtrlChangeLock m true
  case posixIrqUnlock key => exact h ▸ still_hwIrqCtrlChangeLock m key
  case posixIrqEnable irq =>
    obtain ⟨-, rfl⟩ := h
    unfold hwIrqCtrlEnableIrq
    dsimp only
    split_ifs
    · exact (still_hwIrqCtrlRaiseImFromSw _ _).congr rfl rfl
    · exact ⟨rfl, rfl, rfl, id⟩
  case posixSwSetPendingIrq irq => exact h ▸ still_hwIrqCtrlRaiseImFromSw m irq
  case hwIrqCtrlSetIrq irq => exact h ▸ still_hwIrqCtrlSetIrq m irq
  case isrReturn ret =>
    unfold isrReturn at h
    cases hf : m.frames with
    | nil => simp [hf] at h
    | cons frame frames =>
      rw [hf] at h
      exact Option.some.inj h ▸ (still_loopHead _).congr rfl rfl
  case halt =>
    subst h
    unfold halt
    dsimp only
    have hh : Still m { m with cpu := .halted } := ⟨rfl, rfl, rfl, by simp⟩
    split_ifs
    · exact hh.trans (still_hwmEventEnd _)
    · exact hh
  case posixIrqDisable | posixSwClearPendingIrq | posixIrqPrioritySet | posixIsrDeclare =>
    exact h.2 ▸ ⟨rfl, rfl, rfl, id⟩
  case hwIrqCtrlClearAllEnabledIrqs | hwIrqCtrlClearAllIrqs => exact h ▸ ⟨rfl, rfl, rfl, id⟩
  all_goals simp [Act.timerCall] at hcall

/-- **The switch of an event.** -/
theorem still_hwmSwitch (m : Soc F) : Still m m.hwmSwitch.1 := by
  unfold hwmSwitch
  split
  · unfold hwtimerTimerReached hwtimerTickTimerReached hwtimerAwakeTimerReached hwIrqCtrlSetIrq
      awakeInOneDelta
    dsimp only
    split_ifs <;> exact ⟨rfl, rfl, rfl, id⟩
  · rcases m.hwIrqCtrlTimerTriggered_cases with ⟨-, e⟩ | ⟨-, e⟩ <;> rw [e]
    · exact ⟨rfl, rfl, rfl, id⟩
    · have h : Still m { m with hw := { m.hw with irqCtrlTimer := never },
                                ctrl := { m.ctrl with lockIgnore := false },
                                cpu := .running, inEvent := true } := ⟨rfl, rfl, rfl, by simp⟩
      exact h.trans (still_posixIrqHandler _)
  · unfold hwCounterTriggered hwIrqCtrlSetIrq awakeInOneDelta
    dsimp only
    split_ifs <;> exact ⟨rfl, rfl, rfl, id⟩
  · exact ⟨rfl, rfl, rfl, by simp [posixPrintErrorAndExit]⟩

/-! ### The end of time -/

/-- The end of time has been obeyed so far. -/
structure Obeys (E : ℕ) (m : Soc F) : Prop where
  endOfTime : m.hw.endOfTime = E
  alive : m.cpu = .running ∨ m.cpu = .halted → m.hw.simuTime ≤ E
  stopped : m.cpu = .exited 0 → E < m.hw.simuTime ∨ m.hw.signaledEnd = true

/-- What leaves the end of time alone, while the process runs. -/
theorem Obeys.still (h : Obeys E m) (hs : Still m n) (hc : m.cpu = .running ∨ m.cpu = .halted) :
    Obeys E n where
  endOfTime := hs.endOfTime.trans h.endOfTime
  alive _ := hs.simuTime.le.trans (h.alive hc)
  stopped he := by
    have := hs.cpu he
    rcases hc with hc | hc <;> simp [hc] at this

/-- Time passes up to the next timer, and the process stops where that is behind the end of time, or
where it was told to. -/
theorem Obeys.sleep (h : Obeys E m) (hc : m.cpu = .halted) :
    Obeys E m.hwmSleepUntilNextTimer.1 ∧
      m.hwmSleepUntilNextTimer.1.hw.signaledEnd = m.hw.signaledEnd := by
  obtain ⟨o, e, -⟩ := m.hwmSleepUntilNextTimer_eq
  rw [e]
  refine ⟨⟨h.endOfTime, fun ha => ?_, fun hs => ?_⟩, rfl⟩
  · dsimp only at ha ⊢
    split_ifs at ha with hstop
    · simp at ha
    · rw [not_or, not_lt] at hstop
      exact h.endOfTime ▸ hstop.2
  · dsimp only at hs ⊢
    split_ifs at hs with hstop
    · exact hstop.symm.imp_left fun hlt => h.endOfTime ▸ hlt
    · simp [hc] at hs

/-- **Every step** obeys the end of time, and only a signal tells the process to stop. -/
theorem obeys_step (h : Obeys E m) (hl : Step m l m') (ha : ∀ t, l.1 ≠ .hwmSetEndOfTime t) :
    Obeys E m' ∧ (l.1 ≠ .hwmSignalEnd → m'.hw.signaledEnd = m.hw.signaledEnd) := by
  obtain ⟨a, o⟩ := l
  rcases step_eq_some.mp hl with ⟨hc, hs⟩ | ⟨hc, rfl, hs⟩ | ⟨hc, rfl, hs⟩
  · have hstill := still_swStep hs ha
    exact ⟨h.still hstill (.inl hc), fun _ => hstill.signaledEnd⟩
  · obtain ⟨hsl, hsig⟩ := h.sleep hc
    rw [hwmOneEvent_eq] at hs
    split_ifs at hs with hh
    · obtain ⟨rfl, -⟩ := Prod.mk.inj hs
      have hstill := (still_hwmSwitch m.hwmSleepUntilNextTimer.1).trans (still_hwmEventEnd _)
      exact ⟨hsl.still hstill (.inr hh), fun _ => hstill.signaledEnd.trans hsig⟩
    · rw [hs] at hsl hsig
      exact ⟨hsl, fun _ => hsig⟩
  · obtain ⟨rfl, -⟩ := Prod.mk.inj hs
    exact ⟨⟨h.endOfTime, h.alive, fun _ => .inr rfl⟩, fun hn => absurd rfl hn⟩

theorem obeys_run (hr : Step.Run m ls m') (h : Obeys E m)
    (hls : ∀ l ∈ ls, ∀ t, l.1 ≠ .hwmSetEndOfTime t) : Obeys E m' ∧
      (m'.hw.signaledEnd = true → m.hw.signaledEnd = true ∨ ∃ l ∈ ls, l.1 = .hwmSignalEnd) := by
  induction hr with
  | nil => exact ⟨h, .inl⟩
  | @cons m n m' l ls hl _ ih =>
    obtain ⟨hla, hls⟩ := List.forall_mem_cons.mp hls
    obtain ⟨hn, hsig⟩ := obeys_step h hl hla
    obtain ⟨hm', hsig'⟩ := ih hn hls
    refine ⟨hm', fun he => ?_⟩
    rcases hsig' he with he | ⟨k, hk, he⟩
    · by_cases hlsig : l.1 = .hwmSignalEnd
      · exact .inr ⟨l, List.mem_cons_self, hlsig⟩
      · exact .inl ((hsig hlsig).symm.trans he)
    · exact .inr ⟨k, List.mem_cons_of_mem _ hk, he⟩

/-- The board at its start. -/
theorem obeys_start (endOfTime : UInt64) :
    Obeys endOfTime.toNat (start endOfTime : Soc F) where
  endOfTime := rfl
  alive _ := Nat.zero_le _
  stopped h := by simp [start, boot] at h

/-- **The simulation stops when the command line says.** As long as the process runs, its simulated
time is not later than the last `stop_at` in front of `testargs`; and when the hardware models ended
it, that time had passed, or a signal came. -/
theorem stop_at_obeyed {realloc : Realloc Callback} (hr : Reallocates realloc) {H : Host D G}
    {parts : List (List (ArgsStruct Callback))} (ht : timerOptions ∈ parts)
    (hf : ∀ part ∈ parts, part ≠ timerOptions → ∀ el ∈ part, Foreign el)
    (hs : Cmdline.Sound (wholeTable parts)) {isatty : Fin 2 → ℤ} {realhosttime : UInt64}
    {argv : List Str} {e : BoardEnv D G} {slowdown : Bool}
    (he : e.rest.1 = .static H.ops slowdown) {c : CmdLine D (BoardConfig D × G)}
    (h : posixInit H isatty realhosttime realloc parts argv e = .ok c)
    (hrun : Step.Run (start c.env.rest.1.endOfTime) ls m)
    (hls : ∀ l ∈ ls, ∀ t, l.1 ≠ .hwmSetEndOfTime t) :
    ∃ before, (∀ a ∈ before, ¬ Dashed testargs.val a.val) ∧
      (match c.testArgs with
        | none => argv.tail = before
        | some rest => ∃ ta, Dashed testargs.val ta.val ∧ argv.tail = before ++ ta :: rest) ∧
      (m.cpu = .running ∨ m.cpu = .halted →
        m.hw.simuTime ≤ (lastSet (setsEndOfTime H) before (.ofNat (2 ^ 64 - 1))).toNat) ∧
      (m.cpu = .exited 0 →
        (lastSet (setsEndOfTime H) before (.ofNat (2 ^ 64 - 1))).toNat < m.hw.simuTime ∨
          ∃ l ∈ ls, l.1 = .hwmSignalEnd) := by
  obtain ⟨before, hb, hrest, ⟨b, hconf, hc⟩, -⟩ := posixInit_before hr ht hf hs he h
  have hend : c.env.rest.1.endOfTime = lastSet (setsEndOfTime H) before (.ofNat (2 ^ 64 - 1)) := by
    rw [hc, (started b isatty realhosttime).2.2.1, (lastSet_of_foldl hconf).2.2.2.1]
  rw [hend] at hrun
  obtain ⟨hobeys, hsig⟩ := obeys_run hrun (obeys_start _) hls
  refine ⟨before, hb, hrest, hobeys.alive, fun hx => (hobeys.stopped hx).imp_right fun hx => ?_⟩
  exact (hsig hx).resolve_left (by simp [start, Hw.static, Hw.hwmInit, Hw.hwmFindNextTimer])

/-- The end after five seconds, with a tick every three. -/
theorem stop_at_obeyed_five : ∃ c ls m, posixInit host64 (fun _ => 0) 7 (padded _)
      [timerOptions, [countOption]] fiveSeconds startEnv = .ok c ∧
    Step.Run (start c.env.rest.1.endOfTime : Soc Unit) ls m ∧ m.cpu = .exited 0 ∧
    (5000000 < m.hw.simuTime ∨ ∃ l ∈ ls, l.1 = .hwmSignalEnd) := by
  have hok : (posixInit host64 (fun _ => 0) 7 (padded _) [timerOptions, [countOption]]
      fiveSeconds startEnv).toOption.map (fun c => (c.testArgs, c.env.rest.1.endOfTime)) =
        some (none, 5000000) := by decide +kernel
  cases h : posixInit host64 (fun _ => 0) 7 (padded _) [timerOptions, [countOption]]
      fiveSeconds startEnv with
  | error x => simp [h, Except.toOption] at hok
  | ok c =>
    rw [h] at hok
    obtain ⟨hnone, hend⟩ := Prod.mk.inj (Option.some.inj hok)
    obtain ⟨t, htr, hx⟩ := Option.map_eq_some_iff.mp (show ((start 5000000 : Soc Unit).trace
      [.hwtimerEnable 3000000, .halt, .hwmOneEvent, .hwmOneEvent, .halt, .hwmOneEvent]).map
        (fun t => t.2.cpu) = some (.exited 0) by rfl)
    have hrun : Step.Run (start c.env.rest.1.endOfTime) t.1 t.2 := hend ▸ run_of_trace htr
    obtain ⟨before, -, hrest, -, hstop⟩ := stop_at_obeyed reallocates_padded (by simp)
      (by simp [Foreign, countOption]) sound_wholeTable rfl h hrun
      (forall_of_trace htr (P := fun a => ∀ t, a ≠ .hwmSetEndOfTime t) (by simp))
    rw [hnone] at hrest
    subst hrest
    refine ⟨c, t.1, t.2, rfl, hrun, hx, (hstop hx).imp_left fun hlt => ?_⟩
    rw [lastSet_fiveSeconds] at hlt
    exact hlt

end Soc

end MeshNode
