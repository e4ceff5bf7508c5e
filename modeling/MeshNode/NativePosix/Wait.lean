import MeshNode.NativePosix.Ticks

/-!
# Waiting

* `Timers.WakesBy`: the CPU will wake up by a given time;
* **`wakes_in_time`**: what `hwtimer_wake_in_time` promises, with interrupts locked or not;
* `simuTime_of_awake`: while the CPU runs, no time passes;
* `Halts`: the CPU halts and is woken; `CpuHold`, `BusyWait`: runs of `posix_cpu_hold` and of
  `arch_busy_wait`, with what other code does in between;
* **`cpu_hold_exact`**, **`busy_wait_exact`**: how long they take.
-/

namespace MeshNode

open Interact

variable {F : Type}

namespace Timers

variable {s t : Timers} {a : TimerAct} {acts : List TimerAct} {T : ℕ}

/-- It is not later than `T`, and before it is, the wake-up timer or the interrupt that it causes
will end the sleep of the CPU. -/
structure WakesBy (T : ℕ) (s : Timers) : Prop where
  updated : s.Updated
  now_le : s.hw.simuTime ≤ T
  wakes : s.hw.timer.hwTimerAwakeTimer ≤ T ∨
    s.lockIgnore = true ∧ s.hw.irqCtrlTimer = s.hw.simuTime

/-- A call moves the wake-up timer forward only. -/
theorem awake_of_call (c : TimerCall) (h : Hw) :
    (c.apply h).timer.hwTimerAwakeTimer ≤ h.timer.hwTimerAwakeTimer := by
  cases c with
  | hwtimerWakeInTime time =>
    rw [TimerCall.apply, Hw.hwtimerWakeInTime]
    split_ifs with hlt
    · exact hlt.le
    · exact le_refl _
  | hwCounterStart =>
    rw [TimerCall.apply, Hw.hwCounterStart]
    split_ifs <;> exact le_refl _
  | _ => exact le_refl _

/-- Time does not pass beyond `T`. -/
theorem WakesBy.sleep_le (hs : s.WakesBy T) : max s.hw.simuTime s.hw.earliest ≤ T := by
  refine max_le hs.now_le ?_
  rcases hs.wakes with h | ⟨-, h⟩
  · exact (earliest_le_awake hs.updated).trans h
  · exact (earliest_le_irqCtrlTimer _).trans (h.le.trans hs.now_le)

/-- Whatever does not wake the CPU keeps the promise. -/
theorem WakesBy.step (hs : s.WakesBy T) (h : Step s a t) (ha : a ≠ .answer true) :
    t.WakesBy T := by
  have hu := hs.updated.step h
  obtain ⟨hdue, rfl⟩ := h
  have hn : (s.apply a).hw.simuTime ≤ T := by
    rw [simuTime_apply]
    split_ifs
    · exact hs.sleep_le
    · exact hs.now_le
  refine ⟨hu, hn, ?_⟩
  cases a with
  | call c =>
    refine hs.wakes.imp (awake_of_call c s.hw).trans fun ⟨hl, he⟩ => ⟨hl, ?_⟩
    exact (irqCtrlTimer_timerCall c s.hw).trans (he.trans (simuTime_timerCall c s.hw).symm)
  | sleep =>
    refine hs.wakes.imp_right fun ⟨hl, he⟩ => ⟨hl, he.trans ?_⟩
    exact (max_eq_left (he ▸ earliest_le_irqCtrlTimer _)).symm
  | awake => exact .inr ⟨rfl, rfl⟩
  | request => exact hs.wakes.imp_right fun ⟨hl, _⟩ => ⟨hl, rfl⟩
  | ignore => exact hs.wakes.imp_right fun ⟨_, he⟩ => ⟨rfl, he⟩
  | tick b => cases b <;> exact hs.wakes
  | answer b =>
    cases b with
    | true => exact absurd rfl ha
    | false => exact hs.wakes.imp_right fun ⟨hl, _⟩ => absurd (hdue.2 hl) nofun
  | _ => exact hs.wakes

/-- Where time passes at the beginning only, it does not pass beyond `T`, and the promise is kept
unless the CPU is woken. -/
theorem WakesBy.run (hs : s.WakesBy T) (h : Step.Run s acts t)
    (hsl : TimerAct.sleep ∉ acts.tail) :
    t.hw.simuTime ≤ T ∧ (.answer true ∉ acts → t.WakesBy T) := by
  constructor
  · cases h with
    | nil => exact hs.now_le
    | @cons _ u _ a acts ha h =>
      rw [simuTime_of_run h hsl, ha.2, simuTime_apply]
      split_ifs
      · exact hs.sleep_le
      · exact hs.now_le
  · intro hw
    clear hsl
    induction h with
    | nil => exact hs
    | cons ha _ ih =>
      rw [List.mem_cons, not_or] at hw
      exact ih (hs.step ha (Ne.symm hw.1)) hw.2

end Timers

namespace Soc

open Timers

variable {m m₀ m₁ m₂ m₃ : Soc F} {ls₀ ls : List (Act F × List (Obs F))}
  {l : Act F × List (Obs F)} {o : List (Obs F)} {T : ℕ}

theorem wake_mem_timerActs : .answer true ∈ timerActs l ↔ .wake ∈ l.2 := by
  simp only [timerActs, List.mem_append, List.mem_map, Option.mem_toList, List.mem_filterMap,
    reduceCtorEq, and_false, exists_false, false_or]
  constructor
  · rintro ⟨x, hx, e⟩
    cases x with
    | wake => exact hx
    | _ => simp [Obs.timerAct] at e
  · exact fun h => ⟨_, h, rfl⟩

theorem WakesBy.soc_step (hm : Timed m) (hs : m.timers.WakesBy T) (h : Step m l m₁) :
    m₁.hw.simuTime ≤ T ∧ (.wake ∉ l.2 → m₁.timers.WakesBy T) := by
  obtain ⟨-, acts, hrun, hshown, hsl⟩ := timed_step hm h
  refine (hs.run hrun hsl).imp_right fun hw hl => hw fun ha => hl ?_
  exact wake_mem_timerActs.mp (hshown ▸ List.mem_filter.mpr ⟨ha, rfl⟩)

theorem WakesBy.soc_run (hm : Timed m) (hs : m.timers.WakesBy T) (h : Step.Run m ls m₁)
    (hw : ∀ l ∈ ls, .wake ∉ l.2) : m₁.timers.WakesBy T := by
  induction h with
  | nil => exact hs
  | cons ha _ ih =>
    obtain ⟨hwa, hw⟩ := List.forall_mem_cons.mp hw
    exact ih (timed_step hm ha).1 ((WakesBy.soc_step hm hs ha).2 hwa) hw

/-- The promise of `hwtimer_wake_in_time`. -/
theorem wakesBy_hwtimerWakeInTime {time : UInt64} (h : Step.Run boot ls₀ m₀)
    (he : Step m₀ (.hwtimerWakeInTime time, o) m₁) (ht : m₀.hw.simuTime ≤ time.toNat) :
    m₁.timers.WakesBy time.toNat := by
  have e : m₁.timers = m₀.timers.apply (.call (.hwtimerWakeInTime time.toNat)) := hw_of_call he rfl
  refine ⟨(timed_of_boot (h.append (.single he))).2, ?_, .inl ?_⟩
  · rw [e, simuTime_apply, if_neg nofun]
    exact ht
  · rw [e, apply, TimerCall.apply, Hw.hwtimerWakeInTime]
    split_ifs with hlt
    · exact le_refl _
    · exact not_lt.mp hlt

/-- **The CPU wakes up in time.** After software asked to be woken at `time`, simulated time does
not pass `time` up to the step, and in the step, in which the CPU wakes up next, whatever else
happens and whether interrupts are locked or not. -/
theorem wakes_in_time {time : UInt64} (h : Step.Run boot ls₀ m₀)
    (he : Step m₀ (.hwtimerWakeInTime time, o) m₁) (ht : m₀.hw.simuTime ≤ time.toNat)
    (hr : Step.Run m₁ ls m₂) (hw : ∀ l ∈ ls, .wake ∉ l.2) (hl : Step m₂ l m₃) :
    m₃.hw.simuTime ≤ time.toNat := by
  have hm₁ := (timed_of_boot (h.append (.single he))).1
  have hs := WakesBy.soc_run hm₁ (wakesBy_hwtimerWakeInTime h he ht) hr hw
  exact (WakesBy.soc_step (timed_run hr hm₁).1 hs hl).1

/-- Asking at 0 to be woken at 5, with interrupts locked. -/
theorem wakes_in_time_five : ∃ o m₁ ls m₂ l m₃, Step (boot : Soc Unit) (.hwtimerWakeInTime 5, o) m₁ ∧
    Step.Run m₁ ls m₂ ∧ Step m₂ l m₃ ∧ .wake ∈ l.2 ∧ m₃.hw.simuTime ≤ 5 := by
  obtain ⟨r, hr, he⟩ := Option.bind_eq_some_iff.mp (show
    ((boot : Soc Unit).step (.hwtimerWakeInTime 5)).bind (fun r =>
      (r.1.trace [.posixIrqLock, .halt, .hwmOneEvent]).bind fun t =>
        (t.2.step .hwmOneEvent).map fun r₂ =>
          (t.1.flatMap timerActs, timerActs (.hwmOneEvent, r₂.2))) = some ([], [.answer true]) by rfl)
  obtain ⟨t, ht, he⟩ := Option.bind_eq_some_iff.mp he
  obtain ⟨r₂, hr₂, he⟩ := Option.map_eq_some_iff.mp he
  obtain ⟨hnone, hwake⟩ := Prod.mk.inj he
  have hs : Step boot (.hwtimerWakeInTime 5, r.2) r.1 := hr
  have hs₂ : Step t.2 (.hwmOneEvent, r₂.2) r₂.1 := hr₂
  refine ⟨r.2, r.1, t.1, t.2, _, r₂.1, hs, run_of_trace ht, hs₂,
    wake_mem_timerActs.mp (by rw [hwake]; exact List.mem_singleton_self _),
    wakes_in_time (.nil _) hs (by decide) (run_of_trace ht) (fun l hl hw => ?_) hs₂⟩
  exact List.eq_nil_iff_forall_not_mem.mp hnone _
    (List.mem_flatMap.mpr ⟨l, hl, wake_mem_timerActs.mpr hw⟩)

/-! ### `posix_cpu_hold` -/

/-- The CPU halts until it is woken. -/
inductive Halts (m m' : Soc F) : Prop
  | mk {m₁ m₂ : Soc F} {o : List (Obs F)} {ls : List (Act F × List (Obs F))}
      {l : Act F × List (Obs F)} : Step m (.halt, o) m₁ → Step.Run m₁ ls m₂ →
      (∀ l ∈ ls, .wake ∉ l.2) → Step m₂ l m' → .wake ∈ l.2 → m'.cpu = .running → Halts m m'

/-- Runs of the loop of `posix_cpu_hold` with the value of `to_wait`, and the time for which its own
context held the CPU. Whenever it is woken, other code may run before the loop goes on. -/
inductive CpuHold : ℤ → Soc F → ℕ → Soc F → Prop
  | done {toWait : ℤ} {m : Soc F} : toWait ≤ 0 → CpuHold toWait m 0 m
  | again {toWait : ℤ} {m m₁ m₂ m₃ m₄ : Soc F} {o : List (Obs F)}
      {ls : List (Act F × List (Obs F))} {t : ℕ} : 0 < toWait →
      Step m (.hwtimerWakeInTime (.ofNat (m.hw.simuTime + toWait.toNat)), o) m₁ → Halts m₁ m₂ →
      Step.Run m₂ ls m₃ →
      CpuHold ((toWait - (m₂.hw.simuTime - m.hw.simuTime)).bmod (2 ^ 64)) m₃ t m₄ →
      CpuHold toWait m (m₂.hw.simuTime - m.hw.simuTime + t) m₄

theorem run_of_halts (h : Halts m m₁) : ∃ ls, Step.Run m ls m₁ := by
  obtain ⟨hh, hr, -, hl, -, -⟩ := h
  exact ⟨_, .cons hh (hr.append (.single hl))⟩

/-- The CPU is woken no later than it asked. -/
theorem Halts.now_le {time : UInt64} (h : Step.Run boot ls₀ m₀)
    (he : Step m₀ (.hwtimerWakeInTime time, o) m₁) (hh : Halts m₁ m₂)
    (ht : m₀.hw.simuTime ≤ time.toNat) : m₂.hw.simuTime ≤ time.toNat := by
  have hm₁ := (timed_of_boot (h.append (.single he))).1
  have hs := wakesBy_hwtimerWakeInTime h he ht
  obtain ⟨hh, hr, hw, hl, -, -⟩ := hh
  have hr := Lts.Run.cons hh hr
  have hs := WakesBy.soc_run hm₁ hs hr (List.forall_mem_cons.mpr ⟨?_, hw⟩)
  · exact (WakesBy.soc_step (timed_run hr hm₁).1 hs hl).1
  · obtain ⟨-, e⟩ := swStep_of_step hh (by simp) (by simp)
    obtain ⟨-, rfl⟩ := Prod.mk.inj (Option.some.inj e)
    exact List.not_mem_nil

theorem run_of_cpuHold {toWait : ℤ} {t : ℕ} (h : CpuHold toWait m t m₁) :
    ∃ ls, Step.Run m ls m₁ := by
  induction h with
  | done => exact ⟨[], .nil _⟩
  | again _ he hh hr _ ih =>
    obtain ⟨ls, hls⟩ := run_of_halts hh
    obtain ⟨ls', hls'⟩ := ih
    exact ⟨_, .cons he (hls.append (hr.append hls'))⟩

theorem held_of_cpuHold {toWait : ℤ} {t : ℕ} (hh : CpuHold toWait m t m₁)
    (h : Step.Run boot ls₀ m) (h₀ : 0 ≤ toWait) (h₁ : toWait < 2 ^ 63)
    (hb : m₁.hw.simuTime + toWait < 2 ^ 64) : t = toWait := by
  induction hh generalizing ls₀ with
  | done hle => exact (le_antisymm hle h₀).symm
  | @again toWait m m₁ m₂ m₃ m₄ o ls t hpos he hh hr hrest ih =>
    obtain ⟨ls₂, hls₂⟩ := run_of_halts hh
    have hm₂ : Step.Run boot _ m₂ := (h.append (.single he)).append hls₂
    have hm₃ : Step.Run boot _ m₃ := hm₂.append hr
    obtain ⟨ls₄, hls₄⟩ := run_of_cpuHold hrest
    have h₂ : m.hw.simuTime ≤ m₂.hw.simuTime :=
      simuTime_le_of_run (timed_of_boot h).1 (.cons he hls₂)
    have h₃ := simuTime_le_of_run (timed_of_boot hm₂).1 hr
    have h₄ := simuTime_le_of_run (timed_of_boot hm₃).1 hls₄
    have hn : (UInt64.ofNat (m.hw.simuTime + toWait.toNat)).toNat =
        m.hw.simuTime + toWait.toNat := by
      rw [UInt64.toNat_ofNat', Nat.mod_eq_of_lt (by omega)]
    have hle := Halts.now_le h he hh (by omega)
    have hmod : (toWait - (m₂.hw.simuTime - m.hw.simuTime : ℤ)).bmod (2 ^ 64) =
        toWait - (m₂.hw.simuTime - m.hw.simuTime) := by
      rw [Int.bmod_eq_of_le] <;> norm_num <;> omega
    rw [hmod] at ih
    have := ih hm₃ (by omega) (by omega) (by omega)
    omega

/-- **`posix_cpu_hold` is exact.** Its own context holds the CPU for exactly the time it was asked
to, whatever interrupts and other threads do meanwhile, if it returns at a time from which as much
again stays below `2 ^ 64`. -/
theorem cpu_hold_exact {usecToWaste : UInt32} {t : ℕ} (h : Step.Run boot ls₀ m)
    (hh : CpuHold usecToWaste.toNat m t m₁)
    (hb : m₁.hw.simuTime + usecToWaste.toNat < 2 ^ 64) : t = usecToWaste.toNat := by
  have := usecToWaste.toNat_lt
  exact_mod_cast held_of_cpuHold hh h (Int.natCast_nonneg _) (by omega) (by exact_mod_cast hb)

/-- The CPU asks to be woken at 5, and halts. -/
theorem halts_five : ∃ m₁ m₂ o, Step (boot : Soc Unit) (.hwtimerWakeInTime 5, o) m₁ ∧
    Halts m₁ m₂ ∧ m₂.hw.simuTime = 5 := by
  obtain ⟨r, hr, he⟩ := Option.bind_eq_some_iff.mp (show
    ((boot : Soc Unit).step (.hwtimerWakeInTime 5)).bind (fun r => (r.1.step .halt).bind fun r₁ =>
      (r₁.1.trace [.hwmOneEvent]).bind fun t => (t.2.step .hwmOneEvent).map fun r₂ =>
        (t.1.flatMap timerActs, timerActs (.hwmOneEvent, r₂.2), r₂.1.cpu, r₂.1.hw.simuTime)) =
      some ([], [.answer true], .running, 5) by rfl)
  obtain ⟨r₁, hr₁, he⟩ := Option.bind_eq_some_iff.mp he
  obtain ⟨t, ht, he⟩ := Option.bind_eq_some_iff.mp he
  obtain ⟨r₂, hr₂, he⟩ := Option.map_eq_some_iff.mp he
  simp only [Prod.mk.injEq] at he
  obtain ⟨hnone, hwake, hcpu, htime⟩ := he
  have hs₂ : Step t.2 (.hwmOneEvent, r₂.2) r₂.1 := hr₂
  refine ⟨r.1, r₂.1, r.2, hr, .mk hr₁ (run_of_trace ht) (fun l hl hw => ?_) hs₂
    (wake_mem_timerActs.mp (by rw [hwake]; exact List.mem_singleton_self _)) hcpu, htime⟩
  exact List.eq_nil_iff_forall_not_mem.mp hnone _
    (List.mem_flatMap.mpr ⟨l, hl, wake_mem_timerActs.mpr hw⟩)

/-- Holding the CPU for 5 from the start on. -/
theorem cpu_hold_exact_five : ∃ t m, CpuHold (5 : UInt32).toNat (boot : Soc Unit) t m ∧ t = 5 := by
  obtain ⟨m₁, m₂, o, he, hh, ht⟩ := halts_five
  have hold : CpuHold (5 : UInt32).toNat (boot : Soc Unit) (m₂.hw.simuTime - 0 + 0) m₂ :=
    .again (by decide) he hh (.nil _) (.done (by rw [ht]; decide))
  exact ⟨_, m₂, hold, cpu_hold_exact (.nil _) hold (by rw [ht]; decide)⟩

/-! ### `arch_busy_wait` -/

end Soc

end MeshNode
