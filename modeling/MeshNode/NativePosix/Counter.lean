import MeshNode.NativePosix.Ticks

/-!
# The counter

* `counted_of_run`: the steps of the counter and its value;
* **`counter_counts`**: the value is the number of steps, and the interrupt comes at the target;
* `counterView`, **`counter_on_schedule`**: a step comes with each period.
-/

namespace MeshNode

open Interact

variable {F : Type}

/-- A step of the counter, with whether it comes with an interrupt. -/
def TimerAct.counted : TimerAct → Option Bool
  | .count b => some b
  | _ => none

/-- The steps of the counter in a run, with whether they come with an interrupt. -/
def counts (ls : List (Act F × List (Obs F))) : List Bool :=
  (ls.flatMap timerActs).filterMap TimerAct.counted

namespace Timers

/-- Calls of other timers leave the counter alone. -/
theorem counter_of_call {c : TimerCall} (h : Hw) (hc : c ≠ .hwCounterStart)
    (hc' : c ≠ .hwCounterStop) (hp : ∀ p, c ≠ .hwCounterSetPeriod p) :
    (c.apply h).counter = h.counter ∨
      ∃ target, c = .hwCounterSetTarget target ∧
        (c.apply h).counter = { h.counter with counterTarget := target } := by
  cases c with
  | hwCounterStart => exact absurd rfl hc
  | hwCounterStop => exact absurd rfl hc'
  | hwCounterSetPeriod p => exact absurd rfl (hp p)
  | hwCounterSetTarget target => exact .inr ⟨target, rfl, rfl⟩
  | hwtimerWakeInTime time =>
    rw [TimerCall.apply, Hw.hwtimerWakeInTime]
    split_ifs <;> exact .inl rfl
  | _ => exact .inl rfl

theorem count_step {s t : Timers} {a : TimerAct}
    (ho : s.hw.counter.counterRunning = true ∧ s.hw.simuTime ≤ s.hw.counter.hwCounterTimer)
    (ha : a ≠ .call .hwCounterStop ∧ ∀ p, a ≠ .call (.hwCounterSetPeriod p))
    (hb : s.hw.simuTime + s.hw.counter.counterPeriod < 2 ^ 64) (h : Step s a t) :
    (t.hw.counter.counterRunning = true ∧ t.hw.simuTime ≤ t.hw.counter.hwCounterTimer) ∧
      Periodic.Step.Run
        ⟨s.hw.simuTime, s.hw.counter.hwCounterTimer, s.hw.counter.counterPeriod⟩
        (firing TimerAct.counted a)
        ⟨t.hw.simuTime, t.hw.counter.hwCounterTimer, t.hw.counter.counterPeriod⟩ := by
  have key : t.hw.counter.counterRunning = true ∧ Periodic.Step.Run
      ⟨s.hw.simuTime, s.hw.counter.hwCounterTimer, s.hw.counter.counterPeriod⟩
      (firing TimerAct.counted a)
      ⟨t.hw.simuTime, t.hw.counter.hwCounterTimer, t.hw.counter.counterPeriod⟩ := by
    obtain ⟨hr, hd⟩ := ho
    obtain ⟨hdue, rfl⟩ := h
    cases a with
    | call c =>
      rw [simuTime_apply, if_neg nofun]
      by_cases hs : c = .hwCounterStart
      · have e : c.apply s.hw = s.hw := by
          rw [hs, TimerCall.apply, Hw.hwCounterStart, if_pos hr]
        simp only [apply, e]
        exact ⟨hr, .nil _⟩
      · rcases counter_of_call s.hw hs (fun e => ha.1 (e ▸ rfl))
          (fun p e => ha.2 p (e ▸ rfl)) with e | ⟨target, -, e⟩ <;> simp only [apply, e]
        · exact ⟨hr, .nil _⟩
        · exact ⟨hr, .nil _⟩
    | sleep =>
      exact ⟨hr, .single (.pass (le_max_left _ _)
        (max_le hd ((min_le_right _ _).trans (min_le_right _ _))))⟩
    | count b =>
      have he : s.hw.simuTime = s.hw.counter.hwCounterTimer := le_antisymm hd hdue.2.1
      have e : (s.apply (.count b)).hw.counter.hwCounterTimer =
          s.hw.counter.hwCounterTimer + s.hw.counter.counterPeriod := he ▸ add64_eq hb
      rw [e]
      exact ⟨hr, .single (.fire he)⟩
    | idle => exact absurd hr (by simp [show s.hw.counter.counterRunning = false from hdue])
    | _ => exact ⟨hr, .nil _⟩
  exact ⟨⟨key.1, Periodic.now_le_due key.2 ho.2⟩, key.2⟩

/-- The running counter as a periodic timer. -/
def counterView : PeriodicView where
  view s := ⟨s.hw.simuTime, s.hw.counter.hwCounterTimer, s.hw.counter.counterPeriod⟩
  fired := TimerAct.counted
  Keeps a := a ≠ .call .hwCounterStop ∧ ∀ p, a ≠ .call (.hwCounterSetPeriod p)
  Ok s := s.hw.counter.counterRunning = true ∧ s.hw.simuTime ≤ s.hw.counter.hwCounterTimer
  now _ := rfl
  hidden a h := by cases a <;> simp_all [TimerAct.isShown, TimerAct.counted]
  step := count_step

end Timers

namespace Timers

/-- A call leaves the value alone, and the target unless it sets it. -/
theorem value_of_call (c : TimerCall) (h : Hw) :
    (c.apply h).counter.counterValue = h.counter.counterValue ∧
      ((∀ target, c ≠ .hwCounterSetTarget target) →
        (c.apply h).counter.counterTarget = h.counter.counterTarget) := by
  cases c with
  | hwtimerWakeInTime time =>
    rw [TimerCall.apply, Hw.hwtimerWakeInTime]
    split_ifs <;> exact ⟨rfl, fun _ => rfl⟩
  | hwCounterStart =>
    rw [TimerCall.apply, Hw.hwCounterStart]
    split_ifs <;> exact ⟨rfl, fun _ => rfl⟩
  | hwCounterSetTarget target => exact ⟨rfl, fun h => absurd rfl (h target)⟩
  | _ => exact ⟨rfl, fun _ => rfl⟩

theorem value_of_run {s t : Timers} {acts : List TimerAct} (h : Step.Run s acts t)
    (hv : s.hw.counter.counterValue < 2 ^ 64) : t.hw.counter.counterValue =
      (s.hw.counter.counterValue + (acts.filterMap TimerAct.counted).length) % 2 ^ 64 := by
  induction h with
  | nil => exact (Nat.mod_eq_of_lt hv).symm
  | @cons s u t a acts ha _ ih =>
    obtain ⟨-, rfl⟩ := ha
    cases a with
    | count b =>
      rw [ih (Nat.mod_lt _ (by norm_num)), List.filterMap_cons_some
        (show TimerAct.counted (.count b) = some b from rfl), List.length_cons]
      simp only [apply, add64, Nat.mod_add_mod]
      rw [add_assoc, add_comm 1]
    | call c =>
      have e := (value_of_call c s.hw).1
      rw [ih (by rw [apply, e]; exact hv), apply, e]
      rfl
    | _ => exact ih hv

theorem counted_of_run {s t : Timers} {acts : List TimerAct} (h : Step.Run s acts t)
    (hk : ∀ a ∈ acts, ∀ target, a ≠ .call (.hwCounterSetTarget target)) :
    acts.filterMap TimerAct.counted =
      (List.range (acts.filterMap TimerAct.counted).length).map fun i =>
        decide ((s.hw.counter.counterValue + i + 1) % 2 ^ 64 = s.hw.counter.counterTarget) := by
  induction h with
  | nil => rfl
  | @cons s u t a acts ha _ ih =>
    obtain ⟨hka, hk⟩ := List.forall_mem_cons.mp hk
    have ih := ih hk
    obtain ⟨hdue, rfl⟩ := ha
    cases a with
    | count b =>
      rw [List.filterMap_cons_some (show TimerAct.counted (.count b) = some b from rfl),
        List.length_cons, List.range_succ_eq_map, List.map_cons, List.map_map]
      refine congrArg₂ _ ?_ (ih.trans (List.map_congr_left fun i _ => ?_))
      · rw [Bool.eq_iff_iff, decide_eq_true_eq]
        exact hdue.2.2
      · rw [Function.comp_apply, decide_eq_decide]
        simp only [apply, add64, Nat.add_assoc, Nat.mod_add_mod, Nat.succ_eq_add_one]
        rw [← Nat.add_assoc 1, Nat.add_comm 1]
    | call c =>
      obtain ⟨hv, ht⟩ := value_of_call c s.hw
      have ht := ht fun target e => hka target (e ▸ rfl)
      simp only [apply, hv, ht] at ih
      exact ih
    | _ => exact ih

end Timers

namespace Soc

open Timers

variable {m₀ m₁ m₂ : Soc F} {ls₀ ls : List (Act F × List (Obs F))} {o : List (Obs F)}

/-- A step of the counter raises its interrupt where the value reaches the target, or none. -/
theorem premask_of_count {l : Act F × List (Obs F)} (h : Step m₀ l m₁) {b : Bool}
    (hb : b ∈ counts [l]) (i : ℕ) : i ∈ Lines.lines m₁.ctrl.irqPremask ↔
      i ∈ Lines.lines m₀.ctrl.irqPremask ∨ b = true ∧ i = counterEventIrq := by
  obtain ⟨a, ha, hab⟩ := List.mem_filterMap.mp hb
  rw [List.flatMap_singleton] at ha
  refine premask_of_fired h ha ?_ i
  cases a <;> simp [TimerAct.counted] at hab
  rw [hab]
  rfl

/-- **The counter counts.** In every run its value is the number of its steps, however often it is
stopped and started again. As long as software does not set the target again, a step comes with an
interrupt exactly when the value reaches the target: such a step leaves its line raised. -/
theorem counter_counts (h : Step.Run boot ls₀ m₁) (hr : Step.Run m₁ ls m₂)
    (hk : ∀ l ∈ ls, ∀ q, l.1 ≠ .hwCounterSetTarget q) :
    m₂.hw.counter.counterValue = (counts (ls₀ ++ ls)).length % 2 ^ 64 ∧
    counts ls = ((List.range (counts ls).length).map fun i =>
      decide ((m₁.hw.counter.counterValue + i + 1) % 2 ^ 64 = m₁.hw.counter.counterTarget)) ∧
    ∀ l ∈ ls.getLast?, true ∈ counts [l] →
      counterEventIrq ∈ Lines.lines m₂.ctrl.irqPremask := by
  have hg : ∀ a : TimerAct, a.isShown = false → a.counted = none :=
    fun a ha => (counterView.hidden a ha).1
  refine ⟨?_, ?_, fun l hl hc => ?_⟩
  · obtain ⟨-, actss, hrun, hq⟩ := timed_run (h.append hr) timed_boot
    have h₀ : (boot : Soc F).timers.hw.counter.counterValue = 0 := rfl
    have := value_of_run hrun (h₀ ▸ Nat.two_pow_pos 64)
    rwa [filterMap_of_times hg hq, h₀, Nat.zero_add] at this
  · obtain ⟨-, actss, hrun, hq⟩ := timed_run hr (timed_of_boot h).1
    have := counted_of_run hrun ?_
    · rwa [filterMap_of_times hg hq] at this
    · rintro a ha target rfl
      refine not_call (fun l hl hc => ?_) _ (shown_flatten hq ▸ List.mem_filter.mpr ⟨ha, rfl⟩) rfl
      obtain ⟨q, hq⟩ := timerCall_hwCounterSetTarget hc
      exact hk l hl q hq
  · obtain ⟨pre, rfl⟩ := List.getLast?_eq_some_iff.mp hl
    obtain ⟨n, -, hlast⟩ := Lts.run_append_iff.mp hr
    exact (premask_of_count (Lts.run_singleton_iff.mp hlast) hc _).mpr (.inr ⟨rfl, rfl⟩)

/-- **The counter is on schedule.** From the moment on at which software starts the stopped counter,
as long as it neither stops it nor changes the period and the end of the current period is before
`2 ^ 64`, the `k`-th step comes exactly `k` periods later. -/
theorem counter_on_schedule (h : Step.Run boot ls₀ m₀) (he : Step m₀ (.hwCounterStart, o) m₁)
    (hs : m₀.hw.counter.counterRunning = false) (hr : Step.Run m₁ ls m₂)
    (hk : ∀ l ∈ ls, l.1 ≠ .hwCounterStop ∧ ∀ q, l.1 ≠ .hwCounterSetPeriod q)
    (hb : m₂.hw.simuTime + m₀.hw.counter.counterPeriod < 2 ^ 64) :
    m₀.hw.simuTime + (counts ls).length * m₀.hw.counter.counterPeriod ≤ m₂.hw.simuTime ∧
    m₂.hw.simuTime ≤ m₀.hw.simuTime + ((counts ls).length + 1) * m₀.hw.counter.counterPeriod ∧
    ∀ l ∈ ls.getLast?, counts [l] ≠ [] →
      m₂.hw.simuTime = m₀.hw.simuTime + (counts ls).length * m₀.hw.counter.counterPeriod := by
  have hm₁ := (timed_of_boot (h.append (.single he))).1
  have hle := simuTime_le_of_run hm₁ hr
  have ht : m₁.timers = m₀.timers.apply (.call .hwCounterStart) := hw_of_call he rfl
  have hle₀ : m₀.hw.simuTime ≤ m₁.hw.simuTime :=
    simuTime_le_of_run (timed_of_boot h).1 (.single he)
  have ht : m₁.hw.simuTime = m₀.hw.simuTime ∧
      m₁.hw.counter = { m₀.hw.counter with
        counterRunning := true,
        hwCounterTimer := m₀.hw.simuTime + m₀.hw.counter.counterPeriod } := by
    have e := congrArg Timers.hw ht
    simp only [timers, apply, TimerCall.apply, Hw.hwCounterStart, hs, Bool.false_eq_true,
      if_false] at e
    rw [e, ← add64_eq (show m₀.hw.simuTime + m₀.hw.counter.counterPeriod < 2 ^ 64 by omega)]
    exact ⟨rfl, rfl⟩
  have hv : counterView.view m₁.timers = ⟨m₀.hw.simuTime,
      m₀.hw.simuTime + m₀.hw.counter.counterPeriod, m₀.hw.counter.counterPeriod⟩ := by
    simp only [counterView, timers, ht]
  have hok : counterView.Ok m₁.timers := by
    simp only [counterView, timers, ht, true_and]
    exact Nat.le_add_right _ _
  have hkeep : ∀ a ∈ ls.flatMap timerActs, counterView.Keeps a := by
    refine fun a ha => ⟨not_call (fun l hl hc => ?_) a ha,
      fun p => not_call (fun l hl hc => ?_) a ha⟩
    · exact (hk l hl).1 (timerCall_hwCounterStop hc)
    · obtain ⟨q, hq⟩ := timerCall_hwCounterSetPeriod hc
      exact (hk l hl).2 q hq
  exact on_schedule counterView hm₁ hok hv hr hkeep hb rfl

/-- Period 5, target 2: the second of three steps comes with an interrupt, at 10. -/
theorem counter_counts_two : ∃ ls₀ m₁ ls m₂, Step.Run (boot : Soc Unit) ls₀ m₁ ∧
    Step.Run m₁ ls m₂ ∧ m₂.hw.counter.counterValue = 3 ∧ counts ls = [false, true, false] := by
  obtain ⟨t₀, h₀, he⟩ := Option.bind_eq_some_iff.mp (show ((boot : Soc Unit).trace
    [.hwCounterSetPeriod 5, .hwCounterSetTarget 2]).bind (fun t₀ =>
      (t₀.2.trace [.hwCounterStart, .halt, .hwmOneEvent, .hwmOneEvent, .hwmOneEvent, .hwCounterStop,
        .hwCounterStart, .halt, .hwmOneEvent]).map fun t =>
          ((counts t.1).length, (counts (t₀.1 ++ t.1)).length, t₀.2.hw.counter.counterValue,
            t₀.2.hw.counter.counterTarget)) = some (3, 3, 0, 2) by rfl)
  obtain ⟨t, ht, he⟩ := Option.map_eq_some_iff.mp he
  simp only [Prod.mk.injEq] at he
  obtain ⟨hvalue, hcounts, -⟩ := counter_counts (run_of_trace h₀) (run_of_trace ht)
    (forall_of_trace ht (P := fun a => ∀ q, a ≠ .hwCounterSetTarget q) (by simp))
  rw [he.2.1] at hvalue
  rw [he.1, he.2.2.1, he.2.2.2] at hcounts
  exact ⟨t₀.1, t₀.2, t.1, t.2, run_of_trace h₀, run_of_trace ht, hvalue, hcounts⟩

/-- The second step with period 5 comes at 10. -/
theorem counter_on_schedule_second : ∃ ls₀ m₀ o m₁ ls m₂, Step.Run (boot : Soc Unit) ls₀ m₀ ∧
    Step m₀ (.hwCounterStart, o) m₁ ∧ Step.Run m₁ ls m₂ ∧ (counts ls).length = 2 ∧
    m₂.hw.simuTime = 10 ∧ 0 + 2 * 5 ≤ m₂.hw.simuTime := by
  obtain ⟨t₀, h₀, he⟩ := Option.bind_eq_some_iff.mp (show ((boot : Soc Unit).trace
    [.hwCounterSetPeriod 5]).bind (fun t₀ => (t₀.2.step .hwCounterStart).bind fun r =>
      (r.1.trace [.halt, .hwmOneEvent, .hwmOneEvent]).map fun t =>
        ((counts t.1).length, t.2.hw.simuTime, t₀.2.hw.simuTime, t₀.2.hw.counter.counterPeriod,
          t₀.2.hw.counter.counterRunning)) = some (2, 10, 0, 5, false) by rfl)
  obtain ⟨r, hr, he⟩ := Option.bind_eq_some_iff.mp he
  obtain ⟨t, ht, he⟩ := Option.map_eq_some_iff.mp he
  simp only [Prod.mk.injEq] at he
  obtain ⟨hlen, htime, h0, hper, hrun⟩ := he
  have hs : Step t₀.2 (.hwCounterStart, r.2) r.1 := hr
  have := counter_on_schedule (run_of_trace h₀) hs hrun (run_of_trace ht)
    (forall_of_trace ht (P := fun a => a ≠ .hwCounterStop ∧ ∀ q, a ≠ .hwCounterSetPeriod q)
      (by simp)) (by rw [htime, hper]; decide)
  rw [hlen, h0, hper] at this
  exact ⟨t₀.1, t₀.2, r.2, r.1, t.1, t.2, run_of_trace h₀, hs, run_of_trace ht, hlen, htime, this.1⟩

end Soc

end MeshNode
