import MeshNode.Interact.Lts
import Mathlib.Data.List.Count
import Mathlib.Tactic.Linarith
import Mathlib.Tactic.Ring

/-!
# Periodic timers

A clock and a timer. Time never passes the moment at which the timer is due; when the timer fires it
is due again one period later.

* `State`, `Step`: the clock and the timer;
* `OnTime`: what holds after `k` periods; **`OnTime.run`**: every run keeps it;
* `OnTime.now_eq`: the moment at which it fires.
-/

namespace Periodic

open Interact

structure State where
  now : ℕ
  due : ℕ
  period : ℕ

inductive Act
  | pass | fire
  deriving DecidableEq

/-- Time passes up to the due time at most; there, the timer fires. -/
inductive Step : Lts Act State
  | pass {s : State} {t : ℕ} : s.now ≤ t → t ≤ s.due → Step s .pass { s with now := t }
  | fire {s : State} : s.now = s.due → Step s .fire { s with due := s.due + s.period }

/-- The timer was started at `start` and has fired `k` times since. -/
structure OnTime (start k : ℕ) (s : State) : Prop where
  due : s.due = start + (k + 1) * s.period
  fired : start + k * s.period ≤ s.now
  now_le : s.now ≤ s.due

variable {s t : State} {a : Act} {as : List Act} {start k : ℕ}

theorem OnTime.started (start period : ℕ) : OnTime start 0 ⟨start, start + period, period⟩ :=
  ⟨by simp, by simp, by simp⟩

theorem Step.period (h : Step s a t) : t.period = s.period := by cases h <;> rfl

theorem period_run (h : Step.Run s as t) : t.period = s.period :=
  Lts.Run.invariant (I := fun u => u.period = s.period) (fun _ _ _ h hs => hs.period.trans h) h rfl

/-- The timer is never overdue. -/
theorem now_le_due (h : Step.Run s as t) (hs : s.now ≤ s.due) : t.now ≤ t.due := by
  refine Lts.Run.invariant (I := fun u => u.now ≤ u.due) (fun u a v hu hs => ?_) h hs
  cases hs with
  | pass _ hd => exact hd
  | fire _ => exact hu.trans (Nat.le_add_right _ _)

theorem OnTime.step (h : OnTime start k s) (hs : Step s a t) :
    OnTime start (k + [a].count .fire) t := by
  cases hs with
  | pass hn hd => exact ⟨h.due, h.fired.trans hn, hd⟩
  | fire he =>
    have hdue : s.due + s.period = start + (k + 1 + 1) * s.period := by
      rw [h.due]
      ring
    exact ⟨hdue, (he.trans h.due).ge, he.le.trans (Nat.le_add_right _ _)⟩

/-- **On schedule.** Every run keeps the timer on time, and counts what it fires. -/
theorem OnTime.run (h : OnTime start k s) (hr : Step.Run s as t) :
    OnTime start (k + as.count .fire) t := by
  induction hr generalizing k with
  | nil => exact h
  | @cons s u t a as hs _ ih =>
    have ht := ih (h.step hs)
    rwa [add_assoc, ← List.count_append, List.singleton_append] at ht

/-- While no time passes, the timer that fired is due one period from now. -/
theorem due_of_fired (h : Step.Run s as t) (hp : Act.pass ∉ as) (hf : Act.fire ∈ as) :
    t.due = t.now + t.period := by
  induction h with
  | nil => simp at hf
  | @cons s u t a as hs hr ih =>
    rw [List.mem_cons, not_or] at hp
    by_cases hf' : Act.fire ∈ as
    · exact ih hp.2 hf'
    · -- nothing else happens
      obtain rfl : as = [] := List.eq_nil_iff_forall_not_mem.mpr fun x hx => by
        cases x with
        | pass => exact hp.2 hx
        | fire => exact hf' hx
      obtain rfl := Lts.run_nil_iff.mp hr
      cases hs with
      | pass => exact absurd rfl hp.1
      | fire he => exact congrArg (· + s.period) he.symm

/-- Where time passes at the beginning only and the timer fires, it does so at the end of its
period. -/
theorem OnTime.now_eq (h : OnTime start k t) (hr : Step.Run s as t) (hp : Act.pass ∉ as.tail)
    (hf : Act.fire ∈ as) : t.now = start + k * t.period := by
  have hdue : t.due = t.now + t.period := by
    cases as with
    | nil => simp at hf
    | cons a as =>
      rcases List.mem_cons.mp hf with rfl | hf
      · exact due_of_fired hr (by simpa using hp) List.mem_cons_self
      · obtain ⟨u, -, hr⟩ := Lts.run_cons_iff.mp hr
        exact due_of_fired hr hp hf
  have := h.due
  rw [add_mul, one_mul] at this
  omega

end Periodic
