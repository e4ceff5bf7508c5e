import MeshNode.Interact.Env
import MeshNode.Lib.Fifo

/-!
# Queues as environments

A bounded queue answers the calls that put to it, get from it or purge it.

* `queueEnv op waits`: the environment of one queue, `op` reading operations off events;
* `queueEnv_of_op`, `queueEnv_of_no_op`: one event;
* **`queueEnv_run`**: a trace leaves the queue that its operations leave.
-/

namespace Interact

open Fifo

variable {C : Type} {R : C → Type} {α : Type} {cap : ℕ} [DecidableEq α]

/-- A queue as an environment. A call that `waits` is not answered before it can succeed; the other
calls are answered at once. -/
def queueEnv (op : Event C R → Option (Op α)) (waits : C → Bool) : Env C R (BQueue α cap) :=
  fun q e =>
    match op e with
    | none => some q
    | some o => if waits e.1 ∧ o.failed then none else step q o

variable {op : Event C R → Option (Op α)} {waits : C → Bool} {q q' : BQueue α cap} {e : Event C R}

theorem queueEnv_of_no_op (h : op e = none) : queueEnv op waits q e = some q := by
  simp only [queueEnv, h]

theorem queueEnv_of_op {o : Op α} (h : op e = some o) :
    queueEnv op waits q e = some q' ↔ ¬ (waits e.1 ∧ o.failed) ∧ step q o = some q' := by
  simp only [queueEnv, h, ite_eq_iff, reduceCtorEq, and_false, false_or]

/-- **The queue a trace leaves** is the one its operations leave. -/
theorem queueEnv_run {tr : Trace C R} (h : (queueEnv op waits).run q tr = some q') :
    run q (tr.filterMap op) = some q' := by
  induction tr generalizing q with
  | nil => exact h
  | cons e tr ih =>
    obtain ⟨v, hv, ht⟩ := Env.run_cons_eq_some.mp h
    rw [List.filterMap_cons]
    cases ho : op e with
    | none =>
      rw [queueEnv_of_no_op ho] at hv
      cases hv
      exact ih ht
    | some o =>
      exact run_cons_eq_some.mpr ⟨v, ((queueEnv_of_op ho).mp hv).2, ih ht⟩

end Interact
