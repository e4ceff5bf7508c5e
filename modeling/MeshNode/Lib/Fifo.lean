import Mathlib.Data.List.Basic
import Mathlib.Data.List.Infix
import Mathlib.Tactic.Common

/-!
# Bounded first-in first-out queues

A queue of capacity `cap` and the operations on it, each together with its outcome: an offer that
was accepted or refused, a reader that got an item or found nothing, a purge.

* `BQueue`, `Op`, `step`, `run`: queues, operations, and which outcomes are possible;
* `offered`, `accepted`, `taken`: what a history offered, stored and handed to the readers;
* `leaving`, `fates`: what became of every item that left the queue, in the order of leaving;
* **`run_fates`**: no item is lost from sight, duplicated or reordered;
* **`items_suffix`**: the content is a final block of the accepted items;
* `step_room`, `not_refused`: with room for all offers none is refused;
* `put_ok_iff`: an offer is refused exactly when it meets a full queue;
* `BQueue.putPurging`: an offer that gives up the content of a full queue, and
  **`length_foldl_putPurging`**: the sawtooth of the length when nobody reads.
-/

namespace Fifo

/-- A queue that holds at most `cap` items. -/
structure BQueue (α : Type) (cap : ℕ) where
  items : List α
  le_cap : items.length ≤ cap

/-- One operation and its outcome. -/
inductive Op (α : Type)
  | put (a : α) (ok : Bool)
  | get (r : Option α)
  | purge

/-- The operation had no effect. -/
def Op.failed {α : Type} : Op α → Bool
  | put _ ok => !ok
  | get r => r.isNone
  | purge => false

/-- What happened to an item that left the queue. -/
inductive Fate
  | taken
  | purged
  deriving DecidableEq

variable {α : Type} {cap : ℕ}

namespace BQueue

@[ext] theorem ext {q q' : BQueue α cap} (h : q.items = q'.items) : q = q' := by
  cases q; cases q'; cases h; rfl

def empty : BQueue α cap := ⟨[], Nat.zero_le _⟩

@[simp] theorem items_empty : (empty : BQueue α cap).items = [] := rfl

/-- The queue with one more item at its tail. -/
def push (q : BQueue α cap) (a : α) (h : q.items.length < cap) : BQueue α cap :=
  ⟨q.items ++ [a], by rw [List.length_append]; exact h⟩

@[simp] theorem items_push (q : BQueue α cap) (a : α) (h : q.items.length < cap) :
    (q.push a h).items = q.items ++ [a] := rfl

/-- The queue without its head. -/
def pop (q : BQueue α cap) : BQueue α cap :=
  ⟨q.items.tail, (List.length_tail ▸ Nat.sub_le _ _).trans q.le_cap⟩

end BQueue

variable [DecidableEq α]

/-- The queue after an operation, if its outcome is the one the queue gives. -/
def step (q : BQueue α cap) : Op α → Option (BQueue α cap)
  | .put a ok =>
    if h : q.items.length < cap then if ok then some (q.push a h) else none
    else if ok then none else some q
  | .get r => if q.items.head? = r then some q.pop else none
  | .purge => some .empty

/-- The queue after a history of operations. -/
def run (q : BQueue α cap) : List (Op α) → Option (BQueue α cap)
  | [] => some q
  | op :: ops => (step q op).bind fun q' => run q' ops

/-! ### One operation -/

theorem step_put_ok {q q' : BQueue α cap} {a : α} :
    step q (.put a true) = some q' ↔ q.items.length < cap ∧ q'.items = q.items ++ [a] := by
  by_cases h : q.items.length < cap
  · simp only [step, h, dif_pos, if_true, Option.some.injEq, true_and]
    exact ⟨fun e => e ▸ rfl, fun e => BQueue.ext e.symm⟩
  · simp [step, h]

theorem step_put_refused {q q' : BQueue α cap} {a : α} :
    step q (.put a false) = some q' ↔ q.items.length = cap ∧ q' = q := by
  have hq := q.le_cap
  by_cases h : q.items.length < cap
  · simp [step, h, h.ne]
  · simp [step, show q.items.length = cap by omega, eq_comm]

theorem step_get {q q' : BQueue α cap} {r : Option α} :
    step q (.get r) = some q' ↔ q.items.head? = r ∧ q'.items = q.items.tail := by
  by_cases h : q.items.head? = r
  · simp only [step, h, if_true, Option.some.injEq, true_and]
    exact ⟨fun e => e ▸ rfl, fun e => BQueue.ext e.symm⟩
  · simp [step, h]

@[simp] theorem step_purge (q : BQueue α cap) : step q .purge = some .empty := rfl

/-! ### Histories -/

theorem run_cons_eq_some {q q' : BQueue α cap} {op : Op α} {ops : List (Op α)} :
    run q (op :: ops) = some q' ↔ ∃ v, step q op = some v ∧ run v ops = some q' := by
  rw [run, Option.bind_eq_some_iff]

theorem run_append (q : BQueue α cap) (ops ops' : List (Op α)) :
    run q (ops ++ ops') = (run q ops).bind fun v => run v ops' := by
  induction ops generalizing q with
  | nil => rfl
  | cons op ops ih =>
    rw [List.cons_append, run, run, Option.bind_assoc]
    exact congrArg _ (funext fun v => ih v)

theorem run_append_eq_some {q q' : BQueue α cap} {ops ops' : List (Op α)} :
    run q (ops ++ ops') = some q' ↔ ∃ v, run q ops = some v ∧ run v ops' = some q' := by
  rw [run_append, Option.bind_eq_some_iff]

omit [DecidableEq α] in
/-- All items that were offered, stored or not. -/
def offered : List (Op α) → List α :=
  List.filterMap fun | .put a _ => some a | _ => none

/-- The items that were stored. -/
def accepted : List (Op α) → List α :=
  List.filterMap fun | .put a true => some a | _ => none

/-- The items handed to the readers. -/
def taken : List (Op α) → List α :=
  List.filterMap fun | .get r => r | _ => none

/-- The items that leave the queue with one operation. -/
def leaving (q : BQueue α cap) : Op α → List (α × Fate)
  | .put _ _ => []
  | .get r => r.toList.map (·, .taken)
  | .purge => q.items.map (·, .purged)

/-- The items that left the queue, in the order of leaving, each with what happened to it. -/
def fates (q : BQueue α cap) : List (Op α) → List (α × Fate)
  | [] => []
  | op :: ops => leaving q op ++ ((step q op).elim [] fun q' => fates q' ops)

theorem fates_cons {q v : BQueue α cap} {op : Op α} (h : step q op = some v) (ops : List (Op α)) :
    fates q (op :: ops) = leaving q op ++ fates v ops := by
  simp only [fates, h, Option.elim_some]

/-- **Conservation.** The items there were, followed by the accepted ones, are the items that left
followed by those still queued: nothing is duplicated, invented or reordered. -/
theorem run_fates {q q' : BQueue α cap} {ops : List (Op α)} (h : run q ops = some q') :
    q.items ++ accepted ops = (fates q ops).map Prod.fst ++ q'.items := by
  induction ops generalizing q with
  | nil => cases h; simp [accepted, fates]
  | cons op ops ih =>
    obtain ⟨v, hv, hr⟩ := run_cons_eq_some.mp h
    have ih := ih hr
    rw [fates_cons hv]
    cases op with
    | put a ok =>
      cases ok with
      | true =>
        obtain ⟨-, e⟩ := step_put_ok.mp hv
        simpa [accepted, leaving, e] using ih
      | false =>
        obtain ⟨-, rfl⟩ := step_put_refused.mp hv
        simpa [accepted, leaving] using ih
    | get r =>
      obtain ⟨hr, e⟩ := step_get.mp hv
      rw [e] at ih
      cases hq : q.items <;> rw [hq] at hr ih <;> cases hr <;>
        simpa [accepted, leaving] using ih
    | purge =>
      cases hv
      have h : (q.items.map fun a => (a, Fate.purged)).map Prod.fst = q.items := by
        simp [Function.comp_def]
      rw [leaving, List.map_append, h, List.append_assoc, ← ih]
      rfl

/-- Without a purge every item that left was taken. -/
theorem fates_of_no_purge {q q' : BQueue α cap} {ops : List (Op α)} (h : run q ops = some q')
    (hp : ∀ op ∈ ops, op ≠ .purge) : (fates q ops).map Prod.fst = taken ops := by
  induction ops generalizing q with
  | nil => rfl
  | cons op ops ih =>
    obtain ⟨v, hv, hr⟩ := run_cons_eq_some.mp h
    rw [fates_cons hv, List.map_append, ih hr fun o ho => hp o (List.mem_cons_of_mem _ ho)]
    cases op with
    | put a ok => simp [taken, leaving]
    | get r => cases r <;> simp [taken, leaving]
    | purge => exact absurd rfl (hp .purge List.mem_cons_self)

/-- **Producer and consumer without purges**: taken then queued is what was accepted. -/
theorem taken_append_items {q : BQueue α cap} {ops : List (Op α)}
    (h : run .empty ops = some q) (hp : ∀ op ∈ ops, op ≠ .purge) :
    taken ops ++ q.items = accepted ops := by
  rw [← fates_of_no_purge h hp, ← run_fates h]
  rfl

/-- **The queue holds a final block of the accepted items.** -/
theorem items_suffix {q : BQueue α cap} {ops : List (Op α)} (h : run .empty ops = some q) :
    q.items <:+ accepted ops :=
  ⟨(fates .empty ops).map Prod.fst, (run_fates h).symm⟩

omit [DecidableEq α] in
theorem taken_append (ops ops' : List (Op α)) : taken (ops ++ ops') = taken ops ++ taken ops' :=
  List.filterMap_append

/-- **Without readers the queue holds the first of the offered items**, as many as it can. -/
theorem items_of_untaken {q q' : BQueue α cap} {ops : List (Op α)} (h : run q ops = some q')
    (hp : ∀ op ∈ ops, op ≠ .purge) (ht : taken ops = []) :
    q'.items = (q.items ++ offered ops).take cap := by
  induction ops generalizing q with
  | nil =>
    obtain rfl := Option.some.inj h
    rw [offered, List.filterMap_nil, List.append_nil, List.take_of_length_le q.le_cap]
  | cons op ops ih =>
    obtain ⟨v, hv, hr⟩ := run_cons_eq_some.mp h
    obtain ⟨hop, hops⟩ := List.forall_mem_cons.mp hp
    cases op with
    | put a ok =>
      have ih := ih hr hops ht
      have hoff : offered (.put a ok :: ops) = a :: offered ops := rfl
      rw [ih, hoff]
      cases ok with
      | true => rw [(step_put_ok.mp hv).2, List.append_assoc, List.singleton_append]
      | false =>
        obtain ⟨hfull, rfl⟩ := step_put_refused.mp hv
        rw [List.take_append_of_le_length hfull.ge, List.take_append_of_le_length hfull.ge]
    | get r =>
      cases r with
      | none =>
        obtain ⟨hnone, e⟩ := step_get.mp hv
        rw [ih hr hops ht, e]
        have hnil : q.items = [] := List.head?_eq_none_iff.mp hnone
        simp [hnil, offered]
      | some a => exact absurd ht (List.cons_ne_nil a _)
    | purge => exact absurd rfl hop

/-- **An offer is refused exactly when it meets a full queue.** -/
theorem put_ok_iff {q q' : BQueue α cap} {pre post : List (Op α)} {a : α} {ok : Bool}
    (h : run q (pre ++ .put a ok :: post) = some q') :
    ∃ v, run q pre = some v ∧ (ok = false ↔ v.items.length = cap) := by
  obtain ⟨v, hv, hr⟩ := run_append_eq_some.mp h
  obtain ⟨u, hu, -⟩ := run_cons_eq_some.mp hr
  refine ⟨v, hv, ?_⟩
  cases ok with
  | true => simp [(step_put_ok.mp hu).1.ne]
  | false => simp [(step_put_refused.mp hu).1]

omit [DecidableEq α] in
theorem accepted_eq_offered {ops : List (Op α)} (h : ∀ a, Op.put a false ∉ ops) :
    accepted ops = offered ops := by
  refine List.filterMap_congr fun op hop => ?_
  cases op with
  | put a ok =>
    cases ok with
    | true => rfl
    | false => exact absurd hop (h a)
  | get r => rfl
  | purge => rfl

/-- With room for all offers of a history, its first operation is no refused offer and leaves room
for the others. -/
theorem step_room {q v : BQueue α cap} {op : Op α} {ops : List (Op α)} (hv : step q op = some v)
    (hl : q.items.length + (offered (op :: ops)).length ≤ cap) (a : α) :
    op ≠ .put a false ∧ v.items.length + (offered ops).length ≤ cap := by
  cases op with
  | put b ok =>
    have ho : (offered (.put b ok :: ops)).length = (offered ops).length + 1 := by
      simp [offered]
    cases ok with
    | true =>
      obtain ⟨-, e⟩ := step_put_ok.mp hv
      refine ⟨by simp, ?_⟩
      rw [e, List.length_append, List.length_singleton]
      omega
    | false =>
      have := (step_put_refused.mp hv).1
      omega
  | get r =>
    have ho : offered (.get r :: ops) = offered ops := rfl
    obtain ⟨-, e⟩ := step_get.mp hv
    refine ⟨by simp, ?_⟩
    rw [ho] at hl
    rw [e, List.length_tail]
    omega
  | purge =>
    have ho : offered (.purge :: ops) = offered ops := rfl
    cases hv
    rw [ho] at hl
    exact ⟨by simp, by simp; omega⟩

/-- No offer is refused in a history that offers no more than there is room for. -/
theorem not_refused {q q' : BQueue α cap} {ops : List (Op α)} (h : run q ops = some q')
    (hl : q.items.length + (offered ops).length ≤ cap) (a : α) : Op.put a false ∉ ops := by
  induction ops generalizing q with
  | nil => simp
  | cons op ops ih =>
    obtain ⟨v, hv, hr⟩ := run_cons_eq_some.mp h
    obtain ⟨hop, hroom⟩ := step_room hv hl a
    rw [List.mem_cons, not_or]
    exact ⟨hop.symm, ih hr hroom⟩

/-! ### Purging a full queue -/

omit [DecidableEq α]

variable (hc : 0 < cap)

/-- The queue after an offer that purges a full queue and tries again. -/
def BQueue.putPurging (q : BQueue α cap) (a : α) : BQueue α cap :=
  if h : q.items.length < cap then q.push a h else ⟨[a], hc⟩

theorem BQueue.putPurging_of_room {q : BQueue α cap} (a : α) (h : q.items.length < cap) :
    q.putPurging hc a = q.push a h := dif_pos h

theorem BQueue.putPurging_of_full {q : BQueue α cap} (a : α) (h : q.items.length = cap) :
    (q.putPurging hc a).items = [a] := by
  rw [BQueue.putPurging, dif_neg (by omega)]

/-- The last item is the newest. -/
theorem BQueue.getLast?_putPurging (q : BQueue α cap) (a : α) :
    (q.putPurging hc a).items.getLast? = some a := by
  rcases q.le_cap.lt_or_eq with h | h
  · rw [putPurging_of_room hc a h, items_push, List.getLast?_concat]
  · rw [putPurging_of_full hc a h, List.getLast?_singleton]

/-- **The sawtooth.** After `n + 1` offers and no reads the queue holds `n % cap + 1` items. -/
theorem length_foldl_putPurging (xs : List α) (h : xs ≠ []) :
    (xs.foldl (BQueue.putPurging hc) .empty).items.length = (xs.length - 1) % cap + 1 := by
  induction xs using List.reverseRecOn with
  | nil => exact absurd rfl h
  | append_singleton xs a ih =>
    rw [List.foldl_concat, List.length_append, List.length_singleton, Nat.add_sub_cancel]
    by_cases hx : xs = []
    · subst hx
      rw [List.foldl_nil, BQueue.putPurging_of_room (q := .empty) hc a hc, List.length_nil,
        Nat.zero_mod]
      rfl
    · have ih := ih hx
      set q := xs.foldl (BQueue.putPurging hc) .empty
      have hmod : xs.length % cap = q.items.length % cap := by
        have hn : xs.length = cap * ((xs.length - 1) / cap) + q.items.length := by
          have := Nat.div_add_mod (xs.length - 1) cap
          have := List.length_pos_iff.mpr hx
          omega
        conv_lhs => rw [hn, Nat.mul_add_mod]
      rw [hmod]
      rcases q.le_cap.lt_or_eq with hl | hl
      · rw [BQueue.putPurging_of_room hc a hl, BQueue.items_push, List.length_append,
          Nat.mod_eq_of_lt hl, List.length_singleton]
      · rw [BQueue.putPurging_of_full hc a hl, hl, Nat.mod_self, List.length_singleton]

end Fifo
