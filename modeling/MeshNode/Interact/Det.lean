import MeshNode.Interact.Env

/-!
# Determined executions

Where the environment has at most one answer to each call of a program, the program has at most one
execution. If there is one, every unfinished execution is a part of it, so that the program cannot
get stuck or run on.

* `Determines E P`: at most one answer to each call that satisfies `P`;
* `LoopExec`, `performs_loop_cases`: loops, iteration by iteration;
* `Unique`, **`unique_of_uses`**: two executions are the same;
* `Follows`, **`follows_of_uses`**: a call that is performed is the next one of the execution.
-/

namespace Interact

open Prog

variable {C : Type} {R : C → Type} {W α β σ : Type} {E : Env C R W} {P : C → Prop}

/-- At most one answer to a call that satisfies `P`, in every state. -/
def Determines (E : Env C R W) (P : C → Prop) : Prop :=
  ∀ ⦃w c r r' v v'⦄, P c → E w ⟨c, r⟩ = some v → E w ⟨c, r'⟩ = some v' → r = r'

theorem exec_call_iff {c : C} {k : R c → Prog C R α} {w w' : W} {tr : Trace C R} {a : α} :
    Exec E w (call c k) tr a w' ↔
      ∃ r t v, tr = ⟨c, r⟩ :: t ∧ E w ⟨c, r⟩ = some v ∧ Exec E v (k r) t a w' :=
  exec_perform_bind_iff (c := c) (f := k)

/-! ### Loops -/

/-- The executions of a loop from a state of it: an iteration leaves the loop, or another one
follows. -/
inductive LoopExec (E : Env C R W) (body : σ → Prog C R (σ ⊕ β)) (b : β) (w' : W) :
    σ → W → Trace C R → Prop
  | exit {s w t} : Exec E w (body s) t (.inr b) w' → LoopExec E body b w' s w t
  | again {s s' w v t₁ t₂} : Exec E w (body s) t₁ (.inl s') v → LoopExec E body b w' s' v t₂ →
      LoopExec E body b w' s w (t₁ ++ t₂)

theorem loopExec_of_exec {body : σ → Prog C R (σ ⊕ β)} {s : σ} {b : β} {w w' : W}
    {tr : Trace C R} (h : Exec E w (loop body s) tr b w') : LoopExec E body b w' s w tr := by
  obtain ⟨s', t₁, t₂, v, rfl, hi, hv, hb⟩ := exec_loop_iff.mp h
  clear h
  unfold Iterates at hi
  induction hi generalizing w with
  | refl =>
    obtain rfl := Option.some.inj hv
    exact .exit hb
  | step hs _ ih =>
    obtain ⟨x, hx, hv⟩ := Env.run_append_eq_some.mp hv
    rw [List.append_assoc]
    exact .again ⟨hs, hx⟩ (ih hv hb)

theorem performs_loop_cases {body : σ → Prog C R (σ ⊕ β)} {s : σ} {tr : Trace C R} {c : C}
    (h : (loop body s).Performs tr c) : (body s).Performs tr c ∨
      ∃ s' t₁ t₂, tr = t₁ ++ t₂ ∧ (body s).Runs t₁ (.inl s') ∧ (loop body s').Performs t₂ c := by
  obtain ⟨s', t₁, t₂, rfl, hi, hp⟩ := (performs_loop _ _ _ _).mp h
  cases hi with
  | refl => exact .inl hp
  | @step _ s₁ _ u₁ u₂ hs hi =>
    exact .inr ⟨s₁, u₁, u₂ ++ t₂, List.append_assoc _ _ _, hs,
      (performs_loop _ _ _ _).mpr ⟨s', u₂, t₂, rfl, hi, hp⟩⟩

/-! ### Uniqueness -/

/-- At most one execution, from every state. -/
def Unique (E : Env C R W) (p : Prog C R α) : Prop :=
  ∀ ⦃w t a v t' a' v'⦄, Exec E w p t a v → Exec E w p t' a' v' → t = t' ∧ a = a' ∧ v = v'

theorem Unique.bind {p : Prog C R α} {f : α → Prog C R β} (hp : Unique E p)
    (hf : ∀ a, Unique E (f a)) : Unique E (p.bind f) := by
  intro w t b v t' b' v' h h'
  obtain ⟨t₁, t₂, a, x, rfl, h₁, h₂⟩ := exec_bind_iff.mp h
  obtain ⟨u₁, u₂, a', x', rfl, h₁', h₂'⟩ := exec_bind_iff.mp h'
  obtain ⟨rfl, rfl, rfl⟩ := hp h₁ h₁'
  obtain ⟨rfl, rfl, rfl⟩ := hf a h₂ h₂'
  exact ⟨rfl, rfl, rfl⟩

theorem Unique.loop {body : σ → Prog C R (σ ⊕ β)} (hb : ∀ s, Unique E (body s)) (s : σ) :
    Unique E (loop body s) := by
  intro w t b v t' b' v' h h'
  replace h := loopExec_of_exec h
  replace h' := loopExec_of_exec h'
  induction h generalizing t' with
  | @exit s w t h =>
    cases h' with
    | exit h₁ =>
      obtain ⟨rfl, e, rfl⟩ := hb s h h₁
      exact ⟨rfl, Sum.inr.inj e, rfl⟩
    | again h₁ _ => exact absurd (hb s h h₁).2.1 (by simp)
  | @again s s' w x t₁ t₂ h _ ih =>
    cases h' with
    | exit h₁ => exact absurd (hb s h h₁).2.1 (by simp)
    | again h₁ h₂ =>
      obtain ⟨rfl, e, rfl⟩ := hb s h h₁
      obtain rfl := Sum.inl.inj e
      obtain ⟨rfl, rfl, rfl⟩ := ih h₂
      exact ⟨rfl, rfl, rfl⟩

/-- **Two executions are the same** when every call has at most one answer. -/
theorem unique_of_uses (hE : Determines E P) {p : Prog C R α} (hp : Uses P p) : Unique E p := by
  induction p with
  | ret a =>
    intro w t b v t' b' v' h h'
    obtain ⟨rfl, rfl, rfl⟩ := exec_ret_iff.mp h
    obtain ⟨rfl, rfl, rfl⟩ := exec_ret_iff.mp h'
    exact ⟨rfl, rfl, rfl⟩
  | call c k ih =>
    intro w t b v t' b' v' h h'
    obtain ⟨r, t, x, rfl, hr, h₁⟩ := exec_call_iff.mp h
    obtain ⟨r', t', x', rfl, hr', h₁'⟩ := exec_call_iff.mp h'
    obtain rfl := hE hp.1 hr hr'
    obtain rfl := Option.some.inj (hr.symm.trans hr')
    obtain ⟨rfl, rfl, rfl⟩ := ih r (hp.2 r) h₁ h₁'
    exact ⟨rfl, rfl, rfl⟩
  | iter body s k ihb ih =>
    exact Unique.bind (.loop (fun s => ihb s (hp.1 s)) s) fun b => ih b (hp.2 b)

/-! ### Unfinished executions -/

/-- A performed call is the next one of every complete execution. -/
def Follows (E : Env C R W) (p : Prog C R α) : Prop :=
  ∀ ⦃w t a v t' c v'⦄, Exec E w p t a v → p.Performs t' c → E.run w t' = some v' →
    ∃ r t'', t = t' ++ ⟨c, r⟩ :: t''

theorem Follows.bind {p : Prog C R α} {f : α → Prog C R β} (hp : Follows E p) (hu : Unique E p)
    (hf : ∀ a, Follows E (f a)) : Follows E (p.bind f) := by
  intro w t b v t' c v' h hc hv'
  obtain ⟨t₁, t₂, a, x, rfl, h₁, h₂⟩ := exec_bind_iff.mp h
  rcases (performs_bind _ _ _ _).mp hc with hc | ⟨u₁, u₂, a', rfl, hr, hc⟩
  · obtain ⟨r, t'', rfl⟩ := hp h₁ hc hv'
    exact ⟨r, t'' ++ t₂, by simp⟩
  · obtain ⟨y, hy, hv'⟩ := Env.run_append_eq_some.mp hv'
    obtain ⟨rfl, rfl, rfl⟩ := hu h₁ ⟨hr, hy⟩
    obtain ⟨r, t'', rfl⟩ := hf a h₂ hc hv'
    exact ⟨r, t'', (List.append_assoc _ _ _).symm⟩

theorem Follows.loop {body : σ → Prog C R (σ ⊕ β)} (hb : ∀ s, Follows E (body s))
    (hu : ∀ s, Unique E (body s)) (s : σ) : Follows E (loop body s) := by
  intro w t b v t' c v' h hc hv'
  replace h := loopExec_of_exec h
  induction h generalizing t' with
  | @exit s w t h =>
    rcases performs_loop_cases hc with hc | ⟨s', u₁, u₂, rfl, hr, -⟩
    · exact hb s h hc hv'
    · obtain ⟨y, hy, -⟩ := Env.run_append_eq_some.mp hv'
      exact absurd (hu s h ⟨hr, hy⟩).2.1 (by simp)
  | @again s s' w x t₁ t₂ h₁ _ ih =>
    rcases performs_loop_cases hc with hc | ⟨s'', u₁, u₂, rfl, hr, hc⟩
    · obtain ⟨r, t'', rfl⟩ := hb s h₁ hc hv'
      exact ⟨r, t'' ++ t₂, by simp⟩
    · obtain ⟨y, hy, hv'⟩ := Env.run_append_eq_some.mp hv'
      obtain ⟨rfl, e, rfl⟩ := hu s h₁ ⟨hr, hy⟩
      obtain rfl := Sum.inl.inj e
      obtain ⟨r, t'', rfl⟩ := ih hc hv'
      exact ⟨r, t'', (List.append_assoc _ _ _).symm⟩

/-- **An unfinished execution is a part of the finished one.** -/
theorem follows_of_uses (hE : Determines E P) {p : Prog C R α} (hp : Uses P p) : Follows E p := by
  induction p with
  | ret a => exact fun w t b v t' c v' _ hc _ => hc.elim
  | call c k ih =>
    intro w t b v t' c' v' h hc hv'
    obtain ⟨r, t, x, rfl, hr, h₁⟩ := exec_call_iff.mp h
    rcases hc with ⟨rfl, rfl⟩ | ⟨r', u, rfl, hc⟩
    · exact ⟨r, t, rfl⟩
    · obtain ⟨x', hr', hv'⟩ := Env.run_cons_eq_some.mp hv'
      obtain rfl := hE hp.1 hr hr'
      obtain rfl := Option.some.inj (hr.symm.trans hr')
      obtain ⟨r'', t'', rfl⟩ := ih r (hp.2 r) h₁ hc hv'
      exact ⟨r'', t'', rfl⟩
  | iter body s k ihb ih =>
    have hu := fun s => unique_of_uses hE (hp.1 s)
    exact Follows.bind (.loop (fun s => ihb s (hp.1 s)) hu s) (.loop hu s) fun b => ih b (hp.2 b)

end Interact
