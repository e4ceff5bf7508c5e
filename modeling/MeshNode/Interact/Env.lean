import MeshNode.Interact.Prog

/-!
# Programs in an environment

An environment is a state and the answers it can give: it takes a call with an answer to the next
state, or refuses the answer.

* `Env`, `Env.run`: environments, and how a trace moves them;
* `Exec E w p tr a w'`: a complete run of `p` that the environment `E` allows from `w`;
* `Exec.bind`, `Exec.perform_bind`, `Exec.loop_again`, `Exec.loop_exit`: composition rules;
* `exec_bind_iff`, `exec_perform_bind_iff`, `exec_loop_iff`: the same, read backwards;
* `Yields E w p a w'`: some execution returns `a` in the state `w'`;
* `Within E w P p`, `within_perform_bind`: every call `p` comes to satisfies `P`;
* `Blocks E w p c`: `p` can come to the call `c` when the environment never answers it;
  `Blocks.bind_right`, `Blocks.loop_again` and the like compose it;
* `not_exec_loop`: a loop whose body never leaves it does not return.
-/

namespace Interact

open Prog

variable {C : Type} {R : C → Type} {W α β σ : Type}

/-- An environment with states `W`: the next state after a call got an answer, if it can. -/
abbrev Env (C : Type) (R : C → Type) (W : Type) := W → Event C R → Option W

/-- The state after a trace, if the environment allows it. -/
def Env.run (E : Env C R W) : W → Trace C R → Option W
  | w, [] => some w
  | w, e :: tr => (E w e).bind fun w' => Env.run E w' tr

namespace Env

variable {E : Env C R W}

@[simp] theorem run_cons (w : W) (e : Event C R) (tr : Trace C R) :
    E.run w (e :: tr) = (E w e).bind fun w' => E.run w' tr := rfl

theorem run_cons_eq_some {w w' : W} {e : Event C R} {tr : Trace C R} :
    E.run w (e :: tr) = some w' ↔ ∃ v, E w e = some v ∧ E.run v tr = some w' := by
  rw [run_cons, Option.bind_eq_some_iff]

theorem run_append (w : W) (t₁ t₂ : Trace C R) :
    E.run w (t₁ ++ t₂) = (E.run w t₁).bind fun v => E.run v t₂ := by
  induction t₁ generalizing w with
  | nil => rfl
  | cons e t ih =>
    rw [List.cons_append, run_cons, run_cons, Option.bind_assoc]
    exact congrArg _ (funext fun v => ih v)

theorem run_append_eq_some {w w' : W} {t₁ t₂ : Trace C R} :
    E.run w (t₁ ++ t₂) = some w' ↔ ∃ v, E.run w t₁ = some v ∧ E.run v t₂ = some w' := by
  rw [run_append, Option.bind_eq_some_iff]

end Env

/-- **A complete execution**: `p` returns `a` after `tr`, and `tr` takes the environment from `w`
to `w'`. -/
structure Exec (E : Env C R W) (w : W) (p : Prog C R α) (tr : Trace C R) (a : α) (w' : W) :
    Prop where
  runs : p.Runs tr a
  run : E.run w tr = some w'

/-- The program can come to the call `c` in a state in which the environment never answers it. -/
def Blocks (E : Env C R W) (w : W) (p : Prog C R α) (c : C) : Prop :=
  ∃ tr w', p.Performs tr c ∧ E.run w tr = some w' ∧ ∀ r, E w' ⟨c, r⟩ = none

variable {E : Env C R W} {w w' : W} {tr : Trace C R}

theorem exec_ret_iff {a b : α} : Exec E w (ret a) tr b w' ↔ tr = [] ∧ a = b ∧ w = w' := by
  constructor
  · rintro ⟨⟨rfl, rfl⟩, h⟩
    exact ⟨rfl, rfl, Option.some.inj h⟩
  · rintro ⟨rfl, rfl, rfl⟩
    exact ⟨⟨rfl, rfl⟩, rfl⟩

theorem exec_bind_iff {p : Prog C R α} {f : α → Prog C R β} {b : β} :
    Exec E w (p.bind f) tr b w' ↔
      ∃ t₁ t₂ a v, tr = t₁ ++ t₂ ∧ Exec E w p t₁ a v ∧ Exec E v (f a) t₂ b w' := by
  constructor
  · rintro ⟨h, hw⟩
    obtain ⟨t₁, t₂, a, rfl, h₁, h₂⟩ := (runs_bind p f tr b).mp h
    obtain ⟨v, hv, hv'⟩ := Env.run_append_eq_some.mp hw
    exact ⟨t₁, t₂, a, v, rfl, ⟨h₁, hv⟩, ⟨h₂, hv'⟩⟩
  · rintro ⟨t₁, t₂, a, v, rfl, h₁, h₂⟩
    exact ⟨(runs_bind p f _ b).mpr ⟨t₁, t₂, a, rfl, h₁.runs, h₂.runs⟩,
      Env.run_append_eq_some.mpr ⟨v, h₁.run, h₂.run⟩⟩

theorem exec_perform_bind_iff {c : C} {f : R c → Prog C R β} {b : β} :
    Exec E w ((perform c).bind f) tr b w' ↔
      ∃ r t v, tr = ⟨c, r⟩ :: t ∧ E w ⟨c, r⟩ = some v ∧ Exec E v (f r) t b w' := by
  constructor
  · rintro ⟨⟨r, t, rfl, h⟩, hw⟩
    obtain ⟨v, hv, hv'⟩ := Env.run_cons_eq_some.mp hw
    exact ⟨r, t, v, rfl, hv, ⟨h, hv'⟩⟩
  · rintro ⟨r, t, v, rfl, hv, h⟩
    exact ⟨⟨r, t, rfl, h.runs⟩, Env.run_cons_eq_some.mpr ⟨v, hv, h.run⟩⟩

theorem exec_loop_iff {body : σ → Prog C R (σ ⊕ β)} {s : σ} {b : β} :
    Exec E w (loop body s) tr b w' ↔ ∃ s' t₁ t₂ v, tr = t₁ ++ t₂ ∧ Iterates body s t₁ s' ∧
      E.run w t₁ = some v ∧ Exec E v (body s') t₂ (.inr b) w' := by
  constructor
  · rintro ⟨h, hw⟩
    obtain ⟨s', t₁, t₂, rfl, hi, hb⟩ := (runs_loop body s tr b).mp h
    obtain ⟨v, hv, hv'⟩ := Env.run_append_eq_some.mp hw
    exact ⟨s', t₁, t₂, v, rfl, hi, hv, ⟨hb, hv'⟩⟩
  · rintro ⟨s', t₁, t₂, v, rfl, hi, hv, h⟩
    exact ⟨(runs_loop body s _ b).mpr ⟨s', t₁, t₂, rfl, hi, h.runs⟩,
      Env.run_append_eq_some.mpr ⟨v, hv, h.run⟩⟩

/-! ### Building executions -/

theorem Exec.ret (a : α) (w : W) : Exec E w (Prog.ret a) [] a w := ⟨⟨rfl, rfl⟩, rfl⟩

theorem Exec.one {c : C} {r : R c} (hc : E w ⟨c, r⟩ = some w') :
    Exec E w (perform c) [⟨c, r⟩] r w' :=
  ⟨(runs_perform c _ r).mpr rfl, Env.run_cons_eq_some.mpr ⟨w', hc, rfl⟩⟩

theorem Exec.bind {p : Prog C R α} {f : α → Prog C R β} {t₁ t₂ : Trace C R} {a : α} {b : β} {v : W}
    (h₁ : Exec E w p t₁ a v) (h₂ : Exec E v (f a) t₂ b w') :
    Exec E w (p.bind f) (t₁ ++ t₂) b w' :=
  exec_bind_iff.mpr ⟨t₁, t₂, a, v, rfl, h₁, h₂⟩

theorem Exec.perform_bind {c : C} {f : R c → Prog C R β} {r : R c} {b : β} {v : W}
    (hc : E w ⟨c, r⟩ = some v) (h : Exec E v (f r) tr b w') :
    Exec E w ((perform c).bind f) (⟨c, r⟩ :: tr) b w' :=
  exec_perform_bind_iff.mpr ⟨r, tr, v, rfl, hc, h⟩

theorem Exec.loop_again {body : σ → Prog C R (σ ⊕ β)} {s t : σ} {t₁ t₂ : Trace C R} {b : β} {v : W}
    (h₁ : Exec E w (body s) t₁ (.inl t) v) (h₂ : Exec E v (loop body t) t₂ b w') :
    Exec E w (loop body s) (t₁ ++ t₂) b w' := by
  obtain ⟨s', u₁, u₂, x, rfl, hi, hx, hb⟩ := exec_loop_iff.mp h₂
  refine exec_loop_iff.mpr ⟨s', t₁ ++ u₁, u₂, x, by simp, .step h₁.runs hi, ?_, hb⟩
  exact Env.run_append_eq_some.mpr ⟨v, h₁.run, hx⟩

theorem Exec.loop_exit {body : σ → Prog C R (σ ⊕ β)} {s : σ} {b : β}
    (h : Exec E w (body s) tr (.inr b) w') : Exec E w (loop body s) tr b w' :=
  exec_loop_iff.mpr ⟨s, [], tr, w, rfl, .refl s, rfl, h⟩

/-- A loop does not return if no iteration can leave it. -/
theorem not_exec_loop {body : σ → Prog C R (σ ⊕ β)}
    (h : ∀ s w t b w', ¬ Exec E w (body s) t (.inr b) w') {s : σ} {b : β} :
    ¬ Exec E w (loop body s) tr b w' := fun he => by
  obtain ⟨s', _, t, v, _, _, _, hb⟩ := exec_loop_iff.mp he
  exact h s' v t b w' hb

/-! ### Outcomes -/

/-- The program can return `a` and leave the environment in `w'`. -/
def Yields (E : Env C R W) (w : W) (p : Prog C R α) (a : α) (w' : W) : Prop :=
  ∃ tr, Exec E w p tr a w'

@[simp] theorem yields_ret {a b : α} : Yields E w (Prog.ret a) b w' ↔ b = a ∧ w' = w := by
  simp [Yields, exec_ret_iff, eq_comm]

theorem yields_bind {p : Prog C R α} {f : α → Prog C R β} {b : β} :
    Yields E w (p.bind f) b w' ↔ ∃ a v, Yields E w p a v ∧ Yields E v (f a) b w' := by
  constructor
  · rintro ⟨_, h⟩
    obtain ⟨t₁, t₂, a, v, rfl, h₁, h₂⟩ := exec_bind_iff.mp h
    exact ⟨a, v, ⟨t₁, h₁⟩, t₂, h₂⟩
  · rintro ⟨a, v, ⟨t₁, h₁⟩, t₂, h₂⟩
    exact ⟨t₁ ++ t₂, h₁.bind h₂⟩

@[simp] theorem yields_perform_bind {c : C} {f : R c → Prog C R β} {b : β} :
    Yields E w ((perform c).bind f) b w' ↔
      ∃ r v, E w ⟨c, r⟩ = some v ∧ Yields E v (f r) b w' := by
  constructor
  · rintro ⟨_, h⟩
    obtain ⟨r, t, v, rfl, hr, h₁⟩ := exec_perform_bind_iff.mp h
    exact ⟨r, v, hr, t, h₁⟩
  · rintro ⟨r, v, hr, t, h⟩
    exact ⟨_, .perform_bind hr h⟩

/-! ### Calls -/

/-- Every call that the program comes to satisfies `P`, as long as the environment allows the
answers. -/
def Within (E : Env C R W) (w : W) (P : C → Prop) (p : Prog C R α) : Prop :=
  ∀ tr w' c, p.Performs tr c → E.run w tr = some w' → P c

@[simp] theorem within_ret {P : C → Prop} {a : α} : Within E w P (Prog.ret a) ↔ True :=
  iff_true_intro fun _ _ _ h _ => h.elim

@[simp] theorem within_perform_bind {P : C → Prop} {c : C} {f : R c → Prog C R β} :
    Within E w P ((perform c).bind f) ↔
      P c ∧ ∀ r v, E w ⟨c, r⟩ = some v → Within E v P (f r) := by
  constructor
  · intro h
    refine ⟨h [] w c (.inl ⟨rfl, rfl⟩) rfl, fun r v hr tr w' c' hp hw => ?_⟩
    exact h (⟨c, r⟩ :: tr) w' c' (.inr ⟨r, tr, rfl, hp⟩) (Env.run_cons_eq_some.mpr ⟨v, hr, hw⟩)
  · rintro ⟨hc, h⟩ tr w' c' (⟨rfl, rfl⟩ | ⟨r, tr, rfl, hp⟩) hw
    · exact hc
    · obtain ⟨v, hr, hw⟩ := Env.run_cons_eq_some.mp hw
      exact h r v hr tr w' c' hp hw

/-! ### Blocking -/

section Blocks

variable {c : C}

theorem Blocks.perform_bind_now {f : R c → Prog C R β} (h : ∀ r, E w ⟨c, r⟩ = none) :
    Blocks E w ((perform c).bind f) c :=
  ⟨[], w, (performs_perform_bind _ _ _ _).mpr (.inl ⟨rfl, rfl⟩), rfl, h⟩

theorem Blocks.bind_left {p : Prog C R α} {f : α → Prog C R β} (h : Blocks E w p c) :
    Blocks E w (p.bind f) c := by
  obtain ⟨t, v, hp, hv, hc⟩ := h
  exact ⟨t, v, (performs_bind _ _ _ _).mpr (.inl hp), hv, hc⟩

theorem Blocks.bind_right {p : Prog C R α} {f : α → Prog C R β} {a : α} {v : W}
    (h₁ : Exec E w p tr a v) (h₂ : Blocks E v (f a) c) : Blocks E w (p.bind f) c := by
  obtain ⟨t, u, hp, hu, hc⟩ := h₂
  exact ⟨tr ++ t, u, (performs_bind _ _ _ _).mpr (.inr ⟨tr, t, a, rfl, h₁.runs, hp⟩),
    Env.run_append_eq_some.mpr ⟨v, h₁.run, hu⟩, hc⟩

theorem Blocks.loop_body {body : σ → Prog C R (σ ⊕ β)} {s : σ} (h : Blocks E w (body s) c) :
    Blocks E w (loop body s) c := by
  obtain ⟨t, v, hp, hv, hc⟩ := h
  exact ⟨t, v, (performs_loop _ _ _ _).mpr ⟨s, [], t, rfl, .refl s, hp⟩, hv, hc⟩

theorem Blocks.loop_again {body : σ → Prog C R (σ ⊕ β)} {s t : σ} {v : W}
    (h₁ : Exec E w (body s) tr (.inl t) v) (h₂ : Blocks E v (loop body t) c) :
    Blocks E w (loop body s) c := by
  obtain ⟨u, x, hp, hx, hc⟩ := h₂
  obtain ⟨s', t₁, t₂, rfl, hi, hb⟩ := (performs_loop _ _ _ _).mp hp
  exact ⟨tr ++ (t₁ ++ t₂), x, (performs_loop _ _ _ _).mpr
    ⟨s', tr ++ t₁, t₂, by simp, .step h₁.runs hi, hb⟩,
    Env.run_append_eq_some.mpr ⟨v, h₁.run, hx⟩, hc⟩

end Blocks

end Interact
