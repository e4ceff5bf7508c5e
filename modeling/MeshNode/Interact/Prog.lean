import Mathlib.Data.List.Basic
import Mathlib.Tactic.Common

/-!
# Interaction programs

A program over an interface of calls `C` performs calls one after another; the surroundings answer
a call `c` with some `r : R c`. Loops are part of the syntax, so a program need not terminate.

* `Prog`, `Prog.bind`, `Prog.perform`, `Prog.loop`: the syntax and its monad;
* `Iter`: chains of loop iterations that ask for another one;
* `Prog.Runs p tr a`: the program can return `a` after the calls and answers `tr`;
* `Prog.Performs p tr c`: after `tr` the program performs the call `c`, answered or not;
* `Prog.Iterates body s tr s'`: after `tr` the loop is about to start an iteration in state `s'`;
* `Prog.Uses P p`: every call in the text of `p` satisfies `P`, and **`Uses.performs`**: then so
  does every call `p` ever performs; `Uses.forall_mem_of_runs`: and every answered one.
-/

namespace Interact

/-- Programs over the calls `C`, answered in `R`. -/
inductive Prog (C : Type) (R : C → Type) : Type → Type 1
  | ret {α : Type} (a : α) : Prog C R α
  | call {α : Type} (c : C) (k : R c → Prog C R α) : Prog C R α
  | iter {σ β α : Type} (body : σ → Prog C R (σ ⊕ β)) (s : σ) (k : β → Prog C R α) : Prog C R α

/-- A call together with the answer it got. -/
abbrev Event (C : Type) (R : C → Type) := Σ c, R c

abbrev Trace (C : Type) (R : C → Type) := List (Event C R)

/-- A chain of iterations of the one-step relation `S`, each asking for the next one by `inl`. -/
inductive Iter {σ β E : Type} (S : σ → List E → σ ⊕ β → Prop) : σ → List E → σ → Prop
  | refl (s) : Iter S s [] s
  | step {s t u tr tr'} : S s tr (.inl t) → Iter S t tr' u → Iter S s (tr ++ tr') u

/-- What holds of the entries of every iteration holds of the entries of a chain. -/
theorem Iter.forall_mem {σ β E : Type} {S : σ → List E → σ ⊕ β → Prop} {Q : E → Prop}
    (h : ∀ s tr x, S s tr x → ∀ e ∈ tr, Q e) {s t : σ} {tr : List E} (hi : Iter S s tr t) :
    ∀ e ∈ tr, Q e := by
  induction hi with
  | refl => simp
  | step hs _ ih => exact List.forall_mem_append.mpr ⟨h _ _ _ hs, ih⟩

namespace Prog

variable {C : Type} {R : C → Type} {α β σ : Type}

def bind {α β : Type} : Prog C R α → (α → Prog C R β) → Prog C R β
  | ret a, f => f a
  | call c k, f => call c fun r => (k r).bind f
  | iter body s k, f => iter body s fun b => (k b).bind f

instance : Monad (Prog C R) where
  pure := ret
  bind := bind

/-- Perform one call and return its answer. -/
def perform (c : C) : Prog C R (R c) := call c ret

/-- Iterate `body`: `inl` starts another iteration, `inr` leaves the loop. -/
def loop (body : σ → Prog C R (σ ⊕ β)) (s : σ) : Prog C R β := iter body s ret

@[simp] theorem pure_eq (a : α) : (pure a : Prog C R α) = ret a := rfl

@[simp] theorem bind_eq (p : Prog C R α) (f : α → Prog C R β) : p >>= f = p.bind f := rfl

/-- **The complete runs of a program**: returned value and the calls with their answers. -/
def Runs {α : Type} : Prog C R α → Trace C R → α → Prop
  | ret a, tr, b => tr = [] ∧ a = b
  | call c k, tr, b => ∃ r tr', tr = ⟨c, r⟩ :: tr' ∧ Runs (k r) tr' b
  | iter body s k, tr, b => ∃ s' x t₁ t₂ t₃, tr = t₁ ++ (t₂ ++ t₃) ∧
      Iter (fun s t x => Runs (body s) t x) s t₁ s' ∧ Runs (body s') t₂ (.inr x) ∧ Runs (k x) t₃ b

/-- The loop with body `body`, started in `s`, begins an iteration in `s'` after `tr`. -/
def Iterates (body : σ → Prog C R (σ ⊕ β)) (s : σ) (tr : Trace C R) (s' : σ) : Prop :=
  Iter (fun s t x => (body s).Runs t x) s tr s'

/-- **The calls a program performs**, in complete, unfinished and non-terminating executions. -/
def Performs {α : Type} : Prog C R α → Trace C R → C → Prop
  | ret _, _, _ => False
  | call c k, tr, c' => (tr = [] ∧ c = c') ∨ ∃ r tr', tr = ⟨c, r⟩ :: tr' ∧ Performs (k r) tr' c'
  | iter body s k, tr, c' => ∃ s' t₁ t₂, tr = t₁ ++ t₂ ∧ Iterates body s t₁ s' ∧
      (Performs (body s') t₂ c' ∨ ∃ x t₃ t₄, t₂ = t₃ ++ t₄ ∧ (body s').Runs t₃ (.inr x) ∧
        Performs (k x) t₄ c')

/-! ### Complete runs -/

@[simp] theorem runs_ret (a b : α) (tr : Trace C R) :
    (ret a : Prog C R α).Runs tr b ↔ tr = [] ∧ a = b := Iff.rfl

theorem runs_call (c : C) (k : R c → Prog C R α) (tr : Trace C R) (b : α) :
    (call c k).Runs tr b ↔ ∃ r tr', tr = ⟨c, r⟩ :: tr' ∧ (k r).Runs tr' b := Iff.rfl

@[simp] theorem runs_perform (c : C) (tr : Trace C R) (r : R c) :
    (perform c).Runs tr r ↔ tr = [⟨c, r⟩] := by
  simp only [perform, runs_call, runs_ret]
  constructor
  · rintro ⟨_, _, rfl, rfl, rfl⟩; rfl
  · rintro rfl; exact ⟨r, [], rfl, rfl, rfl⟩

theorem runs_bind (p : Prog C R α) (f : α → Prog C R β) (tr : Trace C R) (b : β) :
    (p.bind f).Runs tr b ↔ ∃ t₁ t₂ a, tr = t₁ ++ t₂ ∧ p.Runs t₁ a ∧ (f a).Runs t₂ b := by
  induction p generalizing tr with
  | ret a => simp [bind]
  | call c k ih =>
    simp only [bind, runs_call, ih]
    constructor
    · rintro ⟨r, tr', rfl, t₁, t₂, a, rfl, h₁, h₂⟩
      exact ⟨⟨c, r⟩ :: t₁, t₂, a, rfl, ⟨r, t₁, rfl, h₁⟩, h₂⟩
    · rintro ⟨t₁, t₂, a, rfl, ⟨r, t, rfl, h₁⟩, h₂⟩
      exact ⟨r, t ++ t₂, rfl, t, t₂, a, rfl, h₁, h₂⟩
  | iter body s k ihb ih =>
    simp only [bind, Runs, ih]
    constructor
    · rintro ⟨s', x, t₁, t₂, t₃, rfl, hi, hb, u, v, a, rfl, h₁, h₂⟩
      exact ⟨t₁ ++ (t₂ ++ u), v, a, by simp, ⟨s', x, t₁, t₂, u, rfl, hi, hb, h₁⟩, h₂⟩
    · rintro ⟨t, t', a, rfl, ⟨s', x, t₁, t₂, u, rfl, hi, hb, h₁⟩, h₂⟩
      exact ⟨s', x, t₁, t₂, u ++ t', by simp, hi, hb, u, t', a, rfl, h₁, h₂⟩

/-- A run, and one of what follows it. -/
theorem exists_runs_bind {p : Prog C R α} {f : α → Prog C R β} {tr : Trace C R} {a : α}
    (hp : p.Runs tr a) (hf : ∃ t b, (f a).Runs t b) : ∃ t b, (p.bind f).Runs t b := by
  obtain ⟨t, b, hb⟩ := hf
  exact ⟨tr ++ t, b, (runs_bind p f _ b).mpr ⟨tr, t, a, rfl, hp, hb⟩⟩

/-- Performing a call and going on with its answer. -/
@[simp] theorem runs_perform_bind (c : C) (f : R c → Prog C R β) (tr : Trace C R) (b : β) :
    ((perform c).bind f).Runs tr b ↔ ∃ r tr', tr = ⟨c, r⟩ :: tr' ∧ (f r).Runs tr' b := Iff.rfl

theorem bind_ret (p : Prog C R α) : p.bind ret = p := by
  induction p with
  | ret a => rfl
  | call c k ih => exact congrArg (call c) (funext ih)
  | iter body s k _ ih => exact congrArg (iter body s) (funext ih)

theorem bind_assoc {γ : Type} (p : Prog C R α) (f : α → Prog C R β) (g : β → Prog C R γ) :
    (p.bind f).bind g = p.bind fun a => (f a).bind g := by
  induction p with
  | ret a => rfl
  | call c k ih => exact congrArg (call c) (funext fun r => ih r f)
  | iter body s k _ ih => exact congrArg (iter body s) (funext fun b => ih b f)

theorem runs_loop (body : σ → Prog C R (σ ⊕ β)) (s : σ) (tr : Trace C R) (b : β) :
    (loop body s).Runs tr b ↔
      ∃ s' t₁ t₂, tr = t₁ ++ t₂ ∧ Iterates body s t₁ s' ∧ (body s').Runs t₂ (.inr b) := by
  simp only [loop, Runs]
  constructor
  · rintro ⟨s', x, t₁, t₂, t₃, rfl, hi, hb, rfl, rfl⟩
    exact ⟨s', t₁, t₂, by simp, hi, hb⟩
  · rintro ⟨s', t₁, t₂, rfl, hi, hb⟩
    exact ⟨s', b, t₁, t₂, [], by simp, hi, hb, rfl, rfl⟩

/-! ### Performed calls -/

@[simp] theorem performs_ret (a : α) (tr : Trace C R) (c : C) :
    (ret a : Prog C R α).Performs tr c ↔ False := Iff.rfl

theorem performs_bind (p : Prog C R α) (f : α → Prog C R β) (tr : Trace C R) (c : C) :
    (p.bind f).Performs tr c ↔ p.Performs tr c ∨
      ∃ t₁ t₂ a, tr = t₁ ++ t₂ ∧ p.Runs t₁ a ∧ (f a).Performs t₂ c := by
  induction p generalizing tr with
  | ret a => simp [bind]
  | call c' k ih =>
    simp only [bind, Performs, runs_call, ih]
    constructor
    · rintro (h | ⟨r, tr', rfl, h | ⟨t₁, t₂, a, rfl, h₁, h₂⟩⟩)
      · exact .inl (.inl h)
      · exact .inl (.inr ⟨r, tr', rfl, h⟩)
      · exact .inr ⟨⟨c', r⟩ :: t₁, t₂, a, rfl, ⟨r, t₁, rfl, h₁⟩, h₂⟩
    · rintro ((h | ⟨r, tr', rfl, h⟩) | ⟨t₁, t₂, a, rfl, ⟨r, t, rfl, h₁⟩, h₂⟩)
      · exact .inl h
      · exact .inr ⟨r, tr', rfl, .inl h⟩
      · exact .inr ⟨r, t ++ t₂, rfl, .inr ⟨t, t₂, a, rfl, h₁, h₂⟩⟩
  | iter body s k ihb ih =>
    simp only [bind, Performs, Runs, ih]
    constructor
    · rintro ⟨s', t₁, t₂, rfl, hi, h | ⟨x, t₃, t₄, rfl, hb, h | ⟨u, v, a, rfl, h₁, h₂⟩⟩⟩
      · exact .inl ⟨s', t₁, t₂, rfl, hi, .inl h⟩
      · exact .inl ⟨s', t₁, t₃ ++ t₄, rfl, hi, .inr ⟨x, t₃, t₄, rfl, hb, h⟩⟩
      · exact .inr ⟨t₁ ++ (t₃ ++ u), v, a, by simp, ⟨s', x, t₁, t₃, u, rfl, hi, hb, h₁⟩, h₂⟩
    · rintro (⟨s', t₁, t₂, rfl, hi, h | ⟨x, t₃, t₄, rfl, hb, h⟩⟩ |
        ⟨u, v, a, rfl, ⟨s', x, t₁, t₃, w, rfl, hi, hb, h₁⟩, h₂⟩)
      · exact ⟨s', t₁, t₂, rfl, hi, .inl h⟩
      · exact ⟨s', t₁, t₃ ++ t₄, rfl, hi, .inr ⟨x, t₃, t₄, rfl, hb, .inl h⟩⟩
      · exact ⟨s', t₁, t₃ ++ (w ++ v), by simp, hi,
          .inr ⟨x, t₃, w ++ v, rfl, hb, .inr ⟨w, v, a, rfl, h₁, h₂⟩⟩⟩

@[simp] theorem performs_perform_bind (c c' : C) (f : R c → Prog C R β) (tr : Trace C R) :
    ((perform c).bind f).Performs tr c' ↔
      (tr = [] ∧ c = c') ∨ ∃ r tr', tr = ⟨c, r⟩ :: tr' ∧ (f r).Performs tr' c' := Iff.rfl

theorem performs_loop (body : σ → Prog C R (σ ⊕ β)) (s : σ) (tr : Trace C R) (c : C) :
    (loop body s).Performs tr c ↔
      ∃ s' t₁ t₂, tr = t₁ ++ t₂ ∧ Iterates body s t₁ s' ∧ (body s').Performs t₂ c := by
  simp [loop, Performs]

/-! ### The calls in the text of a program -/

/-- Every call in the text of the program satisfies `P`, whatever the answers and loop states. -/
def Uses (P : C → Prop) {α : Type} : Prog C R α → Prop
  | ret _ => True
  | call c k => P c ∧ ∀ r, Uses P (k r)
  | iter body _ k => (∀ s, Uses P (body s)) ∧ ∀ b, Uses P (k b)

variable {P : C → Prop}

theorem uses_bind {p : Prog C R α} {f : α → Prog C R β} (hp : Uses P p) (hf : ∀ a, Uses P (f a)) :
    Uses P (p.bind f) := by
  induction p with
  | ret a => exact hf a
  | call c k ih => exact ⟨hp.1, fun r => ih r (hp.2 r) hf⟩
  | iter body s k _ ih => exact ⟨hp.1, fun b => ih b (hp.2 b) hf⟩

theorem uses_perform_bind {c : C} {f : R c → Prog C R α} (hc : P c) (hf : ∀ r, Uses P (f r)) :
    Uses P ((perform c).bind f) := ⟨hc, hf⟩

theorem uses_ite {b : Prop} [Decidable b] {p q : Prog C R α} (hp : Uses P p) (hq : Uses P q) :
    Uses P (if b then p else q) := by
  split_ifs <;> assumption

theorem uses_loop {body : σ → Prog C R (σ ⊕ β)} (h : ∀ s, Uses P (body s)) (s : σ) :
    Uses P (loop body s) := ⟨h, fun _ => trivial⟩

theorem Uses.imp {Q : C → Prop} (h : ∀ c, P c → Q c) {p : Prog C R α} (hp : Uses P p) :
    Uses Q p := by
  induction p with
  | ret a => trivial
  | call c k ih => exact ⟨h c hp.1, fun r => ih r (hp.2 r)⟩
  | iter body s k ihb ih => exact ⟨fun s => ihb s (hp.1 s), fun b => ih b (hp.2 b)⟩

/-- **Every call a program performs is one of its text.** -/
theorem Uses.performs {p : Prog C R α} (hp : Uses P p) {tr : Trace C R} {c : C}
    (h : p.Performs tr c) : P c := by
  induction p generalizing tr with
  | ret a => exact h.elim
  | call c' k ih =>
    rcases h with ⟨_, rfl⟩ | ⟨r, tr', _, h⟩
    · exact hp.1
    · exact ih r (hp.2 r) h
  | iter body s k ihb ih =>
    obtain ⟨s', t₁, t₂, _, _, h | ⟨x, t₃, t₄, _, _, h⟩⟩ := h
    · exact ihb s' (hp.1 s') h
    · exact ih x (hp.2 x) h

/-- Every call answered in a complete run is one of the text. -/
theorem Uses.forall_mem_of_runs {p : Prog C R α} (hp : Uses P p) {tr : Trace C R} {a : α}
    (h : p.Runs tr a) : ∀ e ∈ tr, P e.1 := by
  induction p generalizing tr with
  | ret b =>
    obtain ⟨rfl, -⟩ := h
    simp
  | call c k ih =>
    obtain ⟨r, t, rfl, h⟩ := h
    exact List.forall_mem_cons.mpr ⟨hp.1, ih r (hp.2 r) h⟩
  | iter body s k ihb ih =>
    obtain ⟨s', x, t₁, t₂, t₃, rfl, hi, hb, hk⟩ := h
    have hi : ∀ e ∈ t₁, P e.1 := hi.forall_mem fun s t x h₁ => ihb s (hp.1 s) h₁
    exact List.forall_mem_append.mpr
      ⟨hi, List.forall_mem_append.mpr ⟨ihb _ (hp.1 _) hb, ih x (hp.2 x) hk⟩⟩

/-- Every call answered before a performed one is one of the text. -/
theorem Uses.forall_mem_of_performs {p : Prog C R α} (hp : Uses P p) {tr : Trace C R} {c : C}
    (h : p.Performs tr c) : ∀ e ∈ tr, P e.1 := by
  induction p generalizing tr with
  | ret b => exact h.elim
  | call c k ih =>
    rcases h with ⟨rfl, -⟩ | ⟨r, t, rfl, h⟩
    · simp
    · exact List.forall_mem_cons.mpr ⟨hp.1, ih r (hp.2 r) h⟩
  | iter body s k ihb ih =>
    obtain ⟨s', t₁, t₂, rfl, hi, h⟩ := h
    have hi : ∀ e ∈ t₁, P e.1 := hi.forall_mem fun s t x h₁ => (hp.1 s).forall_mem_of_runs h₁
    rcases h with h | ⟨x, t₃, t₄, rfl, hb, hk⟩
    · exact List.forall_mem_append.mpr ⟨hi, ihb _ (hp.1 _) h⟩
    · exact List.forall_mem_append.mpr ⟨hi, List.forall_mem_append.mpr
        ⟨(hp.1 _).forall_mem_of_runs hb, ih x (hp.2 x) hk⟩⟩

end Prog

end Interact
