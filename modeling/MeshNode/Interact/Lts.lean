import Mathlib.Data.List.Basic
import Mathlib.Order.Basic
import Mathlib.Tactic.Common

/-!
# Runs of a labelled transition system

* `Lts`, `Lts.Run`: transition systems and their finite runs;
* `Run.append`, `run_append_iff`: runs one after another;
* `Lts.such`: the system restricted to some of its steps;
* **`Run.invariant`**: what every step keeps, every run keeps;
* **`Run.simulate`**, `Run.project`: where every step is matched by a run of another system, every
  run is;
* `Run.such`: what holds of the labels and at the end of a run holds of its steps.
-/

namespace Interact

/-- A labelled transition system: a state, a label, a next state. -/
abbrev Lts (A S : Type) := S → A → S → Prop

namespace Lts

variable {A B S T : Type}

/-- The finite runs, with their labels. -/
inductive Run (L : Lts A S) : S → List A → S → Prop
  | nil (s : S) : Run L s [] s
  | cons {s t u : S} {a : A} {as : List A} : L s a t → Run L t as u → Run L s (a :: as) u

/-- The steps of `L` that satisfy `G`. -/
def such (L : Lts A S) (G : S → A → S → Prop) : Lts A S := fun s a t => G s a t ∧ L s a t

variable {L : Lts A S} {s t u : S} {a : A} {as bs : List A}

@[simp] theorem run_nil_iff : L.Run s [] t ↔ t = s := by
  constructor
  · rintro ⟨⟩
    rfl
  · rintro rfl
    exact .nil _

theorem run_cons_iff : L.Run s (a :: as) u ↔ ∃ t, L s a t ∧ L.Run t as u := by
  constructor
  · rintro (_ | ⟨h, h'⟩)
    exact ⟨_, h, h'⟩
  · rintro ⟨t, h, h'⟩
    exact .cons h h'

theorem run_singleton_iff : L.Run s [a] t ↔ L s a t := by
  rw [run_cons_iff]
  constructor
  · rintro ⟨u, h, hu⟩
    exact run_nil_iff.mp hu ▸ h
  · exact fun h => ⟨t, h, .nil t⟩

namespace Run

theorem single (h : L s a t) : L.Run s [a] t := .cons h (.nil _)

theorem append (h : L.Run s as t) (h' : L.Run t bs u) : L.Run s (as ++ bs) u := by
  induction h with
  | nil => exact h'
  | cons ha _ ih => exact .cons ha (ih h')

theorem mono {K : Lts A S} (hLK : ∀ s a t, L s a t → K s a t) (h : L.Run s as t) :
    K.Run s as t := by
  induction h with
  | nil => exact .nil _
  | cons ha _ ih => exact .cons (hLK _ _ _ ha) ih

/-- **What every step keeps, every run keeps.** -/
theorem invariant {I : S → Prop} (hI : ∀ s a t, I s → L s a t → I t) (h : L.Run s as t)
    (hs : I s) : I t := by
  induction h with
  | nil => exact hs
  | cons ha _ ih => exact ih (hI _ _ _ hs ha)

/-- An order that every step respects, every run respects. -/
theorem le {α : Type} [Preorder α] {f : S → α} (hf : ∀ s a t, L s a t → f s ≤ f t)
    (h : L.Run s as t) : f s ≤ f t := by
  induction h with
  | nil => exact le_refl _
  | cons ha _ ih => exact (hf _ _ _ ha).trans ih

/-- **Simulation.** Where every step from related states is matched by a run of `K`, with labels
related by `Q`, every run of `L` is matched by a run of `K`. -/
theorem simulate {K : Lts B T} {R : S → T → Prop} {Q : A → List B → Prop}
    (hstep : ∀ s a t x, R s x → L s a t → ∃ bs y, K.Run x bs y ∧ R t y ∧ Q a bs) {x : T}
    (h : L.Run s as t) (hR : R s x) :
    ∃ bss y, K.Run x bss.flatten y ∧ R t y ∧ List.Forall₂ Q as bss := by
  induction h generalizing x with
  | nil => exact ⟨[], x, .nil _, hR, .nil⟩
  | cons ha _ ih =>
    obtain ⟨bs, y, hbs, hy, hq⟩ := hstep _ _ _ x hR ha
    obtain ⟨bss, z, hbss, hz, hqs⟩ := ih hy
    exact ⟨bs :: bss, z, hbs.append hbss, hz, .cons hq hqs⟩

/-- Where every step is a run of another system that its label determines, every run is. -/
theorem project {K : Lts B T} {f : S → T} {g : A → List B} {I : S → Prop}
    (hI : ∀ s a t, I s → L s a t → I t ∧ K.Run (f s) (g a) (f t)) (h : L.Run s as t) (hs : I s) :
    I t ∧ K.Run (f s) (as.flatMap g) (f t) := by
  induction h with
  | nil => exact ⟨hs, .nil _⟩
  | cons ha _ ih =>
    obtain ⟨ht, hr⟩ := hI _ _ _ hs ha
    obtain ⟨hu, hr'⟩ := ih ht
    exact ⟨hu, hr.append hr'⟩

/-- A run whose labels satisfy `P`, and which ends below `b` in an order that every step respects,
is a run whose steps all do. -/
theorem such {α : Type} [Preorder α] {f : S → α} (hf : ∀ s a t, L s a t → f s ≤ f t) {P : A → Prop}
    {b : α} (h : L.Run s as t) (hP : ∀ a ∈ as, P a) (hb : f t ≤ b) :
    (L.such fun _ a u => P a ∧ f u ≤ b).Run s as t := by
  induction h with
  | nil => exact .nil _
  | cons ha h' ih =>
    obtain ⟨hpa, hP⟩ := List.forall_mem_cons.mp hP
    exact .cons ⟨⟨hpa, (h'.le hf).trans hb⟩, ha⟩ (ih hP hb)

end Run

theorem run_append_iff : L.Run s (as ++ bs) u ↔ ∃ t, L.Run s as t ∧ L.Run t bs u := by
  constructor
  · intro h
    induction as generalizing s with
    | nil => exact ⟨s, .nil _, h⟩
    | cons a as ih =>
      obtain ⟨t, ha, h⟩ := run_cons_iff.mp h
      obtain ⟨v, hv, h⟩ := ih h
      exact ⟨v, .cons ha hv, h⟩
  · rintro ⟨t, h, h'⟩
    exact h.append h'

/-- A run whose labels allow all steps is a run of the restricted system. -/
theorem Run.to_such {G : S → A → S → Prop} (h : L.Run s as t) (hG : ∀ a ∈ as, ∀ s t, G s a t) :
    (L.such G).Run s as t := by
  induction h with
  | nil => exact .nil _
  | cons ha _ ih =>
    obtain ⟨hGa, hG⟩ := List.forall_mem_cons.mp hG
    exact .cons ⟨hGa _ _, ha⟩ (ih hG)

/-- A run of the restricted system is a run whose steps are all among those. -/
theorem Run.of_such {G : S → A → S → Prop} (h : (L.such G).Run s as t) : L.Run s as t :=
  h.mono fun _ _ _ h => h.2

end Lts

end Interact
