import Mathlib.Data.List.Induction
import Mathlib.Logic.Function.Basic

/-!
# Lookups and assignments

* **`find?_eq_of_perm`**: where at most one entry of a table passes a test, the order of the table
  does not matter;
* `assign f ws`: assignments to variables, one after the other; `assign_append`;
* `assign_of_forall_ne`: a variable nothing is assigned to, **`assign_apply`**: the last one wins;
* **`assign_perm`**: assignments that agree can be made in any order;
* `view_foldl`: a view that every step of a fold sets or leaves shows what was set last.
-/

namespace Keyed

variable {α β : Type}

/-- **The order of a table does not matter** for a test that at most one entry passes. -/
theorem find?_eq_of_perm {l l' : List α} {p : α → Bool} (h : l.Perm l')
    (hu : ∀ a ∈ l, ∀ b ∈ l, p a = true → p b = true → a = b) : l.find? p = l'.find? p := by
  cases hl : l.find? p with
  | none =>
    refine (List.find?_eq_none.mpr fun a ha => ?_).symm
    exact List.find?_eq_none.mp hl a (h.mem_iff.mpr ha)
  | some a =>
    have ha := List.mem_of_find?_eq_some hl
    have hp := List.find?_some hl
    cases hl' : l'.find? p with
    | none => exact absurd hp (List.find?_eq_none.mp hl' a (h.mem_iff.mp ha))
    | some b =>
      have hb := h.mem_iff.mpr (List.mem_of_find?_eq_some hl')
      rw [hu a ha b hb hp (List.find?_some hl')]

/-! ### Assignments -/

variable [DecidableEq α] {f : α → β} {x : α} {ws ws' : List (α × β)}

/-- Make assignments in their order. -/
def assign (f : α → β) (ws : List (α × β)) : α → β :=
  ws.foldl (fun f w => Function.update f w.1 w.2) f

@[simp] theorem assign_nil (f : α → β) : assign f [] = f := rfl

@[simp] theorem assign_cons (f : α → β) (w : α × β) (ws : List (α × β)) :
    assign f (w :: ws) = assign (Function.update f w.1 w.2) ws := rfl

theorem assign_append (f : α → β) (ws ws' : List (α × β)) :
    assign f (ws ++ ws') = assign (assign f ws) ws' := List.foldl_append

/-- The value depends on the value before only. -/
theorem assign_congr {g : α → β} (h : f x = g x) (ws : List (α × β)) :
    assign f ws x = assign g ws x := by
  induction ws generalizing f g with
  | nil => exact h
  | cons w ws ih =>
    rw [assign_cons, assign_cons]
    refine ih ?_
    by_cases hx : x = w.1
    · rw [hx, Function.update_self, Function.update_self]
    · rw [Function.update_of_ne hx, Function.update_of_ne hx, h]

theorem assign_of_forall_ne (h : ∀ w ∈ ws, w.1 ≠ x) : assign f ws x = f x := by
  induction ws generalizing f with
  | nil => rfl
  | cons w ws ih =>
    obtain ⟨hw, hws⟩ := List.forall_mem_cons.mp h
    rw [assign_cons, ih hws, Function.update_of_ne hw.symm]

/-- **The last assignment wins.** -/
theorem assign_apply (f : α → β) (ws : List (α × β)) (x : α) :
    assign f ws x = (((ws.filter (·.1 = x)).getLast?).map Prod.snd).getD (f x) := by
  induction ws using List.reverseRecOn with
  | nil => rfl
  | append_singleton ws w ih =>
    rw [assign_append, assign_cons, assign_nil, List.filter_append]
    by_cases hw : w.1 = x
    · subst hw
      simp
    · rw [Function.update_of_ne (Ne.symm hw), ih]
      simp [hw]

/-- Assignments that agree on a variable give it their value. -/
theorem assign_of_agree {v : β} (h : ∀ w ∈ ws, w.1 = x → w.2 = v) (hx : ∃ w ∈ ws, w.1 = x) :
    assign f ws x = v := by
  rw [assign_apply]
  obtain ⟨w, hw, rfl⟩ := hx
  cases hl : (ws.filter (·.1 = w.1)).getLast? with
  | none =>
    have := List.getLast?_eq_none_iff.mp hl
    exact absurd (List.mem_filter.mpr ⟨hw, by simp⟩) (this ▸ List.not_mem_nil)
  | some u =>
    have hu := List.mem_filter.mp (List.mem_of_getLast? hl)
    exact h u hu.1 (by simpa using hu.2)

/-- **Assignments that agree can be made in any order.** -/
theorem assign_perm (h : ws.Perm ws')
    (hagree : ∀ w ∈ ws, ∀ w' ∈ ws, w.1 = w'.1 → w.2 = w'.2) (f : α → β) :
    assign f ws = assign f ws' := by
  funext x
  by_cases hx : ∃ w ∈ ws, w.1 = x
  · obtain ⟨w, hw, rfl⟩ := hx
    rw [assign_of_agree (fun u hu e => hagree u hu w hw e) ⟨w, hw, rfl⟩,
      assign_of_agree (fun u hu e => hagree u (h.mem_iff.mpr hu) w hw e)
        ⟨w, h.mem_iff.mp hw, rfl⟩]
  · have hne : ∀ w ∈ ws, w.1 ≠ x := fun w hw e => hx ⟨w, hw, e⟩
    rw [assign_of_forall_ne hne, assign_of_forall_ne fun w hw => hne w (h.mem_iff.mpr hw)]

omit [DecidableEq α] in
/-- **What was set last is seen.** -/
theorem view_foldl {γ : Type} {step : β → α → β} {v : β → γ} {sets : α → Option γ}
    (h : ∀ b a, v (step b a) = (sets a).getD (v b)) (l : List α) (b : β) :
    v (l.foldl step b) = ((l.filterMap sets).getLast?).getD (v b) := by
  induction l using List.reverseRecOn with
  | nil => rfl
  | append_singleton l a ih =>
    rw [List.foldl_append, List.foldl_cons, List.foldl_nil, h, List.filterMap_append]
    cases ha : sets a with
    | none => simpa [ha] using ih
    | some c => simp [ha]

end Keyed
