import Mathlib.Data.List.Basic
import Mathlib.Tactic.Common

/-!
# The lexicographic order, block by block

Lists of equal length are compared from the left. When both are cut in the same way, or every
letter is replaced by a code of a fixed length, the order can be read off the blocks.

* **`append_lt_append_iff`**: the order of two lists with a first block of equal length;
* **`flatMap_lt_iff`**, `flatMap_eq_iff`: a strictly monotone code of fixed length keeps the order
  and loses nothing;
* **`compare_eq_lt_iff`**: the order as the result of a comparison.
-/

namespace LexBlocks

section Order

variable {α β : Type} [LT α] [LT β]

/-- **The first block decides**, or is the same and the rest decides. -/
theorem append_lt_append_iff {xs ys s t : List α} (h : xs.length = ys.length) :
    xs ++ s < ys ++ t ↔ xs < ys ∨ xs = ys ∧ s < t := by
  induction xs generalizing ys with
  | nil =>
    obtain rfl : ys = [] := List.length_eq_zero_iff.mp h.symm
    simp
  | cons x xs ih =>
    cases ys with
    | nil => simp at h
    | cons y ys =>
      rw [List.cons_append, List.cons_append, List.cons_lt_cons_iff, List.cons_lt_cons_iff,
        ih (Nat.succ.inj h), List.cons_eq_cons]
      tauto

/-! ### Codes of fixed length -/

variable {f : α → List β} {k : ℕ}

omit [LT α] [LT β] in
/-- Equal codes are codes of equal lists. -/
theorem flatMap_eq_iff (hlen : ∀ a, (f a).length = k) (hf : Function.Injective f) {xs ys : List α}
    (h : xs.length = ys.length) : xs.flatMap f = ys.flatMap f ↔ xs = ys := by
  induction xs generalizing ys with
  | nil =>
    obtain rfl : ys = [] := List.length_eq_zero_iff.mp h.symm
    simp
  | cons x xs ih =>
    cases ys with
    | nil => simp at h
    | cons y ys =>
      have hxy : (f x).length = (f y).length := (hlen x).trans (hlen y).symm
      rw [List.flatMap_cons, List.flatMap_cons, List.append_eq_append_iff_of_size_eq_left hxy,
        ih (Nat.succ.inj h), hf.eq_iff, List.cons_eq_cons]

/-- **A strictly monotone code keeps the order.** -/
theorem flatMap_lt_iff (hlen : ∀ a, (f a).length = k) (hf : Function.Injective f)
    (hlt : ∀ a b, f a < f b ↔ a < b) {xs ys : List α} (h : xs.length = ys.length) :
    xs.flatMap f < ys.flatMap f ↔ xs < ys := by
  induction xs generalizing ys with
  | nil =>
    obtain rfl : ys = [] := List.length_eq_zero_iff.mp h.symm
    simp
  | cons x xs ih =>
    cases ys with
    | nil => simp at h
    | cons y ys =>
      have hxy : (f x).length = (f y).length := (hlen x).trans (hlen y).symm
      rw [List.flatMap_cons, List.flatMap_cons, append_lt_append_iff hxy, hlt, hf.eq_iff,
        ih (Nat.succ.inj h), List.cons_lt_cons_iff]

end Order

/-! ### Comparing -/

/-- **The result of a comparison** of lists is their order. -/
theorem compare_eq_lt_iff {α : Type} [Ord α] [LT α] [LE α] [Std.LawfulOrderOrd α]
    [Std.LawfulOrderLT α] [Std.LawfulEqOrd α] (xs ys : List α) :
    compare xs ys = .lt ↔ xs < ys := by
  induction xs generalizing ys with
  | nil => cases ys <;> simp
  | cons x xs ih =>
    cases ys with
    | nil => simp
    | cons y ys =>
      rw [List.compare_cons_cons, Ordering.then_eq_lt, Std.compare_eq_lt, ih,
        Std.LawfulEqOrd.compare_eq_iff_eq, List.cons_lt_cons_iff]

end LexBlocks
