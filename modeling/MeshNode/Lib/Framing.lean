import Mathlib.Data.List.DropRight
import Mathlib.Tactic.Common

/-!
# Cutting a stream at terminators

A stream over any alphabet is cut at the letters that satisfy `p`, the terminators.

* `runs p bs`: the maximal non-empty runs of other letters that a terminator follows;
* `openRun p bs`: the unfinished run at the end of the stream;
* **`runs_concat_of_term`**, **`runs_concat_of_not`**: how one more letter changes both, so that an
  incremental framer is right as soon as it follows these two laws;
* **`splitOnP_flatMap`**: blocks without terminators, each sent with one, are found again.
-/

namespace Framing

variable {α : Type} (p : α → Bool)

/-- The maximal non-empty runs of non-terminators that are followed by a terminator. -/
def runs (bs : List α) : List (List α) := (bs.splitOnP p).dropLast.filter fun r => !r.isEmpty

/-- The letters after the last terminator. -/
def openRun (bs : List α) : List α := bs.rtakeWhile fun b => !p b

variable {p}

@[simp] theorem openRun_nil : openRun p [] = [] := by simp [openRun]

theorem openRun_concat_of_term {c : α} (h : p c = true) (bs : List α) :
    openRun p (bs ++ [c]) = [] := by
  simp [openRun, h]

theorem openRun_concat_of_not {c : α} (h : p c = false) (bs : List α) :
    openRun p (bs ++ [c]) = openRun p bs ++ [c] := by
  simp [openRun, h]

theorem not_term_of_mem_openRun {bs : List α} {b : α} (h : b ∈ openRun p bs) : p b = false := by
  simpa using List.mem_rtakeWhile_imp h

theorem openRun_eq_self {bs : List α} (h : ∀ b ∈ bs, p b = false) : openRun p bs = bs :=
  List.rtakeWhile_eq_self_iff.mpr fun b hb => by simp [h b hb]

/-- A stream is all one unfinished run, or its unfinished run follows a terminator. -/
theorem eq_openRun_or_split (bs : List α) :
    (∀ b ∈ bs, p b = false) ∨ ∃ xs sep, p sep = true ∧ bs = xs ++ sep :: openRun p bs := by
  induction bs using List.reverseRecOn with
  | nil => simp
  | append_singleton bs c ih =>
    cases hc : p c with
    | true => exact .inr ⟨bs, c, hc, by rw [openRun_concat_of_term hc]⟩
    | false =>
      rcases ih with h | ⟨xs, sep, hs, e⟩
      · refine .inl fun b hb => ?_
        rcases List.mem_append.mp hb with hb | hb
        · exact h b hb
        · rw [List.mem_singleton.mp hb, hc]
      · refine .inr ⟨xs, sep, hs, ?_⟩
        rw [openRun_concat_of_not hc, ← List.cons_append, ← List.append_assoc, ← e]

/-- The last segment of a stream is its unfinished run. -/
theorem splitOnP_eq (bs : List α) :
    bs.splitOnP p = (bs.splitOnP p).dropLast ++ [openRun p bs] := by
  rcases eq_openRun_or_split (p := p) bs with h | ⟨xs, sep, hs, e⟩
  · rw [List.splitOnP_eq_singleton h, openRun_eq_self h]; rfl
  · have ho : ∀ b ∈ openRun p bs, p b = false := fun b => not_term_of_mem_openRun
    have hb : bs.splitOnP p = xs.splitOnP p ++ [openRun p bs] := by
      conv_lhs => rw [e]
      rw [List.splitOnP_append_cons xs _ hs, List.splitOnP_eq_singleton ho]
    rw [hb, List.dropLast_concat]

@[simp] theorem runs_nil : runs p [] = [] := by simp [runs]

/-- **A terminator closes the unfinished run**, if there is one. -/
theorem runs_concat_of_term {c : α} (h : p c = true) (bs : List α) :
    runs p (bs ++ [c]) = runs p bs ++ if openRun p bs = [] then [] else [openRun p bs] := by
  have e : (bs ++ [c]).splitOnP p = bs.splitOnP p ++ [[]] := by
    rw [List.splitOnP_append_cons bs [] h, List.splitOnP_nil]
  rw [runs, e, List.dropLast_concat, splitOnP_eq bs, List.filter_append]
  cases openRun p bs <;> simp [runs]

/-- **Any other letter closes nothing.** -/
theorem runs_concat_of_not {c : α} (h : p c = false) (bs : List α) :
    runs p (bs ++ [c]) = runs p bs := by
  have ho : ∀ b ∈ openRun p bs ++ [c], p b = false := by
    rw [← openRun_concat_of_not h]
    exact fun b => not_term_of_mem_openRun
  unfold runs
  rcases eq_openRun_or_split (p := p) bs with hb | ⟨xs, sep, hs, e⟩
  · rw [openRun_eq_self hb] at ho
    rw [List.splitOnP_eq_singleton ho, List.splitOnP_eq_singleton hb]
    rfl
  · have e₁ : bs.splitOnP p = xs.splitOnP p ++ [openRun p bs] := by
      conv_lhs => rw [e]
      rw [List.splitOnP_append_cons xs _ hs,
        List.splitOnP_eq_singleton fun b => not_term_of_mem_openRun]
    have e₂ : (bs ++ [c]).splitOnP p = xs.splitOnP p ++ [openRun p bs ++ [c]] := by
      conv_lhs => rw [e, List.append_assoc, List.cons_append]
      rw [List.splitOnP_append_cons xs _ hs, List.splitOnP_eq_singleton ho]
    rw [e₁, e₂, List.dropLast_concat, List.dropLast_concat]

/-- **Terminated blocks are found again** by cutting at the terminators. -/
theorem splitOnP_flatMap {c : α} (hc : p c = true) {rs : List (List α)}
    (h : ∀ r ∈ rs, ∀ b ∈ r, p b = false) :
    (rs.flatMap fun r => r ++ [c]).splitOnP p = rs ++ [[]] := by
  induction rs with
  | nil => exact List.splitOnP_nil
  | cons r rs ih =>
    obtain ⟨hr, hrs⟩ := List.forall_mem_cons.mp h
    rw [List.flatMap_cons, List.append_assoc, List.singleton_append,
      List.splitOnP_append_cons r _ hc, List.splitOnP_eq_singleton hr, ih hrs]
    rfl

/-- Runs are non-empty and free of terminators. -/
theorem of_mem_runs {bs r : List α} (h : r ∈ runs p bs) : r ≠ [] ∧ ∀ b ∈ r, p b = false := by
  induction bs using List.reverseRecOn with
  | nil => simp at h
  | append_singleton bs c ih =>
    cases hc : p c with
    | false => exact ih (by rwa [runs_concat_of_not hc] at h)
    | true =>
      rw [runs_concat_of_term hc, List.mem_append] at h
      rcases h with h | h
      · exact ih h
      · split_ifs at h with ho
        · simp at h
        · rw [List.mem_singleton.mp h]
          exact ⟨ho, fun b => not_term_of_mem_openRun⟩

/-- One non-empty run and its terminator. -/
theorem runs_single {r : List α} {c : α} (hr : r ≠ []) (h : ∀ b ∈ r, p b = false)
    (hc : p c = true) : runs p (r ++ [c]) = [r] := by
  rw [runs_concat_of_term hc, openRun_eq_self h, if_neg hr, runs, List.splitOnP_eq_singleton h]
  rfl

end Framing
