import Mathlib.Data.Finset.Basic
import Mathlib.Data.Finset.Card
import Mathlib.Data.List.Chain
import Mathlib.Data.List.Count
import MeshNode.Interact.Lts

/-!
# Preemptive priorities

Sources ask to be served; a request is kept until it is admitted to the sources that wait. A source
is served at its priority, a smaller one being more urgent, and interrupts what is served at a less
urgent one.

* `State`, `Next`, `Act`, `Step`: the requests, the sources that wait, the one to be served next,
  and the steps;
* `scan`, **`next_of_scan`**, `scan_eq_none`: a running minimum over the waiting sources finds it;
* **`chain_run`**: what interrupts is more urgent than what it interrupts, at every depth;
  `base_run`: at the bottom is what ran at first; `length_le_card`: how deep this can get;
* **`served_le_asked`**: no source is served more often than it asked;
* **`pending_of_run`**: a source waits until it is served, held back or taken back.
-/

namespace Preempt

open Interact

variable {ι κ : Type} [LinearOrder ι] [LinearOrder κ]

/-- The sources with a request that is not served yet, those of them that wait, their priorities,
the level of what runs, and the levels of what this interrupted, innermost first. -/
structure State (ι κ : Type) where
  requested : Finset ι
  pending : Finset ι
  prio : ι → κ
  level : κ
  saved : List κ

/-- `i` is the source to be served next: it outranks what runs and all others that do; the smallest
one of the same priority. -/
structure Next (s : State ι κ) (i : ι) : Prop where
  pending : i ∈ s.pending
  outranks : s.prio i < s.level
  first : ∀ j ∈ s.pending, s.prio j < s.level → s.prio i < s.prio j ∨ s.prio i = s.prio j ∧ i ≤ j

/-- No waiting source outranks what runs. -/
def Settled (s : State ι κ) : Prop := ∀ j ∈ s.pending, s.level ≤ s.prio j

/-- A source asks, is admitted to those that wait, or is held back from them again; a request is
taken back; a priority changes; a source is served, and what it interrupted goes on. -/
inductive Act (ι κ : Type)
  | ask (i : ι)
  | allow (i : ι)
  | defer (t : Finset ι)
  | retract (t : Finset ι)
  | regrade (i : ι) (p : κ)
  | start (i : ι)
  | finish

inductive Step : Lts (Act ι κ) (State ι κ)
  | ask (s : State ι κ) (i : ι) : Step s (.ask i) { s with requested := insert i s.requested }
  | allow {s : State ι κ} {i : ι} (h : i ∈ s.requested) :
      Step s (.allow i) { s with pending := insert i s.pending }
  | defer (s : State ι κ) (t : Finset ι) : Step s (.defer t) { s with pending := s.pending \ t }
  | retract (s : State ι κ) (t : Finset ι) : Step s (.retract t)
      { s with requested := s.requested \ t, pending := s.pending \ t }
  | regrade (s : State ι κ) (i : ι) (p : κ) :
      Step s (.regrade i p) { s with prio := Function.update s.prio i p }
  | start {s : State ι κ} {i : ι} (h : Next s i) : Step s (.start i)
      { s with requested := s.requested.erase i, pending := s.pending.erase i,
               level := s.prio i, saved := s.level :: s.saved }
  | finish {s : State ι κ} {l : κ} {ls : List κ} (h : s.saved = l :: ls) :
      Step s .finish { s with level := l, saved := ls }

/-! ### The source to be served next -/

/-- Served at the priority of the one that is next, nothing else outranks it. -/
theorem Next.settled {s : State ι κ} {i : ι} (h : Next s i) :
    Settled { s with requested := s.requested.erase i, pending := s.pending.erase i,
                     level := s.prio i, saved := s.level :: s.saved } := by
  intro j hj
  by_contra hlt
  rw [not_le] at hlt
  rcases h.first j (Finset.mem_of_mem_erase hj) (hlt.trans h.outranks) with h' | ⟨e, -⟩
  · exact absurd h' hlt.asymm
  · exact absurd e hlt.ne'

/-- The running minimum over a list of sources: replaced by a more urgent one. -/
def scan (prio : ι → κ) (level : κ) : Option ι → List ι → Option ι
  | w, [] => w
  | w, i :: l =>
    scan prio level (if (∀ j ∈ w, prio i < prio j) ∧ prio i < level then some i else w) l

/-- What the running minimum `w` is after the sources `seen`. -/
def Best (prio : ι → κ) (level : κ) (seen : ι → Prop) (w : Option ι) : Prop :=
  (∀ i ∈ w, seen i ∧ prio i < level ∧
    ∀ j, seen j → prio j < level → prio i < prio j ∨ prio i = prio j ∧ i ≤ j) ∧
  (w = none → ∀ j, seen j → level ≤ prio j)

theorem best_scan {prio : ι → κ} {level : κ} {l : List ι} (hl : l.Pairwise (· < ·))
    {seen : ι → Prop} (hlt : ∀ j, seen j → ∀ i ∈ l, j < i) {w : Option ι}
    (hw : Best prio level seen w) :
    Best prio level (fun j => seen j ∨ j ∈ l) (scan prio level w l) := by
  induction l generalizing seen w with
  | nil => simpa [scan] using hw
  | cons i l ih =>
    obtain ⟨hil, hl⟩ := List.pairwise_cons.mp hl
    have key := @ih hl (fun j => seen j ∨ j = i) ?_
      (if (∀ j ∈ w, prio i < prio j) ∧ prio i < level then some i else w) ?_
    · simpa only [scan, List.mem_cons, or_assoc] using key
    · rintro j (hj | rfl) k hk
      · exact hlt j hj k (List.mem_cons_of_mem _ hk)
      · exact hil k hk
    split_ifs with hc
    · refine ⟨fun k hk => ?_, nofun⟩
      obtain rfl := Option.some.inj hk
      refine ⟨.inr rfl, hc.2, ?_⟩
      rintro j (hj | rfl) hjl
      · -- an earlier source is not more urgent than the minimum so far
        cases hw' : w with
        | none => exact absurd (hw.2 hw' j hj) (not_le.mpr hjl)
        | some m =>
          have hm : m ∈ w := hw'
          rcases (hw.1 m hm).2.2 j hj hjl with h | ⟨h, -⟩
          · exact .inl ((hc.1 m hm).trans h)
          · exact .inl (h ▸ hc.1 m hm)
      · exact .inr ⟨rfl, le_refl _⟩
    · refine ⟨fun k hk => ?_, fun hn => ?_⟩
      · obtain ⟨hs, hkl, hmin⟩ := hw.1 k hk
        refine ⟨.inl hs, hkl, ?_⟩
        rintro j (hj | rfl) hjl
        · exact hmin j hj hjl
        · have hki : k < j := hlt k hs j List.mem_cons_self
          have : ¬ ∀ m ∈ w, prio j < prio m := fun h => hc ⟨h, hjl⟩
          have hle : prio k ≤ prio j := by
            by_contra h
            refine this fun m hm => ?_
            obtain rfl := Option.mem_unique hm hk
            exact not_le.mp h
          rcases hle.lt_or_eq with h | h
          · exact .inl h
          · exact .inr ⟨h, hki.le⟩
      · rintro j (hj | rfl)
        · exact hw.2 hn j hj
        · by_contra h
          exact hc ⟨by simp [hn], not_le.mp h⟩

section Scan

variable {s : State ι κ} {l : List ι} (hl : l.Pairwise (· < ·)) (hmem : ∀ i, i ∈ l ↔ i ∈ s.pending)
include hl hmem

theorem best_scan_pending : Best s.prio s.level (· ∈ s.pending) (scan s.prio s.level none l) := by
  have h₀ : Best s.prio s.level (fun _ => False) none := ⟨nofun, fun _ _ h => h.elim⟩
  simpa only [false_or, hmem] using best_scan hl (fun _ h => h.elim) h₀

/-- **The running minimum is the source to be served next.** -/
theorem next_of_scan {i : ι} (h : scan s.prio s.level none l = some i) : Next s i := by
  obtain ⟨h₁, h₂, h₃⟩ := (best_scan_pending hl hmem).1 i h
  exact ⟨h₁, h₂, h₃⟩

theorem scan_eq_none : scan s.prio s.level none l = none ↔ Settled s := by
  refine ⟨(best_scan_pending hl hmem).2, fun h => ?_⟩
  rw [Option.eq_none_iff_forall_not_mem]
  intro i hi
  have := next_of_scan hl hmem hi
  exact absurd this.outranks (not_lt.mpr (h i this.pending))

end Scan

/-! ### What interrupts is more urgent -/

variable {s t : State ι κ} {a : Act ι κ} {as : List (Act ι κ)}

/-- What runs and what it interrupted, innermost first. -/
def State.levels (s : State ι κ) : List κ := s.level :: s.saved

/-- What runs when nothing is served. -/
def State.base (s : State ι κ) : κ := s.saved.getLastD s.level

theorem Step.chain (h : Step s a t) (hs : s.levels.IsChain (· < ·)) : t.levels.IsChain (· < ·) := by
  cases h with
  | ask | allow | defer | retract | regrade => exact hs
  | start h => exact .cons_cons h.outranks hs
  | finish h =>
    rw [State.levels, h] at hs
    exact hs.tail

theorem Step.base (h : Step s a t) : t.base = s.base := by
  cases h with
  | ask | allow | defer | retract | regrade => rfl
  | start h => simp only [State.base, List.getLastD_cons]
  | finish h => simp only [State.base, h, List.getLastD_cons]

/-- **What interrupts is more urgent** than what it interrupts. -/
theorem chain_run (h : Step.Run s as t) (hs : s.levels.IsChain (· < ·)) :
    t.levels.IsChain (· < ·) :=
  Lts.Run.invariant (I := fun x => x.levels.IsChain (· < ·)) (fun _ _ _ hs h => Step.chain h hs) h hs

theorem base_run (h : Step.Run s as t) : t.base = s.base :=
  Lts.Run.invariant (I := fun x => x.base = s.base) (fun _ _ _ hs h => (Step.base h).trans hs) h rfl

omit [LinearOrder ι] in
/-- Nothing is interrupted at a level above the one at the bottom. -/
theorem le_base (hs : s.levels.IsChain (· < ·)) : ∀ l ∈ s.levels, l ≤ s.base := by
  obtain ⟨requested, pending, prio, level, saved⟩ := s
  simp only [State.levels, State.base] at hs ⊢
  induction saved generalizing level with
  | nil => simp
  | cons k ks ih =>
    rw [List.isChain_cons_cons] at hs
    have hk := ih k hs.2
    rw [List.getLastD_cons]
    refine List.forall_mem_cons.mpr ⟨hs.1.le.trans (hk k List.mem_cons_self), hk⟩

omit [LinearOrder ι] in
/-- The level at the bottom runs exactly when nothing is interrupted. -/
theorem level_eq_base_iff (hs : s.levels.IsChain (· < ·)) : s.level = s.base ↔ s.saved = [] := by
  obtain ⟨requested, pending, prio, level, saved⟩ := s
  cases saved with
  | nil => simp [State.base]
  | cons k ks =>
    rw [State.levels, List.isChain_cons_cons] at hs
    -- what is interrupted is above what runs, and not above the bottom
    have hk := le_base (s := ⟨requested, pending, prio, k, ks⟩) hs.2 k List.mem_cons_self
    rw [State.base, List.getLastD_cons]
    exact iff_of_false (hs.1.trans_le hk).ne (List.cons_ne_nil k ks)

omit [LinearOrder ι] in
/-- Not more levels than there are priorities. -/
theorem length_le_card {p : Finset κ} (hs : s.levels.IsChain (· < ·)) (hp : ∀ l ∈ s.levels, l ∈ p) :
    s.levels.length ≤ p.card := by
  have hnd : s.levels.Nodup := hs.pairwise.imp ne_of_lt
  rw [← List.toFinset_card_of_nodup hnd]
  exact Finset.card_le_card fun l hl => hp l (List.mem_toFinset.mp hl)

/-! ### Every request once -/

/-- What waits has a request. -/
theorem Step.pending_subset (h : Step s a t) (hs : s.pending ⊆ s.requested) :
    t.pending ⊆ t.requested := by
  cases h with
  | ask _ i => exact hs.trans (Finset.subset_insert i _)
  | allow hi => exact Finset.insert_subset hi hs
  | defer => exact Finset.sdiff_subset.trans hs
  | retract => exact Finset.sdiff_subset_sdiff hs subset_rfl
  | regrade => exact hs
  | start => exact Finset.erase_subset_erase _ hs
  | finish => exact hs

/-- The source that asks in a step. -/
def Act.asked : Act ι κ → Option ι
  | .ask i => some i
  | _ => none

/-- The source that a step begins to serve. -/
def Act.started : Act ι κ → Option ι
  | .start i => some i
  | _ => none

omit [LinearOrder κ] in
theorem count_filterMap_cons (f : Act ι κ → Option ι) (i : ι) (a : Act ι κ) (as : List (Act ι κ)) :
    ((a :: as).filterMap f).count i = (f a).toList.count i + (as.filterMap f).count i := by
  cases h : f a <;> simp [h, List.count_cons, Nat.add_comm]

/-- In a step, a source is served for a request that it makes or had, and has none left then. -/
theorem Step.served_le_asked (h : Step s a t) (hs : s.pending ⊆ s.requested) (i : ι) :
    a.started.toList.count i + (if i ∈ t.requested then 1 else 0) ≤
      a.asked.toList.count i + (if i ∈ s.requested then 1 else 0) := by
  cases h with
  | ask _ j =>
    by_cases hj : j = i <;> by_cases hi : i ∈ s.requested <;>
      simp [Act.started, Act.asked, hj, hi, @eq_comm _ i j]
  | retract _ t =>
    by_cases hi : i ∈ s.requested <;> by_cases ht : i ∈ t <;>
      simp [Act.started, Act.asked, hi, ht]
  | allow | defer | regrade | finish => simp [Act.started, Act.asked]
  | @start _ j h =>
    by_cases hj : j = i
    · subst hj
      simp [Act.started, Act.asked, hs h.pending]
    · simp [Act.started, Act.asked, hj, Ne.symm hj]

/-- **No source is served more often than it asked**, and once less while it has a request. -/
theorem served_le_asked (h : Step.Run s as t) (hs : s.pending ⊆ s.requested) (i : ι) :
    (as.filterMap Act.started).count i + (if i ∈ t.requested then 1 else 0) ≤
      (as.filterMap Act.asked).count i + (if i ∈ s.requested then 1 else 0) := by
  induction h with
  | nil => simp
  | cons h _ ih =>
    have key := h.served_le_asked hs i
    have ih := ih (h.pending_subset hs)
    rw [count_filterMap_cons, count_filterMap_cons]
    omega

/-- The step neither serves `i` nor takes it from those that wait. -/
def Act.Leaves (i : ι) : Act ι κ → Prop
  | .start j => j ≠ i
  | .defer t | .retract t => i ∉ t
  | _ => True

/-- **A source waits** until it is served, held back or taken back. -/
theorem pending_of_run (h : Step.Run s as t) {i : ι} (hi : i ∈ s.pending)
    (has : ∀ a ∈ as, a.Leaves i) : i ∈ t.pending := by
  induction h with
  | nil => exact hi
  | cons h _ ih =>
    obtain ⟨ha, has⟩ := List.forall_mem_cons.mp has
    refine ih ?_ has
    cases h with
    | ask => exact hi
    | allow => exact Finset.mem_insert_of_mem hi
    | defer => exact Finset.mem_sdiff.mpr ⟨hi, ha⟩
    | retract => exact Finset.mem_sdiff.mpr ⟨hi, ha⟩
    | regrade => exact hi
    | start => exact Finset.mem_erase.mpr ⟨Ne.symm ha, hi⟩
    | finish => exact hi

end Preempt
