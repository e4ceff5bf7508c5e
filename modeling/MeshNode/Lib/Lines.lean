import Mathlib.Data.Finset.Basic
import Mathlib.Data.Finset.Card
import Mathlib.Data.Finset.Filter
import Mathlib.Data.Finset.Range
import Mathlib.Tactic.Common

/-!
# Words as sets of lines

A word has one bit for each of a number of numbered lines.

* `lines x`: the lines whose bit is set; `bit w i`: the word of one line;
* `mem_lines_or_bit`, `mem_lines_and_not_bit`, `and_bit_ne_zero`: setting, clearing and testing
  one line;
* `bits p n`: the numbers below `n` with `p`, in increasing order;
* **`bits_eq_cons`**: the first one and the others, as a loop meets them that looks for the lowest
  set bit and clears it.
-/

namespace Lines

variable {w : ℕ}

/-- The word in which only the bit of line `i` is set. -/
def bit (w i : ℕ) : BitVec w := 1#w <<< i

/-- The lines whose bits are set. -/
def lines (x : BitVec w) : Finset ℕ := (Finset.range w).filter fun i => x.getLsbD i = true

theorem mem_lines {x : BitVec w} {i : ℕ} : i ∈ lines x ↔ x.getLsbD i = true := by
  simp only [lines, Finset.mem_filter, Finset.mem_range, and_iff_right_iff_imp]
  exact BitVec.lt_of_getLsbD

theorem lt_of_mem_lines {x : BitVec w} {i : ℕ} (h : i ∈ lines x) : i < w :=
  BitVec.lt_of_getLsbD (mem_lines.mp h)

theorem getLsbD_bit (i j : ℕ) : (bit w i).getLsbD j = (decide (i < w) && decide (i = j)) :=
  BitVec.getLsbD_twoPow i j

@[simp] theorem lines_zero : lines 0#w = ∅ := by
  ext i
  simp [mem_lines]

theorem lines_eq_empty {x : BitVec w} : lines x = ∅ ↔ x = 0 := by
  constructor
  · intro h
    refine BitVec.eq_of_getLsbD_eq fun i _ => ?_
    have : i ∉ lines x := h ▸ Finset.notMem_empty i
    simpa [mem_lines] using this
  · rintro rfl
    exact lines_zero

theorem mem_lines_or {x y : BitVec w} {j : ℕ} : j ∈ lines (x ||| y) ↔ j ∈ lines x ∨ j ∈ lines y := by
  simp [mem_lines]

theorem mem_lines_bit {i j : ℕ} : j ∈ lines (bit w i) ↔ i < w ∧ j = i := by
  rw [mem_lines, getLsbD_bit, Bool.and_eq_true, decide_eq_true_eq, decide_eq_true_eq, eq_comm]

theorem mem_lines_or_bit {x : BitVec w} {i j : ℕ} (hi : i < w) :
    j ∈ lines (x ||| bit w i) ↔ j ∈ lines x ∨ j = i := by
  rw [mem_lines_or, mem_lines_bit]
  exact or_congr_right (and_iff_right hi)

theorem lines_or_bit {x : BitVec w} {i : ℕ} (hi : i < w) :
    lines (x ||| bit w i) = insert i (lines x) := by
  ext j
  rw [mem_lines_or_bit hi, Finset.mem_insert, or_comm]

theorem mem_lines_and_not {x y : BitVec w} {j : ℕ} :
    j ∈ lines (x &&& ~~~y) ↔ j ∈ lines x ∧ j ∉ lines y := by
  simp only [mem_lines, BitVec.getLsbD_and, BitVec.getLsbD_not, Bool.and_eq_true, decide_eq_true_eq]
  constructor
  · rintro ⟨h, -, hy⟩
    simpa [h] using hy
  · rintro ⟨h, hy⟩
    simpa [h, BitVec.lt_of_getLsbD h] using hy

theorem mem_lines_and_not_bit {x : BitVec w} {i j : ℕ} :
    j ∈ lines (x &&& ~~~bit w i) ↔ j ∈ lines x ∧ j ≠ i := by
  rw [mem_lines_and_not, mem_lines_bit]
  exact and_congr_right fun h => not_congr ⟨And.right, fun e => ⟨e ▸ lt_of_mem_lines h, e⟩⟩

theorem lines_and_not (x y : BitVec w) : lines (x &&& ~~~y) = lines x \ lines y := by
  ext j
  rw [mem_lines_and_not, Finset.mem_sdiff]

theorem lines_and_not_bit (x : BitVec w) (i : ℕ) :
    lines (x &&& ~~~bit w i) = (lines x).erase i := by
  ext j
  rw [mem_lines_and_not_bit, Finset.mem_erase, and_comm]

theorem and_bit_ne_zero {x : BitVec w} {i : ℕ} : x &&& bit w i ≠ 0 ↔ i ∈ lines x := by
  rw [ne_eq, ← lines_eq_empty, ← ne_eq, ← Finset.nonempty_iff_ne_empty]
  constructor
  · rintro ⟨j, hj⟩
    simp only [mem_lines, BitVec.getLsbD_and, getLsbD_bit, Bool.and_eq_true, decide_eq_true_eq] at hj
    exact hj.2.2 ▸ mem_lines.mpr hj.1
  · intro h
    refine ⟨i, ?_⟩
    simpa [mem_lines, getLsbD_bit, lt_of_mem_lines h] using mem_lines.mp h

theorem card_and_not_bit_lt {x : BitVec w} {i : ℕ} (h : i ∈ lines x) :
    (lines (x &&& ~~~bit w i)).card < (lines x).card := by
  refine Finset.card_lt_card ((Finset.ssubset_iff_of_subset ?_).mpr ⟨i, h, ?_⟩)
  · exact fun j hj => (mem_lines_and_not_bit.mp hj).1
  · exact fun hi => (mem_lines_and_not_bit.mp hi).2 rfl

/-! ### Set bits in increasing order -/

/-- The numbers below `n` with `p`, in increasing order. -/
def bits (p : ℕ → Bool) (n : ℕ) : List ℕ := (List.range n).filter p

theorem mem_bits {p : ℕ → Bool} {n i : ℕ} : i ∈ bits p n ↔ i < n ∧ p i = true := by
  simp [bits]

theorem pairwise_bits (p : ℕ → Bool) (n : ℕ) : (bits p n).Pairwise (· < ·) :=
  List.pairwise_lt_range.filter p

/-- **The lowest set bit comes first**, then the others. -/
theorem bits_eq_cons {p : ℕ → Bool} {n i : ℕ} (h : (List.range n).find? p = some i) :
    bits p n = i :: bits (fun j => p j && decide (j ≠ i)) n := by
  obtain ⟨hp, as, bs, he, has⟩ := List.find?_eq_some_iff_append.mp h
  have hnd : (as ++ i :: bs).Nodup := he ▸ List.nodup_range
  have hne : ∀ j ∈ as ++ bs, j ≠ i := by
    have := (List.nodup_middle.mp hnd)
    exact fun j hj e => (List.nodup_cons.mp this).1 (e ▸ hj)
  have h₁ : as.filter p = [] := List.filter_eq_nil_iff.mpr fun j hj => by simpa using has j hj
  have h₂ : as.filter (fun j => p j && decide (j ≠ i)) = [] :=
    List.filter_eq_nil_iff.mpr fun j hj => by simp [by simpa using has j hj]
  have h₃ : bs.filter (fun j => p j && decide (j ≠ i)) = bs.filter p :=
    List.filter_congr fun j hj => by simp [hne j (List.mem_append_right _ hj)]
  simp only [bits, he, List.filter_append, List.filter_cons, h₁, h₂, h₃, hp]
  simp

end Lines
