import Mathlib.Algebra.Order.Field.Power
import Mathlib.Data.Int.Log
import Mathlib.Data.Rat.Floor
import Mathlib.Tactic.Linarith
import Mathlib.Tactic.NormNum
import Mathlib.Tactic.Positivity
import Mathlib.Tactic.Ring
import MeshNode.Lib.Strto

/-!
# Numbers in binary64

A finite number is an integer of at most 53 bits with a binary exponent. An operation rounds its
exact result to the nearest number, and to the even one where two are as near. Zeros have no sign
here.

* `Representable`, `Binary64`: the finite numbers, and all of them;
* `roundEven`, `lastBit`, `nearest`: the nearest number of any size;
  **`nearest_eq`**: what has 53 bits is its own, **`representable_nearest`**: and it has them;
* `ofRat`: the nearest number, or an infinity;
* `lt`, `le`, `add`, `mul`, `trunc`: the operations; **`trunc_mul_natCast`**: whole numbers are
  multiplied exactly below `2 ^ 53`;
* `strtod`: the number at the start of a text; **`strtod_fmtU`**: a printed number is read back.
-/

/-- The numbers with 53 bits and an exponent in the range. -/
def Representable (q : ℚ) : Prop :=
  ∃ m e : ℤ, |m| < 2 ^ 53 ∧ -1074 ≤ e ∧ e ≤ 971 ∧ q = m * 2 ^ e

inductive Binary64
  | nan
  | inf (negative : Bool)
  | finite (q : {q : ℚ // Representable q})

namespace Binary64

open CString

/-! ### Rounding -/

/-- The nearest integer, the even one of two. -/
def roundEven (x : ℚ) : ℤ :=
  if x - ⌊x⌋ < 1 / 2 ∨ x - ⌊x⌋ = 1 / 2 ∧ Even ⌊x⌋ then ⌊x⌋ else ⌊x⌋ + 1

@[simp] theorem roundEven_intCast (m : ℤ) : roundEven m = m := by
  rw [roundEven, Int.floor_intCast, sub_self, if_pos (.inl one_half_pos)]

/-- It is next to the number. -/
theorem abs_roundEven_sub_lt (x : ℚ) : |(roundEven x : ℚ) - x| < 1 := by
  have h₁ := Int.floor_le x
  have h₂ := Int.lt_floor_add_one x
  rw [abs_lt, roundEven]
  split_ifs with h
  · constructor <;> linarith
  · rw [not_or, not_lt] at h
    push_cast
    constructor <;> linarith [h.1]

/-- Integer bounds are kept. -/
theorem abs_roundEven_le {x : ℚ} {n : ℤ} (h : |x| < n) : |roundEven x| ≤ n := by
  have h₁ := abs_sub_abs_le_abs_sub (roundEven x : ℚ) x
  have h₂ := abs_roundEven_sub_lt x
  have h₃ : |(roundEven x : ℚ)| < n + 1 := by linarith
  exact Int.lt_add_one_iff.mp (by exact_mod_cast h₃)

theorem le_abs_roundEven {x : ℚ} {n : ℤ} (h : n ≤ |x|) : n ≤ |roundEven x| := by
  have h₁ := abs_sub_abs_le_abs_sub x (roundEven x : ℚ)
  have h₂ := abs_roundEven_sub_lt x
  rw [abs_sub_comm] at h₂
  have h₃ : (n : ℚ) < |(roundEven x : ℚ)| + 1 := by linarith
  exact Int.lt_add_one_iff.mp (by exact_mod_cast h₃)

/-- The exponent of the last bit that a number of this size has. -/
def lastBit (q : ℚ) : ℤ := max (Int.log 2 |q| - 52) (-1074)

/-- The nearest number with 53 bits, however large. -/
def nearest (q : ℚ) : ℚ := roundEven (q / 2 ^ lastBit q) * 2 ^ lastBit q

/-- A number with 53 bits ends at its last bit. -/
theorem lastBit_le {m e : ℤ} (hm : |m| < 2 ^ 53) (he : -1074 ≤ e) (h0 : (m * 2 ^ e : ℚ) ≠ 0) :
    lastBit (m * 2 ^ e) ≤ e := by
  have hlt : |(m * 2 ^ e : ℚ)| < (2 : ℕ) ^ (53 + e) := by
    rw [abs_mul, abs_of_pos (zpow_pos two_pos e : (0 : ℚ) < 2 ^ e), Nat.cast_ofNat,
      zpow_add₀ two_ne_zero]
    gcongr
    exact_mod_cast hm
  have := (Int.lt_zpow_iff_log_lt one_lt_two (abs_pos.mpr h0)).mp hlt
  exact max_le (by omega) he

/-- **A number with 53 bits is its own nearest.** -/
theorem nearest_eq {q : ℚ} (h : Representable q) : nearest q = q := by
  obtain ⟨m, e, hm, he, -, rfl⟩ := h
  by_cases h0 : (m * 2 ^ e : ℚ) = 0
  · rw [h0, nearest, zero_div, ← Int.cast_zero, roundEven_intCast, Int.cast_zero, zero_mul]
  obtain ⟨k, hk⟩ := Int.eq_ofNat_of_zero_le (sub_nonneg.mpr (lastBit_le hm he h0))
  -- in units of the last bit it is an integer
  have hunits : (m * 2 ^ e : ℚ) / 2 ^ lastBit (m * 2 ^ e) = (m * 2 ^ k : ℤ) := by
    rw [mul_div_assoc, ← zpow_sub₀ two_ne_zero, hk]
    push_cast
    rw [zpow_natCast]
  rw [nearest, hunits, roundEven_intCast, ← hunits, div_mul_cancel₀]
  exact zpow_ne_zero _ two_ne_zero

/-- In units of the last bit a number is below `2 ^ 53`. -/
theorem abs_div_lastBit_lt (q : ℚ) : |q / 2 ^ lastBit q| < (2 ^ 53 : ℤ) := by
  have hpos : (0 : ℚ) < 2 ^ lastBit q := zpow_pos two_pos _
  rw [abs_div, abs_of_pos hpos, div_lt_iff₀ hpos]
  have hlog := Int.lt_zpow_succ_log_self (b := 2) one_lt_two |q|
  calc |q| < (2 : ℚ) ^ (Int.log 2 |q| + 1) := by exact_mod_cast hlog
    _ ≤ 2 ^ (53 + lastBit q) := by
      have := le_max_left (Int.log 2 |q| - 52) (-1074)
      exact zpow_le_zpow_right₀ one_le_two (by rw [lastBit]; omega)
    _ = _ := by rw [zpow_add₀ two_ne_zero]; norm_num

theorem abs_nearest (q : ℚ) :
    |nearest q| = (|roundEven (q / 2 ^ lastBit q)| : ℤ) * 2 ^ lastBit q := by
  rw [nearest, abs_mul, abs_of_pos (zpow_pos two_pos _ : (0 : ℚ) < 2 ^ lastBit q), Int.cast_abs]

/-- A number whose last bit is not the smallest one has all 53. -/
theorem le_abs_roundEven_lastBit {q : ℚ} (h : -1074 < lastBit q) (hb : -52 < lastBit q) :
    2 ^ 52 ≤ |roundEven (q / 2 ^ lastBit q)| := by
  have hlog : lastBit q = Int.log 2 |q| - 52 := by
    rw [lastBit] at h ⊢
    omega
  have hq : 0 < |q| := by
    rw [abs_pos]
    rintro rfl
    rw [abs_zero, Int.log_zero_right] at hlog
    omega
  refine le_abs_roundEven ?_
  have hpos : (0 : ℚ) < 2 ^ lastBit q := zpow_pos two_pos _
  rw [abs_div, abs_of_pos hpos, le_div_iff₀ hpos]
  calc ((2 ^ 52 : ℤ) : ℚ) * 2 ^ lastBit q = 2 ^ (52 + lastBit q) := by
        rw [zpow_add₀ two_ne_zero]
        norm_num
    _ = ((2 : ℕ) : ℚ) ^ Int.log 2 |q| := by rw [hlog, add_sub_cancel, Nat.cast_ofNat]
    _ ≤ |q| := Int.zpow_log_le_self one_lt_two hq

/-- **The nearest number is one**, if it is not too large. -/
theorem representable_nearest {q : ℚ} (h : |nearest q| < 2 ^ 1024) : Representable (nearest q) := by
  have hlow : -1074 ≤ lastBit q := le_max_right _ _
  have hle : |roundEven (q / 2 ^ lastBit q)| ≤ 2 ^ 53 := abs_roundEven_le (abs_div_lastBit_lt q)
  rw [abs_nearest] at h
  -- a number of `n` bits more than this last one is below `2 ^ 1024`
  have hexp : ∀ n : ℕ, 2 ^ n ≤ |roundEven (q / 2 ^ lastBit q)| → n + lastBit q < 1024 := by
    intro n hn
    have : (2 : ℚ) ^ (n + lastBit q) < 2 ^ (1024 : ℤ) := by
      refine lt_of_le_of_lt ?_ h
      rw [zpow_add₀ two_ne_zero, zpow_natCast]
      gcongr
      exact_mod_cast hn
    exact (zpow_lt_zpow_iff_right₀ one_lt_two).mp this
  rcases hle.lt_or_eq with hlt | heq
  · refine ⟨_, _, hlt, hlow, ?_, rfl⟩
    by_contra hbig
    have := hexp 52 (le_abs_roundEven_lastBit (by omega) (by omega))
    omega
  · -- rounded up to one bit more, which is even
    have := hexp 53 heq.ge
    rw [nearest]
    rcases (abs_eq (by norm_num)).mp heq with hr | hr <;> rw [hr]
    · refine ⟨2 ^ 52, lastBit q + 1, by norm_num, by omega, by omega, ?_⟩
      rw [zpow_add_one₀ two_ne_zero]
      push_cast
      ring
    · refine ⟨-2 ^ 52, lastBit q + 1, by norm_num, by omega, by omega, ?_⟩
      rw [zpow_add_one₀ two_ne_zero]
      push_cast
      ring

/-- The number nearest to a rational, or an infinity. -/
def ofRat (q : ℚ) : Binary64 :=
  if h : |nearest q| < 2 ^ 1024 then .finite ⟨nearest q, representable_nearest h⟩
  else .inf (q < 0)

/-- A number is the nearest to itself. -/
theorem ofRat_eq {q : ℚ} (h : Representable q) : ofRat q = .finite ⟨q, h⟩ := by
  have hlt : |nearest q| < 2 ^ 1024 := by
    obtain ⟨m, e, hm, -, he, rfl⟩ := id h
    rw [nearest_eq h, abs_mul, abs_of_pos (zpow_pos two_pos e : (0 : ℚ) < 2 ^ e)]
    calc |(m : ℚ)| * 2 ^ e < 2 ^ (53 : ℤ) * 2 ^ e := by
          gcongr
          exact_mod_cast hm
      _ ≤ 2 ^ (53 : ℤ) * 2 ^ (971 : ℤ) := by gcongr; exact one_le_two
      _ = 2 ^ 1024 := by
        rw [← zpow_add₀ two_ne_zero]
        exact zpow_natCast 2 1024
  rw [ofRat, dif_pos hlt]
  simp only [nearest_eq h]

theorem representable_natCast {n : ℕ} (h : n < 2 ^ 53) : Representable n :=
  ⟨n, 0, by rw [Nat.abs_cast]; exact_mod_cast h, by norm_num, by norm_num, by simp⟩

/-! ### Operations -/

/-- `x < y`. -/
def lt : Binary64 → Binary64 → Bool
  | .nan, _ => false
  | _, .nan => false
  | .inf a, .inf b => a && !b
  | .inf a, .finite _ => a
  | .finite _, .inf b => !b
  | .finite p, .finite q => p.val < q.val

/-- `x <= y`. -/
def le : Binary64 → Binary64 → Bool
  | .nan, _ => false
  | _, .nan => false
  | .inf a, .inf b => a || !b
  | .inf a, .finite _ => a
  | .finite _, .inf b => !b
  | .finite p, .finite q => p.val ≤ q.val

/-- `x + y`. -/
def add : Binary64 → Binary64 → Binary64
  | .nan, _ => .nan
  | _, .nan => .nan
  | .inf a, .inf b => if a = b then .inf a else .nan
  | .inf a, .finite _ => .inf a
  | .finite _, .inf b => .inf b
  | .finite p, .finite q => ofRat (p.val + q.val)

/-- `x * y`. -/
def mul : Binary64 → Binary64 → Binary64
  | .nan, _ => .nan
  | _, .nan => .nan
  | .inf a, .inf b => .inf (a ^^ b)
  | .inf a, .finite q => if q.val = 0 then .nan else .inf (a ^^ decide (q.val < 0))
  | .finite p, .inf b => if p.val = 0 then .nan else .inf (decide (p.val < 0) ^^ b)
  | .finite p, .finite q => ofRat (p.val * q.val)

/-- The number without its fraction, if it has a value. -/
def trunc : Binary64 → Option ℤ
  | .finite q => some (q.val.num.tdiv q.val.den)
  | _ => none

/-- **Whole numbers are multiplied exactly** below `2 ^ 53`. -/
theorem trunc_mul_natCast {m n : ℕ} (hm : m < 2 ^ 53) (hn : n < 2 ^ 53) (h : m * n < 2 ^ 53) :
    ((ofRat m).mul (ofRat n)).trunc = some ((m * n : ℕ) : ℤ) := by
  rw [ofRat_eq (representable_natCast hm), ofRat_eq (representable_natCast hn), mul,
    ← Nat.cast_mul, ofRat_eq (representable_natCast h), trunc, Rat.num_natCast, Rat.den_natCast,
    Nat.cast_one, Int.tdiv_one]

theorem not_lt_zero_natCast {n : ℕ} (h : n < 2 ^ 53) : (ofRat n).lt (ofRat 0) = false := by
  rw [ofRat_eq (representable_natCast h), ← Nat.cast_zero,
    ofRat_eq (representable_natCast (by norm_num))]
  simp [lt]

/-! ### Reading -/

/-- A sign in front of a text, if there is one, and what is behind. -/
def signed : List UInt8 → Bool × List UInt8
  | 45 :: t => (true, t)
  | 43 :: t => (false, t)
  | t => (false, t)

/-- The exponent behind a mark, or 0 where there is none. -/
def exponent (mark : UInt8) : List UInt8 → ℤ × List UInt8
  | [] => (0, [])
  | c :: t =>
    if tolower c = mark then
      match numeral 10 isdigit (signed t).2 with
      | some (n, rest) => (if (signed t).1 then -n else n, rest)
      | none => (0, c :: t)
    else (0, c :: t)

/-- Digits with a point somewhere and an exponent behind: the number and the rest of the text. -/
def positional (base : ℕ) (digit : UInt8 → Bool) (mark : UInt8) (radix : ℚ) (s : List UInt8) :
    Option (ℚ × List UInt8) :=
  let whole := s.takeWhile digit
  let rest := s.dropWhile digit
  let frac := if rest.head? = some 46 then rest.tail.takeWhile digit else []
  let rest := if rest.head? = some 46 then rest.tail.dropWhile digit else rest
  if whole ++ frac = [] then none
  else
    let e := exponent mark rest
    some (digitsValue base (whole ++ frac) / base ^ frac.length * radix ^ e.1, e.2)

/-- The number at the start of a text, in the base its first letters say. -/
def magnitude : List UInt8 → Option (ℚ × List UInt8)
  | 48 :: x :: t =>
    if x = 120 ∨ x = 88 then
      (positional 16 isxdigit 112 2 t).orElse fun _ => positional 10 isdigit 101 10 (48 :: x :: t)
    else positional 10 isdigit 101 10 (48 :: x :: t)
  | t => positional 10 isdigit 101 10 t

/-- `strtod`, but for the letters that may stand in brackets behind `nan`. -/
def strtod (s : List UInt8) : Binary64 × List UInt8 :=
  let minus := (signed (s.dropWhile isspace)).1
  let t := (signed (s.dropWhile isspace)).2
  if strcaseeq (t.take 8) (lit "infinity") then (.inf minus, t.drop 8)
  else if strcaseeq (t.take 3) (lit "inf") then (.inf minus, t.drop 3)
  else if strcaseeq (t.take 3) (lit "nan") then (.nan, t.drop 3)
  else match magnitude t with
    | some (q, rest) => (ofRat (if minus then -q else q), rest)
    | none => (ofRat 0, s)

theorem magnitude_fmtU (n : ℕ) : magnitude (fmtU n) = some ((n : ℚ), []) := by
  have hall : ∀ c ∈ fmtU n, isdigit c = true := fun c => isdigit_of_mem_fmtU
  have hpos : positional 10 isdigit 101 10 (fmtU n) = some ((n : ℚ), []) := by
    simp [positional, List.takeWhile_eq_self_iff.mpr hall, List.dropWhile_eq_nil_iff.mpr hall,
      fmtU_ne_nil, digitsValue_fmtU, exponent]
  by_cases h0 : n = 0
  · subst h0
    exact hpos
  · obtain ⟨c, t, ht, hc⟩ := fmtU_head h0
    rw [ht] at hpos ⊢
    unfold magnitude
    split
    · next h => exact absurd (List.cons.inj h).1 hc
    · exact hpos

/-- A text that starts with a digit is no word. -/
theorem strcaseeq_of_isdigit {c : UInt8} (hc : isdigit c = true) (t : List UInt8) (k : ℕ)
    {w : List UInt8} (hw : ((w.map tolower).head?.map isdigit) = some false) :
    strcaseeq ((c :: t).take (k + 1)) w = false := by
  have hlow : tolower c = c := by
    simp only [isdigit, Bool.and_eq_true, decide_eq_true_eq] at hc
    exact if_neg fun h : 65 ≤ c ∧ c ≤ 90 => absurd (UInt8.le_trans h.1 hc.2) (by decide)
  rw [strcaseeq, beq_eq_false_iff_ne]
  intro h
  rw [← h, List.take_succ_cons, List.map_cons, List.head?_cons, hlow, Option.map_some, hc] at hw
  exact absurd (Option.some.inj hw) (by decide)

/-- **A printed number is read back**, as the nearest one. -/
theorem strtod_fmtU (n : ℕ) : strtod (fmtU n) = (ofRat n, []) := by
  have hmag := magnitude_fmtU n
  obtain ⟨c, t, ht⟩ := List.exists_cons_of_ne_nil (fmtU_ne_nil n)
  have hc : isdigit c = true := isdigit_of_mem_fmtU (n := n) (by simp [ht])
  rw [ht] at hmag ⊢
  have hdrop : (c :: t).dropWhile isspace = c :: t :=
    List.dropWhile_cons_of_neg (by simp [isspace_of_isdigit hc])
  have hsigned : signed (c :: t) = (false, c :: t) := by
    unfold signed
    split
    · next h => exact absurd ((List.cons.inj h).1 ▸ hc) (by decide)
    · next h => exact absurd ((List.cons.inj h).1 ▸ hc) (by decide)
    · rfl
  have h₁ := strcaseeq_of_isdigit hc t 7 (w := lit "infinity") (by decide)
  have h₂ := strcaseeq_of_isdigit hc t 2 (w := lit "inf") (by decide)
  have h₃ := strcaseeq_of_isdigit hc t 2 (w := lit "nan") (by decide)
  simp only [strtod, hdrop, hsigned, hmag, h₁, h₂, h₃, Bool.false_eq_true, if_false]

end Binary64
