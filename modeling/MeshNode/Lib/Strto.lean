import Mathlib.Data.Nat.Digits.Lemmas
import Mathlib.Tactic.Ring
import MeshNode.Lib.Hex

/-!
# Integers in texts

`strtoul` and `strtol` with base 0: blanks, a sign, and a decimal, octal or hexadecimal numeral.
They return the value, clipped to the type, and the text behind the numeral, or the whole text when
it starts with no integer.

* `strcaseeq`: whether `strcasecmp` of two strings is 0;
* `numeral`, `natural`, `integer`: the integer at the start of a text, of any size;
* `strtoul w`, `strtol w`: for types of `w` bits;
* `fmtU`, `fmtI`: the decimal numerals `%u` and `%i` print;
* **`strtoul_fmtU`**, **`strtol_fmtI`**: what was printed is read back, all of it.
-/

namespace CString

/-- Whether `strcasecmp` returns 0. -/
def strcaseeq (s t : List UInt8) : Bool := s.map tolower == t.map tolower

/-! ### Reading -/

def isodigit (c : UInt8) : Bool := 48 ≤ c && c ≤ 55

/-- The value of a numeral. -/
def digitsValue (base : ℕ) (ds : List UInt8) : ℕ :=
  ds.foldl (fun n d => base * n + (hexValue d).toNat) 0

/-- The digits at the start of a text: their value and what is behind them. -/
def numeral (base : ℕ) (digit : UInt8 → Bool) (s : List UInt8) : Option (ℕ × List UInt8) :=
  if s.takeWhile digit = [] then none
  else some (digitsValue base (s.takeWhile digit), s.dropWhile digit)

/-- The numeral at the start of a text, in the base its first letters say. A lone `0x` is the
number 0 with an `x` behind it. -/
def natural : List UInt8 → Option (ℕ × List UInt8)
  | 48 :: x :: h :: t =>
    if (x = 120 || x = 88) && isxdigit h then numeral 16 isxdigit (h :: t)
    else numeral 8 isodigit (48 :: x :: h :: t)
  | 48 :: t => numeral 8 isodigit (48 :: t)
  | s => numeral 10 isdigit s

/-- The integer at the start of a text: whether there is a minus, the number, what is behind. -/
def integer (s : List UInt8) : Option (Bool × ℕ × List UInt8) :=
  match s.dropWhile isspace with
  | 45 :: t => (natural t).map fun r => (true, r)
  | 43 :: t => (natural t).map fun r => (false, r)
  | t => (natural t).map fun r => (false, r)

/-- `strtoul(s, &end, 0)` for an unsigned type of `w` bits, and the text at `end`. A minus negates
in the type. -/
def strtoul (w : ℕ) (s : List UInt8) : ℕ × List UInt8 :=
  match integer s with
  | none => (0, s)
  | some (minus, n, rest) =>
    (if 2 ^ w ≤ n then 2 ^ w - 1 else if minus then (2 ^ w - n) % 2 ^ w else n, rest)

/-- `strtol(s, &end, 0)` for a signed type of `w` bits, and the text at `end`. -/
def strtol (w : ℕ) (s : List UInt8) : ℤ × List UInt8 :=
  match integer s with
  | none => (0, s)
  | some (minus, n, rest) =>
    (max (-2 ^ (w - 1)) (min (2 ^ (w - 1) - 1) (if minus then -n else n)), rest)

/-! ### Printing -/

/-- The digit of a number below 10. -/
def decDigit (d : ℕ) : UInt8 := 48 + UInt8.ofNat d

/-- The conversion `%u`. -/
def fmtU (n : ℕ) : List UInt8 := if n = 0 then [48] else (Nat.digits 10 n).reverse.map decDigit

/-- The conversion `%i`. -/
def fmtI (z : ℤ) : List UInt8 := if z < 0 then 45 :: fmtU z.natAbs else fmtU z.natAbs

theorem isdigit_decDigit {d : ℕ} (h : d < 10) : isdigit (decDigit d) = true := by
  have : ∀ d < 10, isdigit (decDigit d) = true := by decide
  exact this d h

theorem hexValue_decDigit {d : ℕ} (h : d < 10) : (hexValue (decDigit d)).toNat = d := by
  have : ∀ d < 10, (hexValue (decDigit d)).toNat = d := by decide
  exact this d h

/-- The digits of a number have its value. -/
theorem digitsValue_map_decDigit {ds : List ℕ} (h : ∀ d ∈ ds, d < 10) :
    digitsValue 10 (ds.reverse.map decDigit) = Nat.ofDigits 10 ds := by
  have key : digitsValue 10 (ds.reverse.map decDigit) =
      ds.foldr (fun d n => 10 * n + (hexValue (decDigit d)).toNat) 0 := by
    rw [digitsValue, List.foldl_map, List.foldl_reverse]
  rw [key, Nat.ofDigits_eq_foldr]
  clear key
  induction ds with
  | nil => rfl
  | cons d ds ih =>
    obtain ⟨hd, hds⟩ := List.forall_mem_cons.mp h
    rw [List.foldr_cons, List.foldr_cons, ih hds, hexValue_decDigit hd]
    simp [add_comm]

theorem isdigit_of_mem_fmtU {n : ℕ} {c : UInt8} (hc : c ∈ fmtU n) : isdigit c = true := by
  unfold fmtU at hc
  split_ifs at hc with h0
  · obtain rfl := List.mem_singleton.mp hc
    rfl
  · obtain ⟨d, hd, rfl⟩ := List.mem_map.mp hc
    exact isdigit_decDigit (Nat.digits_lt_base (by decide) (List.mem_reverse.mp hd))

theorem fmtU_ne_nil (n : ℕ) : fmtU n ≠ [] := by
  unfold fmtU
  split_ifs with h0
  · exact List.cons_ne_nil _ _
  · simpa using Nat.digits_ne_nil_iff_ne_zero.mpr h0

/-- A numeral of `%u` does not start with 0 unless it is `0`. -/
theorem fmtU_head {n : ℕ} (h0 : n ≠ 0) : ∃ c t, fmtU n = c :: t ∧ c ≠ 48 := by
  have hne := Nat.digits_ne_nil_iff_ne_zero (b := 10).mpr h0
  have hlast := Nat.getLast_digit_ne_zero 10 h0
  have hlt := Nat.digits_lt_base (by decide) (List.getLast_mem hne)
  have hdigit : ∀ d < 10, d ≠ 0 → decDigit d ≠ 48 := by decide
  refine ⟨decDigit ((Nat.digits 10 n).getLast hne),
    (Nat.digits 10 n).dropLast.reverse.map decDigit, ?_, hdigit _ hlt hlast⟩
  rw [fmtU, if_neg h0]
  conv_lhs => rw [← List.dropLast_append_getLast hne]
  simp

/-- The digits that `%u` prints have the value of the number. -/
theorem digitsValue_fmtU (n : ℕ) : digitsValue 10 (fmtU n) = n := by
  by_cases h0 : n = 0
  · subst h0
    rfl
  · rw [fmtU, if_neg h0, digitsValue_map_decDigit fun d => Nat.digits_lt_base (by decide),
      Nat.ofDigits_digits]

/-! ### Reading what was printed -/

theorem natural_fmtU (n : ℕ) : natural (fmtU n) = some (n, []) := by
  by_cases h0 : n = 0
  · subst h0
    rfl
  obtain ⟨c, t, ht, hc⟩ := fmtU_head h0
  have hall : ∀ d ∈ fmtU n, isdigit d = true := fun d => isdigit_of_mem_fmtU
  have hnum : natural (fmtU n) = numeral 10 isdigit (fmtU n) := by
    rw [ht]
    unfold natural
    split
    · next h => exact absurd (List.cons.inj h).1 hc
    · next h => exact absurd (List.cons.inj h).1 hc
    · rfl
  rw [hnum, numeral, List.takeWhile_eq_self_iff.mpr hall, if_neg (fmtU_ne_nil n), digitsValue_fmtU,
    List.dropWhile_eq_nil_iff.mpr hall]

theorem integer_fmtU (n : ℕ) : integer (fmtU n) = some (false, n, []) := by
  obtain ⟨c, t, ht⟩ := List.exists_cons_of_ne_nil (fmtU_ne_nil n)
  have hc : isdigit c = true := isdigit_of_mem_fmtU (n := n) (by simp [ht])
  have hdrop : (fmtU n).dropWhile isspace = fmtU n := by
    rw [ht, List.dropWhile_cons_of_neg (by simp [isspace_of_isdigit hc])]
  have hnat := natural_fmtU n
  rw [integer, hdrop]
  rw [ht] at hnat ⊢
  split
  · next h => exact absurd ((List.cons.inj h).1 ▸ hc) (by decide)
  · next h => exact absurd ((List.cons.inj h).1 ▸ hc) (by decide)
  · rw [hnat]
    rfl

theorem integer_minus_fmtU (n : ℕ) : integer (45 :: fmtU n) = some (true, n, []) := by
  have hdrop : (45 :: fmtU n).dropWhile isspace = 45 :: fmtU n := rfl
  rw [integer, hdrop]
  simp only [natural_fmtU, Option.map_some]

/-- **An unsigned number is read back.** -/
theorem strtoul_fmtU {w n : ℕ} (h : n < 2 ^ w) : strtoul w (fmtU n) = (n, []) := by
  simp [strtoul, integer_fmtU, Nat.not_le.mpr h]

/-- **A signed number is read back.** -/
theorem strtol_fmtI {w : ℕ} {z : ℤ} (h₁ : -2 ^ (w - 1) ≤ z) (h₂ : z < 2 ^ (w - 1)) :
    strtol w (fmtI z) = (z, []) := by
  unfold fmtI
  split_ifs with hz
  · have : (-(z.natAbs : ℤ)) = z := by omega
    simp only [strtol, integer_minus_fmtU, if_true, this]
    rw [min_eq_right (by omega), max_eq_right h₁]
  · have : (z.natAbs : ℤ) = z := by omega
    simp only [strtol, integer_fmtU, Bool.false_eq_true, if_false, this]
    rw [min_eq_right (by omega), max_eq_right h₁]

end CString
