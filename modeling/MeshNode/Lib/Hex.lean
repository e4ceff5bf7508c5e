import MeshNode.Lib.CString
import MeshNode.Lib.LexBlocks

/-!
# Hexadecimal texts

Bytes are printed with `%02x`, two digits each. The digits can be read back, in either case.

* `isxdigit`, `tolower`, `hexValue`: digits, their lower case and their value;
* `unhex`: the bytes that pairs of digits stand for;
* **`unhex_flatMap_fmt02x`**: reading back what was printed;
* **`flatMap_fmt02x_unhex`**: printing what was read gives the digits in lower case;
* **`fmt02x_lt_iff`**, `fmt02x_injective`: the digits of two bytes are in the order of the bytes;
* `strcmp`, `strcmp_eq_lt_iff`, `strcmp_eq_eq_iff`: the order of texts.
-/

namespace CString

/-! ### Digits -/

/-- The hexadecimal digits of ASCII. -/
def isxdigit (c : UInt8) : Bool := isdigit c || (97 ≤ c && c ≤ 102) || (65 ≤ c && c ≤ 70)

/-- `tolower`. -/
def tolower (c : UInt8) : UInt8 := if 65 ≤ c ∧ c ≤ 90 then c + 32 else c

/-- The value of a hexadecimal digit. -/
def hexValue (c : UInt8) : UInt8 :=
  if isdigit c then c - 48 else if 97 ≤ c then c - 87 else c - 55

/-- A property of the nibbles, checked for each. -/
theorem forall_nibble {p : UInt8 → Prop} (h : ∀ n < 16, p (.ofNat n)) {x : UInt8}
    (hx : x.toNat < 16) : p x := by
  have := h x.toNat hx
  rwa [UInt8.ofNat_toNat] at this

theorem toNat_high (b : UInt8) : (b >>> 4).toNat = b.toNat / 16 := by
  rw [UInt8.toNat_shiftRight, Nat.shiftRight_eq_div_pow]
  rfl

theorem toNat_low (b : UInt8) : (b &&& 15).toNat = b.toNat % 16 := by
  rw [UInt8.toNat_and]
  exact Nat.and_two_pow_sub_one_eq_mod _ 4

theorem high_lt (b : UInt8) : (b >>> 4).toNat < 16 := by
  have := b.toNat_lt
  rw [toNat_high]
  omega

theorem low_lt (b : UInt8) : (b &&& 15).toNat < 16 := by
  rw [toNat_low]
  omega

theorem hexValue_hexDigit {x : UInt8} (h : x.toNat < 16) : hexValue (hexDigit x) = x :=
  forall_nibble (p := fun x => hexValue (hexDigit x) = x) (by decide) h

/-- **A digit in lower case** is the one printed for its value. -/
theorem hexDigit_hexValue {c : UInt8} (h : isxdigit c = true) :
    hexDigit (hexValue c) = tolower c ∧ (hexValue c).toNat < 16 := by
  have key : ∀ n < 256, isxdigit (.ofNat n) = true →
      hexDigit (hexValue (.ofNat n)) = tolower (.ofNat n) ∧ (hexValue (.ofNat n)).toNat < 16 := by
    decide +kernel
  have := key c.toNat c.toNat_lt
  rw [UInt8.ofNat_toNat] at this
  exact this h

/-! ### Pairs of digits -/

/-- The bytes that pairs of digits stand for. -/
def unhex : List UInt8 → List UInt8
  | a :: b :: s => (hexValue a * 16 + hexValue b) :: unhex s
  | _ => []

/-- **Reading back what was printed.** -/
theorem unhex_flatMap_fmt02x (bs : List UInt8) : unhex (bs.flatMap fmt02x) = bs := by
  induction bs with
  | nil => rfl
  | cons b bs ih =>
    have hb : hexValue (hexDigit (b >>> 4)) * 16 + hexValue (hexDigit (b &&& 15)) = b := by
      rw [hexValue_hexDigit (high_lt b), hexValue_hexDigit (low_lt b)]
      refine UInt8.toNat_inj.mp ?_
      have := b.toNat_lt
      rw [UInt8.toNat_add, UInt8.toNat_mul, toNat_high, toNat_low]
      change (b.toNat / 16 * 16 % 256 + b.toNat % 16) % 256 = b.toNat
      omega
    rw [List.flatMap_cons]
    exact congrArg₂ List.cons hb ih

theorem unhex_append {n : ℕ} {s : List UInt8} (h : s.length = 2 * n) (t : List UInt8) :
    unhex (s ++ t) = unhex s ++ unhex t := by
  induction n generalizing s with
  | zero =>
    obtain rfl : s = [] := List.length_eq_zero_iff.mp h
    rfl
  | succ n ih =>
    match s, h with
    | a :: b :: s, h =>
      exact congrArg _ (ih (by simp only [List.length_cons] at h; omega))

theorem fmt02x_pair {a b : UInt8} (ha : isxdigit a = true) (hb : isxdigit b = true) :
    fmt02x (hexValue a * 16 + hexValue b) = [tolower a, tolower b] := by
  obtain ⟨ea, la⟩ := hexDigit_hexValue ha
  obtain ⟨eb, lb⟩ := hexDigit_hexValue hb
  have hn : (hexValue a * 16 + hexValue b).toNat =
      (hexValue a).toNat * 16 + (hexValue b).toNat := by
    rw [UInt8.toNat_add, UInt8.toNat_mul]
    change ((hexValue a).toNat * 16 % 256 + _) % 256 = _
    omega
  have hhigh : (hexValue a * 16 + hexValue b) >>> 4 = hexValue a := by
    refine UInt8.toNat_inj.mp ?_
    rw [toNat_high, hn]
    omega
  have hlow : (hexValue a * 16 + hexValue b) &&& 15 = hexValue b := by
    refine UInt8.toNat_inj.mp ?_
    rw [toNat_low, hn]
    omega
  rw [fmt02x, hhigh, hlow, ea, eb]

/-- **Printing what was read** gives the digits in lower case. -/
theorem flatMap_fmt02x_unhex {n : ℕ} {s : List UInt8} (hlen : s.length = 2 * n)
    (hs : ∀ c ∈ s, isxdigit c = true) :
    (unhex s).flatMap fmt02x = s.map tolower ∧ (unhex s).length = n := by
  induction n generalizing s with
  | zero =>
    obtain rfl : s = [] := List.length_eq_zero_iff.mp hlen
    exact ⟨rfl, rfl⟩
  | succ n ih =>
    match s, hlen, hs with
    | a :: b :: s, hlen, hs =>
      obtain ⟨ha, hs⟩ := List.forall_mem_cons.mp hs
      obtain ⟨hb, hs⟩ := List.forall_mem_cons.mp hs
      obtain ⟨e, el⟩ := ih (by simp only [List.length_cons] at hlen; omega) hs
      rw [unhex, List.flatMap_cons, fmt02x_pair ha hb, e, List.length_cons, el]
      exact ⟨rfl, rfl⟩

/-! ### The order of texts -/

theorem hexDigit_lt_iff {x y : UInt8} (hx : x.toNat < 16) (hy : y.toNat < 16) :
    (hexDigit x < hexDigit y ↔ x.toNat < y.toNat) ∧
      (hexDigit x = hexDigit y ↔ x.toNat = y.toNat) := by
  have key : ∀ n < 16, ∀ m < 16,
      (hexDigit (.ofNat n) < hexDigit (.ofNat m) ↔ n < m) ∧
      (hexDigit (.ofNat n) = hexDigit (.ofNat m) ↔ n = m) := by decide
  have := key _ hx _ hy
  rwa [UInt8.ofNat_toNat, UInt8.ofNat_toNat] at this

/-- **The digits of two bytes** are in the order of the bytes. -/
theorem fmt02x_lt_iff (a b : UInt8) : fmt02x a < fmt02x b ↔ a < b := by
  obtain ⟨h₁, h₂⟩ := hexDigit_lt_iff (high_lt a) (high_lt b)
  obtain ⟨h₃, -⟩ := hexDigit_lt_iff (low_lt a) (low_lt b)
  rw [fmt02x, fmt02x, List.cons_lt_cons_iff, List.cons_lt_cons_iff, h₁, h₂, h₃, toNat_high,
    toNat_high, toNat_low, toNat_low, UInt8.lt_iff_toNat_lt]
  simp only [List.not_lt_nil, and_false, or_false]
  omega

theorem fmt02x_injective : Function.Injective fmt02x := by
  intro a b h
  have ha : unhex (fmt02x a) = [a] := unhex_flatMap_fmt02x [a]
  have hb : unhex (fmt02x b) = [b] := unhex_flatMap_fmt02x [b]
  rw [h, hb] at ha
  exact (List.head_eq_of_cons_eq ha).symm

/-- `strcmp`: the sign of the result. The strings are compared byte by byte, and a NUL is below
every other byte. -/
def strcmp (s t : List UInt8) : Ordering := compare (cstr s) (cstr t)

theorem strcmp_eq_lt_iff (s t : List UInt8) : strcmp s t = .lt ↔ cstr s < cstr t :=
  LexBlocks.compare_eq_lt_iff _ _

theorem strcmp_eq_eq_iff (s t : List UInt8) : strcmp s t = .eq ↔ cstr s = cstr t :=
  Std.LawfulEqOrd.compare_eq_iff_eq

end CString
