import MeshNode.Kernel
import MeshNode.Lib.Hex
import Mathlib.Tactic.IntervalCases

/-!
# Identifiers

* `idBytes`, `generateId`: the sixteen bytes made of the uptime and two random words;
* `uuidText`, `uuidToStr`: the text of an identifier; `toList_eq_groups`: its bytes in the groups of
  the text;
* `isValidHexChar`, `isValidUuidV6`: the validator, with every access to the string checked;
* `Generated`, `Stamped`, **`generated_iff`**: the image of the generator;
* `HasVersion6`, **`isValidUuidV6_uuidText`**: the validator accepts the text of an identifier
  exactly if the version nibble is 6; `HasVariant`: the bits of the variant;
* `toList_uuidToStr`, `cstr_uuidToStr`: the text in an array.
-/

namespace MeshNode

open Interact Prog CString

/-! ### The generator -/

/-- The bytes that `generate_id` makes of the uptime and two random words. -/
def idBytes (timestamp : UInt64) (randomPart1 randomPart2 : UInt32) : Vector UInt8 16 := #v[
  -- 48-bit timestamp high
  ((timestamp >>> 40) &&& 0xFF).toUInt8, ((timestamp >>> 32) &&& 0xFF).toUInt8,
  ((timestamp >>> 24) &&& 0xFF).toUInt8, ((timestamp >>> 16) &&& 0xFF).toUInt8,
  ((timestamp >>> 8) &&& 0xFF).toUInt8, (timestamp &&& 0xFF).toUInt8,
  -- 16-bit version and timestamp low
  (((timestamp >>> 12) &&& 0x0F) ||| 0x60).toUInt8, ((timestamp >>> 4) &&& 0xFF).toUInt8,
  -- the random part
  ((randomPart1 >>> 24) &&& 0xFF).toUInt8, ((randomPart1 >>> 16) &&& 0xFF).toUInt8,
  ((randomPart1 >>> 8) &&& 0xFF).toUInt8, (randomPart1 &&& 0xFF).toUInt8,
  ((randomPart2 >>> 24) &&& 0xFF).toUInt8, ((randomPart2 >>> 16) &&& 0xFF).toUInt8,
  ((randomPart2 >>> 8) &&& 0xFF).toUInt8, (randomPart2 &&& 0xFF).toUInt8]

/-- `generate_id`. -/
def generateId (uuid : CustomUuid) : Fw CustomUuid := do
  let timestamp ← kcall .kUptimeGet
  let randomPart1 ← kcall .sysRand32Get
  let randomPart2 ← kcall .sysRand32Get
  pure { uuid with uuid := idBytes timestamp randomPart1 randomPart2 }

/-- An identifier that some uptime and random words give. -/
def Generated (u : Vector UInt8 16) : Prop :=
  ∃ timestamp randomPart1 randomPart2, idBytes timestamp randomPart1 randomPart2 = u

/-! ### The text -/

/-- `'-'`. -/
abbrev dash : UInt8 := 45

/-- The text of an identifier: `%02x` of the bytes with four dashes. -/
def uuidText (u : Vector UInt8 16) : List UInt8 :=
  [u[0], u[1], u[2], u[3]].flatMap fmt02x ++ dash ::
  ([u[4], u[5]].flatMap fmt02x ++ dash ::
  ([u[6], u[7]].flatMap fmt02x ++ dash ::
  ([u[8], u[9]].flatMap fmt02x ++ dash ::
  [u[10], u[11], u[12], u[13], u[14], u[15]].flatMap fmt02x)))

/-- The bytes of an identifier, group by group. -/
theorem toList_eq_groups (u : Vector UInt8 16) : u.toList = [u[0], u[1], u[2], u[3]] ++
    ([u[4], u[5]] ++ ([u[6], u[7]] ++ ([u[8], u[9]] ++
      [u[10], u[11], u[12], u[13], u[14], u[15]]))) := by
  refine List.ext_getElem (by simp) fun i h₁ h₂ => ?_
  simp only [List.length_append, List.length_cons, List.length_nil] at h₂
  interval_cases i <;> rfl

/-- `uuid_to_str`: the array `str` afterwards. -/
def uuidToStr {n : ℕ} (uuid : CustomUuid) (str : Vector UInt8 n) (len : ℕ) : Vector UInt8 n :=
  snprintf str len (uuidText uuid.uuid)

/-! ### The validator -/

/-- `is_valid_hex_char`. -/
def isValidHexChar (c : UInt8) : Bool :=
  (48 ≤ c && c ≤ 57) || (97 ≤ c && c ≤ 102) || (65 ≤ c && c ≤ 70)

/-- The access `uuid[i]` to a string with its NUL; `none` is an access behind the NUL. -/
def charAt (s : List UInt8) (i : ℕ) : Option UInt8 := (s ++ [0])[i]?

/-- The test of a character at position `i`. -/
def okAt (i : ℕ) (c : UInt8) : Bool :=
  if i = 8 ∨ i = 13 ∨ i = 18 ∨ i = 23 then c = dash else isValidHexChar c

/-- The format loop over some positions; it returns at the first failure. -/
def checkFormat (s : List UInt8) : List ℕ → Option Bool
  | [] => pure true
  | i :: is => do
    let c ← charAt s i
    if okAt i c then checkFormat s is else pure false

/-- `is_valid_uuid_v6`, on a string without its NUL. -/
def isValidUuidV6 (s : List UInt8) : Option Bool :=
  if s.length ≠ uuidStrLen - 1 then pure false else do
    let ok ← checkFormat s (List.range (uuidStrLen - 1))
    if ¬ ok then pure false else do
      let c ← charAt s 14
      if c ≠ 54 then pure false else pure true

/-! ### The image of the generator -/

theorem and_ff_mod (a : ℕ) : (a &&& 255) % 256 = a % 256 := by
  change (a &&& 2 ^ 8 - 1) % 2 ^ 8 = _
  rw [Nat.and_two_pow_sub_one_eq_mod, Nat.mod_mod]

theorem toNat_byte64 {x k : UInt64} {n : ℕ} (hk : k.toNat = n) (hn : n < 64) :
    ((x >>> k) &&& 0xFF).toUInt8.toNat = x.toNat / 2 ^ n % 256 := by
  rw [UInt64.toNat_toUInt8, UInt64.toNat_and, UInt64.toNat_shiftRight, hk, Nat.mod_eq_of_lt hn,
    Nat.shiftRight_eq_div_pow]
  exact and_ff_mod _

theorem toNat_byte32 {x k : UInt32} {n : ℕ} (hk : k.toNat = n) (hn : n < 32) :
    ((x >>> k) &&& 0xFF).toUInt8.toNat = x.toNat / 2 ^ n % 256 := by
  rw [UInt32.toNat_toUInt8, UInt32.toNat_and, UInt32.toNat_shiftRight, hk, Nat.mod_eq_of_lt hn,
    Nat.shiftRight_eq_div_pow]
  exact and_ff_mod _

theorem toNat_low64 (x : UInt64) : (x &&& 0xFF).toUInt8.toNat = x.toNat % 256 := by
  rw [UInt64.toNat_toUInt8, UInt64.toNat_and]
  exact and_ff_mod _

theorem toNat_low32 (x : UInt32) : (x &&& 0xFF).toUInt8.toNat = x.toNat % 256 := by
  rw [UInt32.toNat_toUInt8, UInt32.toNat_and]
  exact and_ff_mod _

/-- The version nibble does not meet the bits of the timestamp. -/
theorem toNat_version (x : UInt64) :
    (((x >>> 12) &&& 0x0F) ||| 0x60).toUInt8.toNat = 96 + x.toNat / 2 ^ 12 % 16 := by
  have hor : ∀ a < 16, (a ||| 96) % 256 = 96 + a := by decide
  rw [UInt64.toNat_toUInt8, UInt64.toNat_or, UInt64.toNat_and, UInt64.toNat_shiftRight,
    Nat.shiftRight_eq_div_pow]
  change ((x.toNat / 2 ^ 12 &&& 2 ^ 4 - 1) ||| 96) % 256 = _
  rw [Nat.and_two_pow_sub_one_eq_mod, hor _ (Nat.mod_lt _ (by decide))]

/-- Bytes 6 and 7 repeat twelve bits of the timestamp that stand in bytes 4 and 5. -/
def Stamped (u : Vector UInt8 16) : Prop :=
  u[6].toNat = 96 + u[4].toNat / 16 ∧ u[7].toNat = u[4].toNat % 16 * 16 + u[5].toNat / 16

instance (u : Vector UInt8 16) : Decidable (Stamped u) := inferInstanceAs (Decidable (_ ∧ _))

theorem stamped_idBytes (t : UInt64) (r s : UInt32) : Stamped (idBytes t r s) := by
  have h₄ : (idBytes t r s)[4].toNat = t.toNat / 2 ^ 8 % 256 := toNat_byte64 rfl (by decide)
  have h₅ : (idBytes t r s)[5].toNat = t.toNat % 256 := toNat_low64 t
  have h₆ : (idBytes t r s)[6].toNat = 96 + t.toNat / 2 ^ 12 % 16 := toNat_version t
  have h₇ : (idBytes t r s)[7].toNat = t.toNat / 2 ^ 4 % 256 := toNat_byte64 rfl (by decide)
  rw [Stamped, h₄, h₅, h₆, h₇]
  omega

/-- The number with some digits to base 256. -/
def ofBytes (bs : List UInt8) : ℕ := bs.foldl (fun n b => 256 * n + b.toNat) 0

theorem ofBytes_nil : ofBytes [] = 0 := rfl

theorem ofBytes_concat (bs : List UInt8) (b : UInt8) :
    ofBytes (bs ++ [b]) = 256 * ofBytes bs + b.toNat := List.foldl_append

theorem ofBytes_cons (b : UInt8) (bs : List UInt8) :
    ofBytes (b :: bs) = b.toNat * 256 ^ bs.length + ofBytes bs := by
  induction bs using List.reverseRecOn with
  | nil => simp [ofBytes]
  | append_singleton bs x ih =>
    rw [← List.cons_append, ofBytes_concat, ofBytes_concat, ih, List.length_append,
      List.length_singleton, Nat.pow_succ, Nat.mul_add, Nat.add_assoc, ← Nat.mul_assoc _ _ 256,
      Nat.mul_comm 256 (_ * _)]

/-- Any four bytes are those of some word. -/
theorem exists_word (a b c d : UInt8) : ∃ r : UInt32,
    ((r >>> 24) &&& 0xFF).toUInt8 = a ∧ ((r >>> 16) &&& 0xFF).toUInt8 = b ∧
    ((r >>> 8) &&& 0xFF).toUInt8 = c ∧ (r &&& 0xFF).toUInt8 = d := by
  have ha := a.toNat_lt
  have hb := b.toNat_lt
  have hc := c.toNat_lt
  have hd := d.toNat_lt
  set r := ofBytes [a, b, c, d] with hr
  simp only [ofBytes_cons, ofBytes_nil, List.length_cons, List.length_nil] at hr
  have er : (UInt32.ofNat r).toNat = r :=
    UInt32.toNat_ofNat_of_lt' (by unfold UInt32.size; omega)
  refine ⟨.ofNat r, UInt8.toNat_inj.mp ?_, UInt8.toNat_inj.mp ?_, UInt8.toNat_inj.mp ?_,
    UInt8.toNat_inj.mp ?_⟩
  · exact (toNat_byte32 (n := 24) rfl (by decide)).trans (by omega)
  · exact (toNat_byte32 (n := 16) rfl (by decide)).trans (by omega)
  · exact (toNat_byte32 (n := 8) rfl (by decide)).trans (by omega)
  · exact (toNat_low32 _).trans (by omega)

/-- The first eight bytes of a stamped identifier are those of some uptime. -/
theorem exists_uptime {u : Vector UInt8 16} (h : Stamped u) : ∃ t : UInt64,
    ((t >>> 40) &&& 0xFF).toUInt8 = u[0] ∧ ((t >>> 32) &&& 0xFF).toUInt8 = u[1] ∧
    ((t >>> 24) &&& 0xFF).toUInt8 = u[2] ∧ ((t >>> 16) &&& 0xFF).toUInt8 = u[3] ∧
    ((t >>> 8) &&& 0xFF).toUInt8 = u[4] ∧ (t &&& 0xFF).toUInt8 = u[5] ∧
    (((t >>> 12) &&& 0x0F) ||| 0x60).toUInt8 = u[6] ∧ ((t >>> 4) &&& 0xFF).toUInt8 = u[7] := by
  have h₀ := u[0].toNat_lt
  have h₁ := u[1].toNat_lt
  have h₂ := u[2].toNat_lt
  have h₃ := u[3].toNat_lt
  have h₄ := u[4].toNat_lt
  have h₅ := u[5].toNat_lt
  obtain ⟨h₆, h₇⟩ := h
  set t := ofBytes [u[0], u[1], u[2], u[3], u[4], u[5]] with ht
  simp only [ofBytes_cons, ofBytes_nil, List.length_cons, List.length_nil] at ht
  have et : (UInt64.ofNat t).toNat = t :=
    UInt64.toNat_ofNat_of_lt' (by unfold UInt64.size; omega)
  refine ⟨.ofNat t, UInt8.toNat_inj.mp ?_, UInt8.toNat_inj.mp ?_, UInt8.toNat_inj.mp ?_,
    UInt8.toNat_inj.mp ?_, UInt8.toNat_inj.mp ?_, UInt8.toNat_inj.mp ?_, UInt8.toNat_inj.mp ?_,
    UInt8.toNat_inj.mp ?_⟩
  · exact (toNat_byte64 (n := 40) rfl (by decide)).trans (by omega)
  · exact (toNat_byte64 (n := 32) rfl (by decide)).trans (by omega)
  · exact (toNat_byte64 (n := 24) rfl (by decide)).trans (by omega)
  · exact (toNat_byte64 (n := 16) rfl (by decide)).trans (by omega)
  · exact (toNat_byte64 (n := 8) rfl (by decide)).trans (by omega)
  · exact (toNat_low64 _).trans (by omega)
  · exact (toNat_version _).trans (by omega)
  · exact (toNat_byte64 (n := 4) rfl (by decide)).trans (by omega)

theorem generated_of_stamped {u : Vector UInt8 16} (h : Stamped u) : Generated u := by
  obtain ⟨t, h₀, h₁, h₂, h₃, h₄, h₅, h₆, h₇⟩ := exists_uptime h
  obtain ⟨r, h₈, h₉, h₁₀, h₁₁⟩ := exists_word u[8] u[9] u[10] u[11]
  obtain ⟨s, h₁₂, h₁₃, h₁₄, h₁₅⟩ := exists_word u[12] u[13] u[14] u[15]
  refine ⟨t, r, s, Vector.ext fun i hi => ?_⟩
  interval_cases i
  exacts [h₀, h₁, h₂, h₃, h₄, h₅, h₆, h₇, h₈, h₉, h₁₀, h₁₁, h₁₂, h₁₃, h₁₄, h₁₅]

/-- **The image of the generator.** -/
theorem generated_iff {u : Vector UInt8 16} : Generated u ↔ Stamped u :=
  ⟨fun ⟨t, r, s, h⟩ => h ▸ stamped_idBytes t r s, generated_of_stamped⟩

/-! ### The validator on texts of identifiers -/

/-- The version nibble is 6. -/
def HasVersion6 (u : Vector UInt8 16) : Prop := u[6] >>> 4 = 6

instance (u : Vector UInt8 16) : Decidable (HasVersion6 u) := inferInstanceAs (Decidable (_ = _))

/-- The two top bits of octet 8 are binary 10, the variant of a UUID. -/
def HasVariant (u : Vector UInt8 16) : Prop := u[8] >>> 6 = 2

instance (u : Vector UInt8 16) : Decidable (HasVariant u) := inferInstanceAs (Decidable (_ = _))

theorem hasVersion6_of_stamped {u : Vector UInt8 16} (h : Stamped u) : HasVersion6 u := by
  have := u[4].toNat_lt
  refine UInt8.toNat_inj.mp ?_
  rw [UInt8.toNat_shiftRight, h.1, Nat.shiftRight_eq_div_pow]
  change (96 + u[4].toNat / 16) / 16 = 6
  omega

/-- The digits `%02x` makes, for the nibbles of a byte. -/
theorem hexDigit_facts {x : UInt8} (h : x.toNat < 16) :
    isValidHexChar (hexDigit x) = true ∧ (hexDigit x = 54 ↔ x = 6) ∧ hexDigit x ≠ 0 := by
  exact forall_nibble (p := fun x => isValidHexChar (hexDigit x) = true ∧
    (hexDigit x = 54 ↔ x = 6) ∧ hexDigit x ≠ 0) (by decide) h

/-- The format loop reads the characters it tests and no others. -/
theorem checkFormat_range' (pre s : List UInt8) :
    checkFormat (pre ++ s) (List.range' pre.length s.length) =
      some ((s.zipIdx pre.length).all fun p => okAt p.2 p.1) := by
  induction s generalizing pre with
  | nil => rfl
  | cons c s ih =>
    have hc : charAt (pre ++ c :: s) pre.length = some c := by simp [charAt]
    have ih := ih (pre ++ [c])
    rw [List.append_assoc, List.length_append] at ih
    rw [List.length_cons, List.range'_succ, checkFormat, hc, List.zipIdx_cons, List.all_cons]
    cases hok : okAt pre.length c with
    | true => simpa [hok] using ih
    | false => simp [hok]

theorem okAt_uuidText (u : Vector UInt8 16) :
    ((uuidText u).zipIdx.all fun p => okAt p.2 p.1) = true := by
  have hi := fun b => (hexDigit_facts (high_lt b)).1
  have lo := fun b => (hexDigit_facts (low_lt b)).1
  simp [uuidText, fmt02x, List.zipIdx_cons, okAt, hi, lo]

/-- **The validator on the text of an identifier** looks at the version nibble only. -/
theorem isValidUuidV6_uuidText (u : Vector UInt8 16) :
    isValidUuidV6 (uuidText u) = some (decide (HasVersion6 u)) := by
  have hlen : (uuidText u).length = uuidStrLen - 1 := rfl
  have hformat : checkFormat (uuidText u) (List.range (uuidStrLen - 1)) = some true := by
    rw [List.range_eq_range', ← hlen]
    exact (checkFormat_range' [] (uuidText u)).trans (congrArg some (okAt_uuidText u))
  have hc : charAt (uuidText u) 14 = some (hexDigit (u[6] >>> 4)) := rfl
  have h6 : HasVersion6 u ↔ hexDigit (u[6] >>> 4) = 54 :=
    (hexDigit_facts (high_lt u[6])).2.1.symm
  unfold isValidUuidV6
  rw [if_neg (not_not.mpr hlen), hformat, hc]
  by_cases h : hexDigit (u[6] >>> 4) = 54 <;> simp [h6, h]

/-! ### The text in its array -/

theorem zero_notMem_uuidText (u : Vector UInt8 16) : 0 ∉ uuidText u := by
  have hi := fun b => (hexDigit_facts (high_lt b)).2.2.symm
  have lo := fun b => (hexDigit_facts (low_lt b)).2.2.symm
  have hdash : (0 : UInt8) ≠ dash := by decide
  simp [uuidText, fmt02x, hi, lo, hdash]

section Array

variable {n len : ℕ} (uuid : CustomUuid) (str : Vector UInt8 n)

/-- **What `uuid_to_str` writes**: as much of the text as fits before a NUL. -/
theorem toList_uuidToStr (hpos : 0 < len) (hn : min (len - 1) 36 < n) :
    (uuidToStr uuid str len).toList =
      (uuidText uuid.uuid).take (len - 1) ++ 0 :: str.toList.drop (min (len - 1) 36 + 1) := by
  have hlen : ((uuidText uuid.uuid).take (len - 1) ++ [0]).length = min (len - 1) 36 + 1 := by
    rw [List.length_append, List.length_take]
    rfl
  rw [uuidToStr, snprintf, if_neg hpos.ne', toList_overwrite _ (by omega), hlen, List.append_assoc]
  rfl

theorem toList_uuidToStr_of_le (hlen : uuidStrLen ≤ len) (hn : uuidStrLen ≤ n) :
    (uuidToStr uuid str len).toList = uuidText uuid.uuid ++ 0 :: str.toList.drop uuidStrLen := by
  unfold uuidStrLen at hlen hn
  have htext : (uuidText uuid.uuid).length = 36 := rfl
  have hmin : min (len - 1) 36 = 36 := by omega
  rw [toList_uuidToStr uuid str (by omega) (by omega), List.take_of_length_le (by omega), hmin]

/-- An array of `UUID_STR_LEN` bytes or more holds the text, whatever was in it. -/
theorem cstr_uuidToStr (hlen : uuidStrLen ≤ len) (hn : uuidStrLen ≤ n) :
    cstr (uuidToStr uuid str len).toList = uuidText uuid.uuid := by
  rw [toList_uuidToStr_of_le uuid str hlen hn, cstr_append_nul (zero_notMem_uuidText _)]

theorem toList_uuidToStr_of_lt (hpos : 0 < len) (hlen : len < uuidStrLen) (hn : len ≤ n) :
    (uuidToStr uuid str len).toList =
      (uuidText uuid.uuid).take (len - 1) ++ 0 :: str.toList.drop len := by
  unfold uuidStrLen at hlen
  have hmin : min (len - 1) 36 + 1 = len := by omega
  rw [toList_uuidToStr uuid str hpos (by omega), hmin]

/-- A shorter one holds a part of it. -/
theorem cstr_uuidToStr_of_lt (hpos : 0 < len) (hlen : len < uuidStrLen) (hn : len ≤ n) :
    cstr (uuidToStr uuid str len).toList = (uuidText uuid.uuid).take (len - 1) := by
  rw [toList_uuidToStr_of_lt uuid str hpos hlen hn,
    cstr_append_nul fun h => zero_notMem_uuidText _ (List.mem_of_mem_take h)]

end Array

end MeshNode
