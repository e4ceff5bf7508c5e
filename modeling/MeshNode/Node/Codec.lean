import MeshNode.Node.Format

/-!
# Identifiers and their texts

`uuid_to_str` and `is_valid_uuid_v6` fit together: what one writes the other reads.

* `uuidText_of_groups`: the text of an identifier by the groups of its bytes;
* `readBack`: the bytes that the pairs of digits between the dashes stand for;
* **`readBack_uuidText`**: reading back the text of an identifier;
* **`uuidText_readBack`**: the text of what an accepted string stands for;
* **`uuid_codec`**: the encoder and the validator over the whole format.
-/

namespace MeshNode

open CString

/-! ### The groups -/

/-- The text of an identifier that is given by its groups. -/
theorem uuidText_of_groups {u : Vector UInt8 16} {a b c d e : List UInt8}
    (h : u.toList = a ++ (b ++ (c ++ (d ++ e)))) (ha : a.length = 4) (hb : b.length = 2)
    (hc : c.length = 2) (hd : d.length = 2) : uuidText u = a.flatMap fmt02x ++ dash ::
      (b.flatMap fmt02x ++ dash :: (c.flatMap fmt02x ++ dash ::
        (d.flatMap fmt02x ++ dash :: e.flatMap fmt02x))) := by
  rw [toList_eq_groups] at h
  obtain ⟨rfl, h₁⟩ := List.append_inj h ha.symm
  obtain ⟨rfl, h₂⟩ := List.append_inj h₁ hb.symm
  obtain ⟨rfl, h₃⟩ := List.append_inj h₂ hc.symm
  obtain ⟨rfl, rfl⟩ := List.append_inj h₃ hd.symm
  rfl

/-! ### Reading back -/

/-- The bytes that the pairs of digits between the dashes stand for. -/
def readBack (s : List UInt8) : List UInt8 := unhex (s.filter (· ≠ dash))

theorem isxdigit_ne_dash {c : UInt8} (h : isxdigit c = true) : c ≠ dash := by
  rintro rfl
  exact absurd h (by decide)

theorem filter_ne_dash {s : List UInt8} (h : ∀ c ∈ s, isxdigit c = true) :
    s.filter (· ≠ dash) = s :=
  List.filter_eq_self.mpr fun c hc => decide_eq_true (isxdigit_ne_dash (h c hc))

theorem filter_dash_cons (s : List UInt8) :
    (dash :: s).filter (· ≠ dash) = s.filter (· ≠ dash) := rfl

theorem isxdigit_of_mem_fmt02x (bs : List UInt8) : ∀ c ∈ bs.flatMap fmt02x, isxdigit c = true := by
  intro c hc
  obtain ⟨b, -, hb⟩ := List.mem_flatMap.mp hc
  rw [fmt02x, List.mem_pair] at hb
  rcases hb with rfl | rfl
  · exact (hexDigit_facts (high_lt b)).1
  · exact (hexDigit_facts (low_lt b)).1

/-- **Reading back the text of an identifier.** -/
theorem readBack_uuidText (u : Vector UInt8 16) : readBack (uuidText u) = u.toList := by
  have hf := fun bs : List UInt8 => filter_ne_dash (isxdigit_of_mem_fmt02x bs)
  rw [readBack, uuidText]
  simp only [List.filter_append, filter_dash_cons, hf]
  rw [← List.flatMap_append, ← List.flatMap_append, ← List.flatMap_append, ← List.flatMap_append,
    unhex_flatMap_fmt02x, toList_eq_groups u]

/-- **The text of what an accepted string stands for** is the string in lower case. -/
theorem uuidText_readBack {s : List UInt8} (h : IsUuidV6Text s) :
    ∃ u : Vector UInt8 16, u.toList = readBack s ∧ uuidText u = s.map tolower := by
  obtain ⟨a, b, c, d, e, rfl, ha, hb, hc, hd, he, hx⟩ := h
  simp only [List.forall_mem_append] at hx
  obtain ⟨⟨⟨⟨xa, xb⟩, xc⟩, xd⟩, xe⟩ := hx
  have xc : ∀ y ∈ 54 :: c, isxdigit y = true := List.forall_mem_cons.mpr ⟨rfl, xc⟩
  have hc : (54 :: c).length = 4 := congrArg Nat.succ hc
  obtain ⟨ea, la⟩ := flatMap_fmt02x_unhex (n := 4) ha xa
  obtain ⟨eb, lb⟩ := flatMap_fmt02x_unhex (n := 2) hb xb
  obtain ⟨ec, lc⟩ := flatMap_fmt02x_unhex (n := 2) hc xc
  obtain ⟨ed, ld⟩ := flatMap_fmt02x_unhex (n := 2) hd xd
  obtain ⟨ee, le⟩ := flatMap_fmt02x_unhex (n := 6) he xe
  have hread : readBack (a ++ dash :: (b ++ dash :: (54 :: c ++ dash :: (d ++ dash :: e)))) =
      unhex a ++ (unhex b ++ (unhex (54 :: c) ++ (unhex d ++ unhex e))) := by
    rw [readBack]
    simp only [List.filter_append, filter_dash_cons, filter_ne_dash xa, filter_ne_dash xb,
      filter_ne_dash xc, filter_ne_dash xd, filter_ne_dash xe]
    rw [unhex_append (n := 4) ha, unhex_append (n := 2) hb, unhex_append (n := 2) hc,
      unhex_append (n := 2) hd]
  have hlen : (unhex a ++ (unhex b ++ (unhex (54 :: c) ++ (unhex d ++ unhex e)))).length = 16 := by
    simp only [List.length_append, la, lb, lc, ld, le]
  refine ⟨⟨⟨_⟩, hlen⟩, hread.symm, ?_⟩
  rw [uuidText_of_groups rfl la lb lc ld, ea, eb, ec, ed, ee]
  simp only [List.map_append, List.map_cons]
  rfl

/-! ### The whole format -/

/-- A string of another length is rejected. -/
theorem isValidUuidV6_of_length_ne {s : List UInt8} (h : s.length ≠ uuidStrLen - 1) :
    isValidUuidV6 s = some false := if_pos h

/-- **The encoder and the validator.** With room for `UUID_STR_LEN` bytes the whole text and a NUL
are written, reading back gives the identifier, and the validator tests its version nibble. With
less room the text is cut and rejected. An accepted string is the text, up to case, of the
identifier read from it. -/
theorem uuid_codec :
    (∀ (uuid : CustomUuid) (n len : ℕ) (str : Vector UInt8 n), uuidStrLen ≤ len → uuidStrLen ≤ n →
      (uuidToStr uuid str len).toList = uuidText uuid.uuid ++ 0 :: str.toList.drop uuidStrLen ∧
      (uuidText uuid.uuid).length = 36 ∧ 0 ∉ uuidText uuid.uuid ∧
      readBack (cstr (uuidToStr uuid str len).toList) = uuid.uuid.toList ∧
      isValidUuidV6 (cstr (uuidToStr uuid str len).toList) =
        some (decide (HasVersion6 uuid.uuid))) ∧
    (∀ (uuid : CustomUuid) (n len : ℕ) (str : Vector UInt8 n), 1 ≤ len → len < uuidStrLen →
      len ≤ n →
      (uuidToStr uuid str len).toList =
        (uuidText uuid.uuid).take (len - 1) ++ 0 :: str.toList.drop len ∧
      isValidUuidV6 (cstr (uuidToStr uuid str len).toList) = some false) ∧
    ∀ s, isValidUuidV6 s = some true → ∃ u : Vector UInt8 16, u.toList = readBack s ∧
      ∀ (p : Option (Vector UInt8 uuidStrLen)) (n len : ℕ) (str : Vector UInt8 n),
        uuidStrLen ≤ len → uuidStrLen ≤ n →
        cstr (uuidToStr ⟨u, p⟩ str len).toList = s.map tolower := by
  refine ⟨fun uuid n len str hlen hn => ?_, fun uuid n len str hpos hlen hn => ?_, fun s hs => ?_⟩
  · rw [cstr_uuidToStr uuid str hlen hn]
    exact ⟨toList_uuidToStr_of_le uuid str hlen hn, rfl, zero_notMem_uuidText _,
      readBack_uuidText _, isValidUuidV6_uuidText _⟩
  · refine ⟨toList_uuidToStr_of_lt uuid str hpos hlen hn, ?_⟩
    rw [cstr_uuidToStr_of_lt uuid str hpos hlen hn]
    refine isValidUuidV6_of_length_ne ?_
    rw [List.length_take]
    unfold uuidStrLen at *
    omega
  · obtain ⟨b, hb, hgrammar⟩ := isValidUuidV6_eq_some s
    obtain rfl : b = true := Option.some.inj (hb.symm.trans hs)
    obtain ⟨u, hu, htext⟩ := uuidText_readBack (hgrammar.mp rfl)
    exact ⟨u, hu, fun p n len str hlen hn =>
      (cstr_uuidToStr ⟨u, p⟩ str hlen hn).trans htext⟩

end MeshNode
