import MeshNode.Node.Codec
import MeshNode.Node.Layout

/-!
# The order of identifiers

Identifiers are compared byte by byte, and their texts with `strcmp`.

* `ofBytes_order`, **`ofBytes_lt_iff`**: bytes are in the order of the number they stand for;
* **`uuidText_lt_iff`**, `uuidText_injective`: the text keeps the order of the bytes;
* `idBytes_lt`, `idBytes_inj`: identifiers of uptimes below `2 ^ 48`;
* `TextOf`: the memory that `uuid_to_str` wrote a whole text to;
* **`generated_ordered`**: identifiers are ordered by the uptime, and determine all three inputs.
-/

namespace MeshNode

open Interact Prog CString LexBlocks

/-! ### Bytes and numbers -/

/-- Equally many bytes are in the order of their numbers. -/
theorem ofBytes_order {xs ys : List UInt8} (h : xs.length = ys.length) :
    (xs < ys ↔ ofBytes xs < ofBytes ys) ∧ (xs = ys ↔ ofBytes xs = ofBytes ys) := by
  induction xs using List.reverseRecOn generalizing ys with
  | nil =>
    obtain rfl : ys = [] := List.length_eq_zero_iff.mp h.symm
    simp
  | append_singleton xs x ih =>
    obtain rfl | ⟨ys, y, rfl⟩ := List.eq_nil_or_concat ys
    · simp at h
    rw [List.length_concat, List.length_append] at h
    have hlen : xs.length = ys.length := Nat.succ.inj h
    obtain ⟨hlt, heq⟩ := ih hlen
    have hx := x.toNat_lt
    have hy := y.toNat_lt
    rw [List.concat_eq_append, append_lt_append_iff hlen,
      List.append_eq_append_iff_of_size_eq_left hlen, ofBytes_concat, ofBytes_concat, hlt, heq,
      List.cons_lt_cons_iff, List.cons_eq_cons, UInt8.lt_iff_toNat_lt, ← UInt8.toNat_inj]
    simp only [List.not_lt_nil, and_false, or_false, and_true]
    omega

/-- **Bytes are in the order of the number they stand for.** -/
theorem ofBytes_lt_iff {xs ys : List UInt8} (h : xs.length = ys.length) :
    xs < ys ↔ ofBytes xs < ofBytes ys := (ofBytes_order h).1

/-! ### Texts -/

theorem length_fmt02x (b : UInt8) : (fmt02x b).length = 2 := rfl

theorem digits_lt_iff {xs ys : List UInt8} (h : xs.length = ys.length) :
    xs.flatMap fmt02x < ys.flatMap fmt02x ↔ xs < ys :=
  flatMap_lt_iff length_fmt02x fmt02x_injective fmt02x_lt_iff h

/-- A group of digits and a dash. -/
theorem group_lt_iff {xs ys s t : List UInt8} (h : xs.length = ys.length) :
    xs.flatMap fmt02x ++ dash :: s < ys.flatMap fmt02x ++ dash :: t ↔
      xs < ys ∨ xs = ys ∧ s < t := by
  have hlen : (xs.flatMap fmt02x).length = (ys.flatMap fmt02x).length := by
    simp only [List.length_flatMap, length_fmt02x, List.map_const', List.sum_replicate, h]
  rw [append_lt_append_iff hlen, digits_lt_iff h, flatMap_eq_iff length_fmt02x fmt02x_injective h,
    List.cons_lt_cons_iff]
  simp

/-- **The text keeps the order of the bytes.** -/
theorem uuidText_lt_iff (u v : Vector UInt8 16) :
    uuidText u < uuidText v ↔ u.toList < v.toList := by
  rw [toList_eq_groups u, toList_eq_groups v, uuidText, uuidText]
  rw [group_lt_iff, group_lt_iff, group_lt_iff, group_lt_iff, digits_lt_iff, append_lt_append_iff,
    append_lt_append_iff, append_lt_append_iff, append_lt_append_iff] <;> rfl

theorem uuidText_injective : Function.Injective uuidText := by
  intro u v h
  refine Vector.toList_inj.mp ?_
  rw [← readBack_uuidText u, ← readBack_uuidText v, h]

/-! ### Generated identifiers -/

section Generated

variable {t t₁ t₂ : UInt64} {r s r₁ s₁ r₂ s₂ : UInt32}

/-- The first six bytes of an identifier decide. -/
theorem lt_of_timeHigh_lt {u v : Vector UInt8 16} (h : timeHigh u < timeHigh v) :
    u.toList < v.toList := by
  have hlen : (u.toList.take 6).length = (v.toList.take 6).length := by simp
  rw [← List.take_append_drop 6 u.toList, ← List.take_append_drop 6 v.toList]
  exact (append_lt_append_iff hlen).mpr (.inl ((ofBytes_lt_iff hlen).mpr h))

theorem idBytes_lt (h₁ : t₁.toNat < 2 ^ 48) (h₂ : t₂.toNat < 2 ^ 48) (h : t₁ < t₂) :
    (idBytes t₁ r₁ s₁).toList < (idBytes t₂ r₂ s₂).toList := by
  refine lt_of_timeHigh_lt ?_
  rw [timeHigh_idBytes, timeHigh_idBytes, Nat.mod_eq_of_lt h₁, Nat.mod_eq_of_lt h₂]
  exact UInt64.lt_iff_toNat_lt.mp h

/-- The random words stand in the last eight bytes. -/
theorem words_idBytes (t : UInt64) (r s : UInt32) :
    ofBytes (((idBytes t r s).toList.drop 8).take 4) = r.toNat ∧
    ofBytes ((idBytes t r s).toList.drop 12) = s.toNat := by
  have word : ∀ w : UInt32, ofBytes [((w >>> 24) &&& 0xFF).toUInt8, ((w >>> 16) &&& 0xFF).toUInt8,
      ((w >>> 8) &&& 0xFF).toUInt8, (w &&& 0xFF).toUInt8] = w.toNat := by
    intro w
    have hw := w.toNat_lt
    have h₀ : ((w >>> 24) &&& 0xFF).toUInt8.toNat = w.toNat / 2 ^ 24 % 256 :=
      toNat_byte32 rfl (by decide)
    have h₁ : ((w >>> 16) &&& 0xFF).toUInt8.toNat = w.toNat / 2 ^ 16 % 256 :=
      toNat_byte32 rfl (by decide)
    have h₂ : ((w >>> 8) &&& 0xFF).toUInt8.toNat = w.toNat / 2 ^ 8 % 256 :=
      toNat_byte32 rfl (by decide)
    simp only [ofBytes_cons, ofBytes_nil, List.length_cons, List.length_nil, h₀, h₁, h₂,
      toNat_low32]
    omega
  exact ⟨word r, word s⟩

theorem idBytes_inj (h₁ : t₁.toNat < 2 ^ 48) (h₂ : t₂.toNat < 2 ^ 48) :
    idBytes t₁ r₁ s₁ = idBytes t₂ r₂ s₂ ↔ t₁ = t₂ ∧ r₁ = r₂ ∧ s₁ = s₂ := by
  constructor
  · intro e
    have ht := (timeHigh_idBytes t₁ r₁ s₁).symm.trans (e ▸ timeHigh_idBytes t₂ r₂ s₂)
    rw [Nat.mod_eq_of_lt h₁, Nat.mod_eq_of_lt h₂] at ht
    obtain ⟨hr₁, hs₁⟩ := words_idBytes t₁ r₁ s₁
    obtain ⟨hr₂, hs₂⟩ := words_idBytes t₂ r₂ s₂
    rw [e] at hr₁ hs₁
    exact ⟨UInt64.toNat_inj.mp ht, UInt32.toNat_inj.mp (hr₁.symm.trans hr₂),
      UInt32.toNat_inj.mp (hs₁.symm.trans hs₂)⟩
  · rintro ⟨rfl, rfl, rfl⟩
    rfl

end Generated

/-! ### Runs -/

/-- Some memory that `uuid_to_str` wrote the whole text of an identifier to. -/
def TextOf (id : CustomUuid) (mem : List UInt8) : Prop :=
  ∃ (n len : ℕ) (str : Vector UInt8 n), uuidStrLen ≤ len ∧ uuidStrLen ≤ n ∧
    mem = (uuidToStr id str len).toList

theorem TextOf.cstr_eq {id : CustomUuid} {mem : List UInt8} (h : TextOf id mem) :
    cstr mem = uuidText id.uuid := by
  obtain ⟨n, len, str, hlen, hn, rfl⟩ := h
  exact cstr_uuidToStr id str hlen hn

/-- **Identifiers are ordered by the uptime and lose nothing.** The generator makes an identifier of
every uptime and any two random words. For uptimes below `2 ^ 48`: an earlier identifier is smaller,
as bytes and as a text, and two identifiers are the same, as bytes or as texts, exactly if the
uptimes and both random words are. -/
theorem generated_ordered {uuid₁ uuid₂ id₁ id₂ : CustomUuid} {t₁ t₂ : UInt64}
    {r₁ s₁ r₂ s₂ : UInt32} {mem₁ mem₂ : List UInt8}
    (ht₁ : t₁.toNat < 2 ^ 48) (ht₂ : t₂.toNat < 2 ^ 48)
    (h₁ : (generateId uuid₁).Runs (idTrace t₁ r₁ s₁) id₁)
    (h₂ : (generateId uuid₂).Runs (idTrace t₂ r₂ s₂) id₂)
    (hm₁ : TextOf id₁ mem₁) (hm₂ : TextOf id₂ mem₂) :
    (∀ uuid t r s, ∃ id, (generateId uuid).Runs (idTrace t r s) id) ∧
    (t₁ < t₂ → id₁.uuid.toList < id₂.uuid.toList ∧ strcmp mem₁ mem₂ = .lt) ∧
    (id₁.uuid = id₂.uuid ↔ t₁ = t₂ ∧ r₁ = r₂ ∧ s₁ = s₂) ∧
    (strcmp mem₁ mem₂ = .eq ↔ t₁ = t₂ ∧ r₁ = r₂ ∧ s₁ = s₂) := by
  refine ⟨fun uuid t r s => ⟨_, runs_generateId.mpr ⟨t, r, s, rfl, rfl⟩⟩, ?_⟩
  rw [strcmp_eq_lt_iff, strcmp_eq_eq_iff, hm₁.cstr_eq, hm₂.cstr_eq, uuidText_lt_iff,
    uuidText_injective.eq_iff, uuid_of_runs_generateId h₁, uuid_of_runs_generateId h₂]
  exact ⟨fun h => ⟨idBytes_lt ht₁ ht₂ h, idBytes_lt ht₁ ht₂ h⟩, idBytes_inj ht₁ ht₂,
    idBytes_inj ht₁ ht₂⟩

/-- Two identifiers on either side of a carry into octet 4. -/
theorem generated_ordered_carry : ∃ mem₁ mem₂, TextOf ⟨idBytes 255 0xFFFFFFFF 0, none⟩ mem₁ ∧
    TextOf ⟨idBytes 256 0 0, none⟩ mem₂ ∧ strcmp mem₁ mem₂ = .lt := by
  refine ⟨_, _, ⟨_, _, Vector.replicate uuidStrLen 0, le_rfl, le_rfl, rfl⟩,
    ⟨_, _, Vector.replicate uuidStrLen 0, le_rfl, le_rfl, rfl⟩, ?_⟩
  have hrun : ∀ t r, (generateId ⟨Vector.replicate _ 0, none⟩).Runs (idTrace t r 0)
    ⟨idBytes t r 0, none⟩ := fun t r => runs_generateId.mpr ⟨t, r, 0, rfl, rfl⟩
  have h₁ := hrun 255 0xFFFFFFFF
  have h₂ := hrun 256 0
  exact ((generated_ordered (by decide) (by decide) h₁ h₂ ⟨_, _, _, le_rfl, le_rfl, rfl⟩
    ⟨_, _, _, le_rfl, le_rfl, rfl⟩).2.1 (by decide)).2

end MeshNode
