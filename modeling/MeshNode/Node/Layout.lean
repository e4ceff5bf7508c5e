import MeshNode.Node.Uuid

/-!
# The layout of a generated identifier

`generate_id` announces the structure of a UUIDv6: the high 48 bits of the timestamp, then the
version and its low bits, then the variant. It writes the low 48 bits of the uptime, bits 4 to 15 of
it once more, and random bits.

* `idTrace`, **`runs_generateId`**: the calls of `generate_id` and what it returns;
* `timeHigh`, `timeField`: the high part of the time field, and all of it;
* `UuidV6Layout`: version, variant and time field of a UUIDv6;
* `timeHigh_idBytes`, `timeField_idBytes`: what a generated identifier has there;
* **`layout_iff`**: the uptimes and random words for which the layout is the announced one.
-/

namespace MeshNode

open Interact Prog

/-! ### Runs of the generator -/

/-- The calls of `generate_id`, with their answers. -/
def idTrace (timestamp : UInt64) (randomPart1 randomPart2 : UInt32) : FwTrace :=
  [⟨.kUptimeGet, timestamp⟩, ⟨.sysRand32Get, randomPart1⟩, ⟨.sysRand32Get, randomPart2⟩]

/-- **The generator** makes the bytes of the uptime and the two random words it got. -/
theorem runs_generateId {uuid id : CustomUuid} {tr : FwTrace} : (generateId uuid).Runs tr id ↔
    ∃ t r s, tr = idTrace t r s ∧ id = { uuid with uuid := idBytes t r s } := by
  constructor
  · rintro ⟨t, _, rfl, r, _, rfl, s, _, rfl, rfl, rfl⟩
    exact ⟨t, r, s, rfl, rfl⟩
  · rintro ⟨t, r, s, rfl, rfl⟩
    exact ⟨t, _, rfl, r, _, rfl, s, _, rfl, rfl, rfl⟩

/-- The bytes of a run, by its calls. -/
theorem uuid_of_runs_generateId {uuid id : CustomUuid} {t : UInt64} {r s : UInt32}
    (h : (generateId uuid).Runs (idTrace t r s) id) : id.uuid = idBytes t r s := by
  obtain ⟨t', r', s', e, rfl⟩ := runs_generateId.mp h
  cases e
  rfl

/-! ### The layout -/

/-- Octets 0 to 5. -/
def timeHigh (u : Vector UInt8 16) : ℕ := ofBytes (u.toList.take 6)

/-- The time field of a UUIDv6: octets 0 to 5, and the low twelve bits of octets 6 and 7. -/
def timeField (u : Vector UInt8 16) : ℕ :=
  timeHigh u * 2 ^ 12 + ofBytes ((u.toList.drop 6).take 2) % 2 ^ 12

/-- A UUIDv6 of a timestamp. -/
structure UuidV6Layout (u : Vector UInt8 16) (timestamp : UInt64) : Prop where
  version : HasVersion6 u
  variant : HasVariant u
  time : timeField u = timestamp.toNat

/-- Octets 0 to 5 have the low 48 bits of the uptime. -/
theorem timeHigh_idBytes (t : UInt64) (r s : UInt32) :
    timeHigh (idBytes t r s) = t.toNat % 2 ^ 48 := by
  have h₀ : (idBytes t r s)[0].toNat = t.toNat / 2 ^ 40 % 256 := toNat_byte64 rfl (by decide)
  have h₁ : (idBytes t r s)[1].toNat = t.toNat / 2 ^ 32 % 256 := toNat_byte64 rfl (by decide)
  have h₂ : (idBytes t r s)[2].toNat = t.toNat / 2 ^ 24 % 256 := toNat_byte64 rfl (by decide)
  have h₃ : (idBytes t r s)[3].toNat = t.toNat / 2 ^ 16 % 256 := toNat_byte64 rfl (by decide)
  have h₄ : (idBytes t r s)[4].toNat = t.toNat / 2 ^ 8 % 256 := toNat_byte64 rfl (by decide)
  have h₅ : (idBytes t r s)[5].toNat = t.toNat % 256 := toNat_low64 t
  have hbytes : (idBytes t r s).toList.take 6 = [(idBytes t r s)[0], (idBytes t r s)[1],
    (idBytes t r s)[2], (idBytes t r s)[3], (idBytes t r s)[4], (idBytes t r s)[5]] := rfl
  rw [timeHigh, hbytes]
  simp only [ofBytes_cons, ofBytes_nil, List.length_cons, List.length_nil, h₀, h₁, h₂, h₃, h₄, h₅]
  omega

/-- The low part of the time field has bits 4 to 15, which are in the high part as well. -/
theorem timeField_idBytes (t : UInt64) (r s : UInt32) : timeField (idBytes t r s) =
    t.toNat % 2 ^ 48 * 2 ^ 12 + t.toNat / 2 ^ 4 % 2 ^ 12 := by
  have h₆ : (idBytes t r s)[6].toNat = 96 + t.toNat / 2 ^ 12 % 16 := toNat_version t
  have h₇ : (idBytes t r s)[7].toNat = t.toNat / 2 ^ 4 % 256 := toNat_byte64 rfl (by decide)
  have hbytes : ((idBytes t r s).toList.drop 6).take 2 = [(idBytes t r s)[6], (idBytes t r s)[7]] :=
    rfl
  rw [timeField, timeHigh_idBytes, hbytes]
  simp only [ofBytes_cons, ofBytes_nil, List.length_cons, List.length_nil, h₆, h₇]
  omega

/-- The variant bits are those of the first random word. -/
theorem variant_idBytes (t : UInt64) (r s : UInt32) :
    HasVariant (idBytes t r s) ↔ r.toNat / 2 ^ 30 = 2 := by
  have h₈ : (idBytes t r s)[8].toNat = r.toNat / 2 ^ 24 % 256 := toNat_byte32 rfl (by decide)
  have hr := r.toNat_lt
  rw [HasVariant, ← UInt8.toNat_inj, UInt8.toNat_shiftRight, h₈, Nat.shiftRight_eq_div_pow]
  change r.toNat / 2 ^ 24 % 256 / 2 ^ 6 = 2 ↔ _
  omega

/-! ### Timestamps that are their own time field -/

/-- Five limbs of twelve bits that agree with the ones beside them. -/
theorem eq_of_limbs {q m a : ℕ} (hm : m < 2 ^ 12) (hq : q < 2 ^ 48)
    (h : q * 2 ^ 12 + m = a * 2 ^ 48 + q) : q = m * 0x1001001001 ∧ a = m := by
  omega

/-- Fifteen times the same digit, as the top limb and the four limbs below. -/
theorem fifteen_digits (d : ℕ) :
    d * 0x111 * 2 ^ 48 + d * 0x111 * 0x1001001001 = 0x111111111111111 * d := by
  omega

/-- **All hexadecimal digits are the same** when a number below `2 ^ 60` gives itself. -/
theorem timeField_eq_iff {t : ℕ} (ht : t < 2 ^ 60) :
    t % 2 ^ 48 * 2 ^ 12 + t / 2 ^ 4 % 2 ^ 12 = t ↔ 0x111111111111111 ∣ t := by
  constructor
  · intro e
    have hm : t % 2 ^ 12 = t / 2 ^ 4 % 2 ^ 12 := by omega
    -- the limbs agree, and the three digits of a limb do
    have hlimb : t % 2 ^ 48 * 2 ^ 12 + t % 2 ^ 12 = t / 2 ^ 48 * 2 ^ 48 + t % 2 ^ 48 := by
      rw [Nat.div_add_mod', hm, e]
    obtain ⟨hlow, hhigh⟩ := eq_of_limbs (by omega) (by omega) hlimb
    have hdigit : t % 2 ^ 12 = t % 16 * 0x111 := by omega
    refine ⟨t % 16, ?_⟩
    calc t = t / 2 ^ 48 * 2 ^ 48 + t % 2 ^ 48 := (Nat.div_add_mod' t (2 ^ 48)).symm
      _ = t % 16 * 0x111 * 2 ^ 48 + t % 16 * 0x111 * 0x1001001001 := by rw [hhigh, hlow, hdigit]
      _ = 0x111111111111111 * (t % 16) := fifteen_digits _
  · rintro ⟨d, rfl⟩
    have key : ∀ d < 16, 0x111111111111111 * d % 2 ^ 48 * 2 ^ 12 +
      0x111111111111111 * d / 2 ^ 4 % 2 ^ 12 = 0x111111111111111 * d := by decide
    exact key d (by omega)

/-- **The layout of a generated identifier** is that of a UUIDv6 of its timestamp exactly if the
first random word happens to have the variant in its top bits and the fifteen hexadecimal digits of
the timestamp are all the same. -/
theorem layout_iff {uuid id : CustomUuid} {t : UInt64} {r s : UInt32} (ht : t.toNat < 2 ^ 60)
    (h : (generateId uuid).Runs (idTrace t r s) id) :
    UuidV6Layout id.uuid t ↔ r.toNat / 2 ^ 30 = 2 ∧ 0x111111111111111 ∣ t.toNat := by
  rw [uuid_of_runs_generateId h, ← timeField_eq_iff ht, ← variant_idBytes t r s,
    ← timeField_idBytes t r s]
  constructor
  · rintro ⟨-, hvariant, htime⟩
    exact ⟨hvariant, htime⟩
  · rintro ⟨hvariant, htime⟩
    exact ⟨hasVersion6_of_stamped (stamped_idBytes t r s), hvariant, htime⟩

/-- An identifier made at once after the start. -/
theorem layout_iff_zero : UuidV6Layout (idBytes 0 0x80000000 0) 0 := by
  have hrun : (generateId ⟨Vector.replicate _ 0, none⟩).Runs (idTrace 0 0x80000000 0)
    ⟨idBytes 0 0x80000000 0, none⟩ := runs_generateId.mpr ⟨_, _, _, rfl, rfl⟩
  exact (layout_iff (by decide) hrun).mpr ⟨by decide, by decide⟩

/-- After a second the time field is another number, and with these random bits the variant is
another one too. -/
theorem layout_second : ∃ id, (generateId ⟨Vector.replicate _ 0, none⟩).Runs
      (idTrace 1000 0x12345678 0x9ABCDEF0) id ∧
    timeField id.uuid ≠ (1000 : UInt64).toNat ∧ ¬ HasVariant id.uuid ∧
    ¬ UuidV6Layout id.uuid 1000 := by
  have htime : timeField (idBytes 1000 0x12345678 0x9ABCDEF0) ≠ (1000 : UInt64).toNat := by decide
  exact ⟨_, runs_generateId.mpr ⟨_, _, _, rfl, rfl⟩, htime, by decide, fun h => htime h.time⟩

end MeshNode
