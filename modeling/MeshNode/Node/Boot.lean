import MeshNode.Node.Sram

/-!
# The identity across boots

At each boot `main` loads the identifier from the backup SRAM or generates one and stores it. The
SRAM is retained between boots, everything else starts from zero.

* `Globals`, `loadOrGenerate`: the static data and the start of `main`;
* `BootSpec`, **`bootSpec_of_boots`**: what one boot does;
* `BootRun`: sequences of boots;
* `BootRun.persists`: a stored identifier stays;
* **`identity_survives`**: every ready boot has the identity of the first ready one;
* **`sramLoad_accepts`**: which contents of the SRAM are taken for an identity.
-/

namespace MeshNode

open Interact Prog CString

/-- `backup_value` and the statics `n` and `uuid_str` of `main`. -/
structure Globals where
  backupValue : Vector UInt8 16
  n : Node
  uuidStr : Vector UInt8 uuidStrLen

/-- The statics at the start of a boot, for a content of the backup SRAM. -/
def Globals.boot (backupValue : Vector UInt8 16) : Globals :=
  ⟨backupValue, ⟨⟨Vector.replicate _ 0, none⟩, false⟩, Vector.replicate _ 0⟩

/-- `main` up to `n.status = true`. -/
def loadOrGenerate (g : Globals) : Fw Globals := do
  kcall (.gpioPinConfigureDt .loadSwitch0)
  kcall (.gpioPinSetDt .loadSwitch0 1)
  let r ← sramLoad g.backupValue g.n.id
  if r.2 ≠ 0 then do
    kcall (.printk "Failed to load UUID from SRAM, generating new UUID.\n" [])
    let id ← generateId r.1
    let uuidStr := uuidToStr id g.uuidStr uuidStrLen
    let id := { id with str := some uuidStr }
    -- the result of `sram_store` is not looked at
    let s ← sramStore g.backupValue id
    pure ⟨s.1, ⟨id, true⟩, uuidStr⟩
  else do
    let uuidStr := uuidToStr r.1 g.uuidStr uuidStrLen
    pure ⟨g.backupValue, ⟨{ r.1 with str := some uuidStr }, true⟩, uuidStr⟩

/-! ### One boot -/

/-- What a boot makes of the content `b` of the SRAM. -/
structure BootSpec (ready : Bool) (b : Vector UInt8 16) (g : Globals) : Prop where
  loaded : ready = true → HasVersion6 b → g.n.id.uuid = b
  fresh : ¬ (ready = true ∧ HasVersion6 b) → Generated g.n.id.uuid
  stored : g.backupValue = if ready then g.n.id.uuid else b
  pointer : g.n.id.str = some g.uuidStr
  text : cstr g.uuidStr.toList = uuidText g.n.id.uuid

theorem boots_generateId {ready : Bool} {uuid id : CustomUuid} :
    Boots ready (generateId uuid) id ↔ ∃ t r s, id = { uuid with uuid := idBytes t r s } := by
  simp [generateId, bootEnv]

/-- **One boot.** -/
theorem bootSpec_of_boots {ready : Bool} {b : Vector UInt8 16} {g : Globals}
    (h : Boots ready (loadOrGenerate (.boot b)) g) : BootSpec ready b g := by
  have hload : ∀ r : CustomUuid × ℤ, Boots ready (sramLoad b (Globals.boot b).n.id) r →
      (r.2 = 0 ↔ ready = true ∧ HasVersion6 b) ∧ (ready = true → r.1.uuid = b) := by
    intro r hr
    rw [boots_sramLoad.mp hr, loadResult]
    cases ready
    · simp
    · by_cases hv : HasVersion6 b <;> simp [hv]
  simp only [loadOrGenerate, bind_eq, yields_perform_bind] at h
  obtain ⟨_, _, _, _, _, _, h₁⟩ := h
  obtain ⟨r, _, hr, h₂⟩ := yields_bind.mp h₁
  obtain ⟨hzero, huuid⟩ := hload r hr
  split_ifs at h₂ with hne
  · -- generated
    obtain ⟨_, _, _, h₃⟩ := yields_perform_bind.mp h₂
    obtain ⟨id, _, hid, h₄⟩ := yields_bind.mp h₃
    obtain ⟨s, _, hs, h₅⟩ := yields_bind.mp h₄
    obtain ⟨rfl, -⟩ := yields_ret.mp h₅
    obtain ⟨t, r₁, r₂, rfl⟩ := boots_generateId.mp hid
    have hs := boots_sramStore.mp hs
    refine ⟨fun hrdy hv => absurd (hzero.mpr ⟨hrdy, hv⟩) hne, fun _ => ⟨t, r₁, r₂, rfl⟩,
      ?_, rfl, ?_⟩
    · rw [hs, storeResult]
      cases ready <;> rfl
    · exact cstr_uuidToStr _ _ le_rfl le_rfl
  · -- loaded
    obtain ⟨rfl, -⟩ := yields_ret.mp h₂
    obtain ⟨hrdy, hv⟩ := hzero.mp (not_not.mp hne)
    refine ⟨fun _ _ => huuid hrdy, fun hn => absurd ⟨hrdy, hv⟩ hn, ?_, rfl,
      cstr_uuidToStr _ _ le_rfl le_rfl⟩
    rw [if_pos hrdy]
    exact (huuid hrdy).symm

theorem BootSpec.version {ready : Bool} {b : Vector UInt8 16} {g : Globals}
    (h : BootSpec ready b g) : HasVersion6 g.n.id.uuid := by
  by_cases hl : ready = true ∧ HasVersion6 b
  · exact (h.loaded hl.1 hl.2).symm ▸ hl.2
  · exact hasVersion6_of_stamped (generated_iff.mp (h.fresh hl))

/-- Every boot comes to the end of the sequence. -/
theorem exists_boots (ready : Bool) (b : Vector UInt8 16) :
    ∃ g, Boots ready (loadOrGenerate (.boot b)) g := by
  have hstart : ∀ r, Boots ready (sramLoad b (Globals.boot b).n.id) r →
      (∃ g, Boots ready (if r.2 ≠ 0 then _ else _) g) →
      ∃ g, Boots ready (loadOrGenerate (.boot b)) g :=
    fun r hr ⟨g, hg⟩ => ⟨g, yields_perform_bind.mpr ⟨(), (), rfl, yields_perform_bind.mpr
      ⟨(), (), rfl, yields_bind.mpr ⟨r, (), hr, hg⟩⟩⟩⟩
  refine hstart _ (boots_sramLoad.mpr rfl) ?_
  split_ifs
  · exact ⟨_, yields_perform_bind.mpr ⟨(), (), rfl, yields_bind.mpr ⟨_, (),
      boots_generateId.mpr ⟨0, 0, 0, rfl⟩, yields_bind.mpr ⟨_, (), boots_sramStore.mpr rfl,
        yields_ret.mpr ⟨rfl, rfl⟩⟩⟩⟩⟩
  · exact ⟨_, yields_ret.mpr ⟨rfl, rfl⟩⟩

/-! ### Sequences of boots -/

/-- **Boots one after another**, from a content of the SRAM: whether the device was ready, and the
statics at the end. -/
inductive BootRun : Vector UInt8 16 → List (Bool × Globals) → Prop
  | nil (b) : BootRun b []
  | cons {b ready g boots} : Boots ready (loadOrGenerate (.boot b)) g →
      BootRun g.backupValue boots → BootRun b ((ready, g) :: boots)

namespace BootRun

variable {b : Vector UInt8 16} {boots : List (Bool × Globals)}

theorem spec (h : BootRun b boots) : ∀ x ∈ boots, ∃ b', BootSpec x.1 b' x.2 := by
  induction h with
  | nil => simp
  | cons hb _ ih => exact List.forall_mem_cons.mpr ⟨⟨_, bootSpec_of_boots hb⟩, ih⟩

/-- **A stored identifier stays**: each boot leaves it in the SRAM, and each ready boot loads it. -/
theorem persists (h : BootRun b boots) (hv : HasVersion6 b) :
    ∀ x ∈ boots, x.1 = true → x.2.n.id.uuid = b := by
  induction h with
  | nil => simp
  | @cons b ready g boots hb _ ih =>
    have hs := bootSpec_of_boots hb
    have hkeep : g.backupValue = b := by
      rw [hs.stored]
      cases hr : ready with
      | false => rfl
      | true => exact hs.loaded hr hv
    exact List.forall_mem_cons.mpr ⟨fun hr => hs.loaded hr hv, hkeep ▸ ih (hkeep.symm ▸ hv)⟩

/-- The boots after some boot start from the SRAM it left. -/
theorem split {pre post : List (Bool × Globals)} {x : Bool × Globals}
    (h : BootRun b (pre ++ x :: post)) :
    ∃ b', BootSpec x.1 b' x.2 ∧ BootRun x.2.backupValue post := by
  induction pre generalizing b with
  | nil =>
    obtain _ | ⟨hb, hr⟩ := h
    exact ⟨b, bootSpec_of_boots hb, hr⟩
  | cons y pre ih =>
    obtain _ | ⟨_, hr⟩ := h
    exact ih hr

/-- After any boots the next one comes to its end. -/
theorem exists_next (h : BootRun b boots) (ready : Bool) :
    ∃ g, BootRun b (boots ++ [(ready, g)]) := by
  induction h with
  | nil b =>
    obtain ⟨g, hg⟩ := exists_boots ready b
    exact ⟨g, .cons hg (.nil _)⟩
  | cons hb _ ih =>
    obtain ⟨g, hr⟩ := ih
    exact ⟨g, .cons hb hr⟩

end BootRun

/-- **The identity survives.** Whatever the SRAM contains at first: every boot comes to its end; the
ready boots after the first ready one have its identity; each ready boot leaves its identity in the
SRAM; and each boot leaves in `uuid_str` the text of its identity, which the validator accepts. -/
theorem identity_survives {b : Vector UInt8 16} {boots : List (Bool × Globals)}
    (h : BootRun b boots) :
    (∀ ready, ∃ g, BootRun b (boots ++ [(ready, g)])) ∧
    (∀ pre g post, boots = pre ++ (true, g) :: post → (∀ x ∈ pre, x.1 = false) →
      ∀ x ∈ post, x.1 = true → x.2.n.id.uuid = g.n.id.uuid) ∧
    (∀ x ∈ boots, x.1 = true → x.2.backupValue = x.2.n.id.uuid) ∧
    (∀ x ∈ boots, x.2.n.id.str = some x.2.uuidStr ∧
      cstr x.2.uuidStr.toList = uuidText x.2.n.id.uuid ∧
      isValidUuidV6 (cstr x.2.uuidStr.toList) = some true) := by
  refine ⟨h.exists_next, ?_, fun x hx hr => ?_, fun x hx => ?_⟩
  · rintro pre g post rfl _
    obtain ⟨_, hs, hr⟩ := h.split
    have hstored : g.backupValue = g.n.id.uuid := hs.stored
    exact hstored ▸ hr.persists (hstored.symm ▸ hs.version)
  · obtain ⟨_, hs⟩ := h.spec x hx
    rw [hs.stored, if_pos hr]
  · obtain ⟨_, hs⟩ := h.spec x hx
    refine ⟨hs.pointer, hs.text, ?_⟩
    rw [hs.text, isValidUuidV6_uuidText, decide_eq_true hs.version]

/-- Four boots from an erased SRAM, the first and the third without the device. -/
theorem identity_survives_erased :
    ∃ x₁ x₂ x₃ x₄, BootRun (Vector.replicate _ 0xFF) [x₁, x₂, x₃, x₄] ∧
    [x₁, x₂, x₃, x₄].map Prod.fst = [false, true, false, true] ∧
    x₄.2.n.id.uuid = x₂.2.n.id.uuid := by
  obtain ⟨g₁, h₁⟩ := (identity_survives (.nil (Vector.replicate _ 0xFF))).1 false
  obtain ⟨g₂, h₂⟩ := (identity_survives h₁).1 true
  obtain ⟨g₃, h₃⟩ := (identity_survives h₂).1 false
  obtain ⟨g₄, h₄⟩ := (identity_survives h₃).1 true
  refine ⟨_, _, _, _, h₄, rfl, ?_⟩
  exact (identity_survives h₄).2.1 [(false, g₁)] g₂ _ rfl (by simp) (true, g₄) (by simp) rfl

/-! ### What is taken for an identity -/

/-- **The contents that `sram_load` accepts** are those with the version nibble 6. They include
every identifier that `generate_id` can produce, which are the stamped ones, and for any other
content `main` generates a fresh identifier. -/
theorem sramLoad_accepts (content : Vector UInt8 16) :
    (∀ uuid, (∃ r, Boots true (sramLoad content uuid) r) ∧
      ∀ r, Boots true (sramLoad content uuid) r → (r.2 = 0 ↔ HasVersion6 content)) ∧
    (Generated content → HasVersion6 content) ∧ (Generated content ↔ Stamped content) ∧
    (¬ HasVersion6 content → ∀ g, Boots true (loadOrGenerate (.boot content)) g →
      Generated g.n.id.uuid ∧ g.backupValue = g.n.id.uuid) := by
  refine ⟨fun uuid => ⟨⟨_, boots_sramLoad.mpr rfl⟩, fun r hr => ?_⟩,
    fun h => hasVersion6_of_stamped (generated_iff.mp h), generated_iff, fun hv g hg => ?_⟩
  · rw [boots_sramLoad.mp hr, loadResult]
    by_cases hv : HasVersion6 content <;> simp [hv]
  · have hs := bootSpec_of_boots hg
    exact ⟨hs.fresh fun h => hv h.2, hs.stored⟩

/-- A content with the version nibble 6 that no uptime and random words give: the low nibble of
byte 6 would have to be 0. -/
theorem sramLoad_accepts_garbage :
    (∃ r, Boots true (sramLoad #v[0, 0, 0, 0, 0, 0, 0x6F, 0, 0, 0, 0, 0, 0, 0, 0, 0]
      ⟨Vector.replicate _ 0, none⟩) r ∧ r.2 = 0) ∧
    ¬ Generated #v[0, 0, 0, 0, 0, 0, 0x6F, 0, 0, 0, 0, 0, 0, 0, 0, 0] := by
  constructor
  · have hv : HasVersion6 #v[0, 0, 0, 0, 0, 0, 0x6F, 0, 0, 0, 0, 0, 0, 0, 0, 0] := by decide
    exact ⟨_, boots_sramLoad.mpr rfl, by simp [loadResult, hv]⟩
  · rw [generated_iff]
    decide

end MeshNode
