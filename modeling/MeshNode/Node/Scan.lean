import MeshNode.Node.Codec
import MeshNode.Node.Sram

/-!
# String scans over the backup array

`sram_load` and `sram_store` print `backup_value` with `%s`. The array has sixteen bytes of raw
data, and the conversion reads on until it finds a NUL.

* `scanStr`, **`scanStr_eq`**: the scan of a `%s` conversion, with every access checked;
* `Arg.InBounds`, `KCall.InBounds`: the conversions of a call stay in their objects;
* `Safe ready p`: in a boot, every call that `p` comes to stays in bounds;
* **`backup_scans_iff`**: the contents and identifiers for which both functions are safe.
-/

namespace MeshNode

open Interact Prog CString

/-! ### Scans -/

/-- The text a `%s` conversion reads; `none` if it reads behind the object. -/
def scanStr : List UInt8 → Option (List UInt8)
  | [] => none
  | c :: obj => if c = 0 then some [] else (scanStr obj).map (c :: ·)

/-- **A scan stays in the object** exactly if there is a NUL, and then reads its string. -/
theorem scanStr_eq (obj : List UInt8) :
    scanStr obj = if 0 ∈ obj then some (cstr obj) else none := by
  induction obj with
  | nil => rfl
  | cons c obj ih =>
    by_cases hc : c = 0
    · simp [scanStr, cstr, hc]
    · have hcstr : cstr (c :: obj) = c :: cstr obj := List.takeWhile_cons_of_pos (by simp [hc])
      rw [scanStr, if_neg hc, ih, hcstr]
      by_cases hobj : 0 ∈ obj <;> simp [hobj, Ne.symm hc]

theorem scanStr_isSome_iff (obj : List UInt8) : (scanStr obj).isSome ↔ 0 ∈ obj := by
  rw [scanStr_eq]
  split_ifs with h <;> simp [h]

/-- The conversion of an argument stays in the object it points into. -/
def Arg.InBounds : Arg → Prop
  | .str obj => (scanStr obj).isSome
  | _ => True

/-- The conversions of a formatted output do. -/
def KCall.InBounds : KCall → Prop
  | .printk _ args | .logErr _ args | .logDbg _ args => ∀ a ∈ args, a.InBounds
  | _ => True

/-! ### Boots -/

/-- In a boot, every call that the program comes to stays in bounds. -/
abbrev Safe (ready : Bool) {α : Type} (p : Fw α) : Prop :=
  Within (bootEnv ready) () KCall.InBounds p

/-- The local text is always terminated. -/
theorem zero_mem_localStr (uuid : CustomUuid) : 0 ∈ (localStr uuid).toList := by
  rw [localStr, toList_uuidToStr_of_le uuid _ le_rfl le_rfl]
  exact List.mem_append_right _ List.mem_cons_self

/-- `sram_load` prints the content before it looks at it, and again once it is accepted. -/
theorem safe_sramLoad_iff (ready : Bool) (content : Vector UInt8 16) (uuid : CustomUuid) :
    Safe ready (sramLoad content uuid) ↔ (ready = true → 0 ∈ content.toList) := by
  have hlocal := zero_mem_localStr { uuid with uuid := content }
  unfold sramLoad
  cases ready with
  | false => simp [bootEnv, KCall.InBounds]
  | true =>
    by_cases hv : isValidUuidV6 (cstr (localStr { uuid with uuid := content }).toList) = some true
    · simp [bootEnv, hv, KCall.InBounds, Arg.InBounds, scanStr_isSome_iff, hlocal]
    · simp [bootEnv, hv, KCall.InBounds, Arg.InBounds, scanStr_isSome_iff, hlocal]

/-- `sram_store` prints what it stored. -/
theorem safe_sramStore_iff (ready : Bool) (backupValue : Vector UInt8 16) (uuid : CustomUuid) :
    Safe ready (sramStore backupValue uuid) ↔ (ready = true → 0 ∈ uuid.uuid.toList) := by
  unfold sramStore
  cases ready <;> simp [bootEnv, KCall.InBounds, Arg.InBounds, scanStr_isSome_iff]

/-- **No scan leaves the backup array** exactly if the device is not ready, or there is a zero byte:
in the content for `sram_load`, in the identifier for `sram_store`. The validator's accesses to the
local text are in bounds for every content. -/
theorem backup_scans_iff (ready : Bool) (content : Vector UInt8 16) (uuid : CustomUuid) :
    (Safe ready (sramLoad content uuid) ↔ (ready = true → 0 ∈ content.toList)) ∧
    (Safe ready (sramStore content uuid) ↔ (ready = true → 0 ∈ uuid.uuid.toList)) ∧
    (isValidUuidV6 (cstr (localStr { uuid with uuid := content }).toList)).isSome := by
  obtain ⟨b, hb, -⟩ :=
    isValidUuidV6_eq_some (cstr (localStr { uuid with uuid := content }).toList)
  exact ⟨safe_sramLoad_iff ready content uuid, safe_sramStore_iff ready content uuid,
    by rw [hb]; rfl⟩

/-- An erased backup SRAM: the first conversion of `sram_load` has no NUL to find. -/
theorem erased_scan_leaves : ∃ tr c,
    (sramLoad (Vector.replicate _ 0xFF) ⟨Vector.replicate _ 0, none⟩).Performs tr c ∧
    (bootEnv true).run () tr = some () ∧ ¬ c.InBounds := by
  refine ⟨[⟨.deviceIsReady .backupSram, true⟩], _, .inr ⟨true, [], rfl, .inl ⟨rfl, rfl⟩⟩, rfl,
    fun h => ?_⟩
  have hnul : (scanStr (Vector.replicate 16 (0xFF : UInt8)).toList).isSome :=
    h (.str _) (by simp)
  exact absurd hnul (by decide)

end MeshNode
