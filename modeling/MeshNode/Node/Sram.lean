import MeshNode.Node.Uuid

/-!
# The identifier in the backup SRAM

* `sramStore`, `sramLoad`: writing and reading `backup_value`;
* `bootEnv ready`: the surroundings of one boot, in which the backup device is ready or is not;
* `Boots ready p a`: in such a boot `p` can return `a`;
* `loadResult`, `storeResult`: the results in a boot;
* **`boots_sramLoad`**, **`boots_sramStore`**: the functions return these and nothing else.
-/

namespace MeshNode

open Interact Prog CString

/-- `sram_store`: `backup_value` afterwards, and the result. -/
def sramStore (backupValue : Vector UInt8 16) (uuid : CustomUuid) : Fw (Vector UInt8 16 × ℤ) := do
  let ready ← kcall (.deviceIsReady .backupSram)
  if ready then do
    kcall (.printk "Storing value in backup SRAM (%p): %d\n" [.ptr, .ptr])
    kcall (.printk "Next reported value should be: %s\n" [.str uuid.uuid.toList])
    kcall (.printk "Keep VBAT power source and reset the board now!\n" [])
    pure (uuid.uuid, 0)
  else do
    kcall (.printk "ERROR: BackUp SRAM device is not ready\n" [])
    pure (backupValue, -1)

/-- The local `uuid_str` of `sram_load`, which `uuid_to_str` writes as a whole. -/
def localStr (uuid : CustomUuid) : Vector UInt8 uuidStrLen :=
  uuidToStr uuid (Vector.replicate _ 0) uuidStrLen

/-- `sram_load`: the structure `uuid` afterwards, and the result. The pointer `uuid->str` is left at
the local array. -/
def sramLoad (backupValue : Vector UInt8 16) (uuid : CustomUuid) : Fw (CustomUuid × ℤ) := do
  let ready ← kcall (.deviceIsReady .backupSram)
  if ready then do
    kcall (.printk "Current value in backup SRAM (%p): %s\n" [.ptr, .str backupValue.toList])
    let uuid := { uuid with uuid := backupValue }
    let uuidStr := localStr uuid
    let uuid := { uuid with str := some uuidStr }
    kcall (.printk "UUID: %s\n" [.str uuidStr.toList])
    if isValidUuidV6 (cstr uuidStr.toList) ≠ some true then do
      kcall (.printk "Invalid UUID in backup SRAM.\n" [])
      pure (uuid, -1)
    else do
      kcall (.printk "Valid UUID in backup SRAM.\n" [])
      kcall (.printk "loading value %s into uuid\n" [.str backupValue.toList])
      kcall (.printk "Reported value should be: %s\n" [.str uuidStr.toList])
      kcall (.printk "Keep VBAT power source and reset the board now!\n" [])
      pure (uuid, 0)
  else do
    kcall (.printk "ERROR: BackUp SRAM device is not ready\n" [])
    pure (uuid, -1)

/-! ### In one boot -/

/-- The surroundings of a boot: the backup device is ready throughout, or is not; every other call
may be answered in any way. -/
def bootEnv (ready : Bool) : Env KCall KCall.Ret Unit
  | _, ⟨.deviceIsReady .backupSram, r⟩ => if r = ready then some () else none
  | _, _ => some ()

/-- The program can return `a` in such a boot. -/
abbrev Boots (ready : Bool) {α : Type} (p : Fw α) (a : α) : Prop := Yields (bootEnv ready) () p a ()

/-- What `sram_load` returns in a boot. -/
def loadResult (ready : Bool) (backupValue : Vector UInt8 16) (uuid : CustomUuid) :
    CustomUuid × ℤ :=
  if ready then
    (⟨backupValue, some (localStr { uuid with uuid := backupValue })⟩,
      if HasVersion6 backupValue then 0 else -1)
  else (uuid, -1)

/-- What `sram_store` returns in a boot. -/
def storeResult (ready : Bool) (backupValue : Vector UInt8 16) (uuid : CustomUuid) :
    Vector UInt8 16 × ℤ :=
  if ready then (uuid.uuid, 0) else (backupValue, -1)

section Boot

variable {ready : Bool} {backupValue : Vector UInt8 16} {uuid : CustomUuid}

/-- **`sram_load`** fails, or reads the array and tests its version nibble. -/
theorem boots_sramLoad {r : CustomUuid × ℤ} : Boots ready (sramLoad backupValue uuid) r ↔
    r = loadResult ready backupValue uuid := by
  have hvalid : isValidUuidV6 (cstr (localStr { uuid with uuid := backupValue }).toList) =
      some (decide (HasVersion6 backupValue)) := by
    rw [localStr, cstr_uuidToStr _ _ le_rfl le_rfl, isValidUuidV6_uuidText]
  unfold sramLoad loadResult
  cases ready
  · simp [bootEnv]
  · by_cases hv : HasVersion6 backupValue <;> simp [bootEnv, hvalid, hv]

/-- **`sram_store`** fails, or copies the identifier. -/
theorem boots_sramStore {r : Vector UInt8 16 × ℤ} : Boots ready (sramStore backupValue uuid) r ↔
    r = storeResult ready backupValue uuid := by
  unfold sramStore storeResult
  cases ready <;> simp [bootEnv]

end Boot

end MeshNode
