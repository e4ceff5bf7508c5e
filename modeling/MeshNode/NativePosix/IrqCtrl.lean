import MeshNode.Lib.Lines
import MeshNode.Lib.Preempt
import Mathlib.Data.List.Find

/-!
# The interrupt controller of the simulated board

* `IrqCtrl`: the variables of the controller;
* `irqRaisePrefix`, `hwIrqCtrlClearIrq`, `hwIrqCtrlGetHighestPrioIrq` and others: its functions;
* `gate_iff`: which lines the 32-bit test in `irqRaisePrefix` lets through;
* `Latched`: what holds of the pending, the raised and the enabled lines; each function keeps it;
* **`hwIrqCtrlGetHighestPrioIrq_eq_some`**: the loop over the pending lines finds the one of the
  highest priority that outranks the running one, and **`hwIrqCtrlGetHighestPrioIrq_eq_none`**.
-/

namespace MeshNode

open Lines

/-- `N_IRQS`. -/
abbrev nIrqs : ℕ := 32

/-- `PHONY_HARD_IRQ`. -/
abbrev phonyHardIrq : ℕ := 0xFFFF

/-- The variables of the controller, but for its timer. -/
structure IrqCtrl where
  irqStatus : BitVec 64
  irqPremask : BitVec 64
  irqMask : BitVec 64
  irqsLocked : Bool
  lockIgnore : Bool
  irqPrio : Vector UInt8 nIrqs
  currentlyRunningPrio : ℕ

namespace IrqCtrl

/-- The variables before `hw_irq_ctrl_init`. -/
def static : IrqCtrl := ⟨0, 0, 0, false, false, .replicate _ 0, 256⟩

/-- `hw_irq_ctrl_init`. -/
def hwIrqCtrlInit (c : IrqCtrl) : IrqCtrl :=
  { c with irqMask := 0, irqPremask := 0, irqsLocked := false, lockIgnore := false,
           irqPrio := .replicate _ 255 }

/-- `hw_irq_ctrl_set_cur_prio`. -/
def hwIrqCtrlSetCurPrio (c : IrqCtrl) (new : ℕ) : IrqCtrl := { c with currentlyRunningPrio := new }

/-- `hw_irq_ctrl_prio_set`, for `irq` below `N_IRQS`. -/
def hwIrqCtrlPrioSet (c : IrqCtrl) (irq prio : ℕ) : IrqCtrl :=
  { c with irqPrio := c.irqPrio.setIfInBounds irq (.ofNat prio) }

/-- `hw_irq_ctrl_get_prio`, for `irq` below `N_IRQS`. -/
def hwIrqCtrlGetPrio (c : IrqCtrl) (irq : ℕ) : UInt8 := c.irqPrio[irq]?.getD 0

/-- `(int)irq_prio[irq]`. -/
def prioOf (c : IrqCtrl) (irq : ℕ) : ℕ := (c.hwIrqCtrlGetPrio irq).toNat

/-- `find_lsb_set` of the architecture: the number of the lowest set bit, from 1, or 0. -/
def findLsbSet (op : BitVec 32) : ℕ := ((List.range 32).find? fun i => op.getLsbD i).elim 0 (· + 1)

/-- The loop of `hw_irq_ctrl_get_highest_prio_irq`, with a bound for the iterations. -/
def highestPrioLoop (c : IrqCtrl) : ℕ → BitVec 64 → Option ℕ → ℕ → Option ℕ
  | 0, _, winner, _ => winner
  | fuel + 1, hwIrqStatus, winner, winnerPrio =>
    if hwIrqStatus = 0 then winner
    else
      -- the argument of `find_lsb_set` has 32 bits
      let irqNbr := findLsbSet (hwIrqStatus.setWidth 32) - 1
      let hwIrqStatus := hwIrqStatus &&& ~~~bit 64 irqNbr
      if winnerPrio > c.prioOf irqNbr ∧ c.currentlyRunningPrio > c.prioOf irqNbr then
        highestPrioLoop c fuel hwIrqStatus (some irqNbr) (c.prioOf irqNbr)
      else highestPrioLoop c fuel hwIrqStatus winner winnerPrio

/-- `hw_irq_ctrl_get_highest_prio_irq`: a line, or `none` for -1. An iteration clears one of the 64
bits. -/
def hwIrqCtrlGetHighestPrioIrq (c : IrqCtrl) : Option ℕ :=
  if c.irqsLocked then none else c.highestPrioLoop 64 c.irqStatus none 256

/-- `hw_irq_ctrl_clear_all_enabled_irqs`. -/
def hwIrqCtrlClearAllEnabledIrqs (c : IrqCtrl) : IrqCtrl :=
  { c with irqStatus := 0, irqPremask := c.irqPremask &&& ~~~c.irqMask }

/-- `hw_irq_ctrl_clear_all_irqs`. -/
def hwIrqCtrlClearAllIrqs (c : IrqCtrl) : IrqCtrl := { c with irqStatus := 0, irqPremask := 0 }

/-- `hw_irq_ctrl_disable_irq`, for `irq` below 64. -/
def hwIrqCtrlDisableIrq (c : IrqCtrl) (irq : ℕ) : IrqCtrl :=
  { c with irqMask := c.irqMask &&& ~~~bit 64 irq }

/-- `hw_irq_ctrl_clear_irq`, for `irq` below 64. -/
def hwIrqCtrlClearIrq (c : IrqCtrl) (irq : ℕ) : IrqCtrl :=
  { c with irqStatus := c.irqStatus &&& ~~~bit 64 irq,
           irqPremask := c.irqPremask &&& ~~~bit 64 irq }

/-- `hw_irq_ctrl_irq_raise_prefix`. -/
def irqRaisePrefix (c : IrqCtrl) (irq : ℕ) : IrqCtrl :=
  if irq < nIrqs then
    let c := { c with irqPremask := c.irqPremask ||| bit 64 irq }
    -- `1 << irq` is an `int` here, extended with its sign
    if c.irqMask &&& (bit 32 irq).signExtend 64 ≠ 0 then
      { c with irqStatus := c.irqStatus ||| bit 64 irq }
    else c
  else if irq = phonyHardIrq then { c with lockIgnore := true }
  else c

/-! ### The 32-bit test -/

/-- **Which lines pass.** The bit of line 31 is the sign: the test for it looks at every bit of the
mask from 31 on. -/
theorem gate_iff (mask : BitVec 64) {irq : ℕ} (h : irq < nIrqs) :
    mask &&& (bit 32 irq).signExtend 64 ≠ 0 ↔
      irq ∈ lines mask ∨ irq = 31 ∧ ∃ j ∈ lines mask, nIrqs ≤ j := by
  have hb : ∀ j, ((bit 32 irq).signExtend 64).getLsbD j = true ↔
      j < 64 ∧ (j = irq ∨ irq = 31 ∧ 32 ≤ j) := by
    intro j
    rw [BitVec.getLsbD_signExtend]
    have hm : (bit 32 irq).msb = decide (irq = 31) := by
      rw [BitVec.msb_eq_getLsbD_last, getLsbD_bit]
      simp [h]
    have h' : irq < 32 := h
    by_cases hj : j < 32
    · simp only [hj, if_true, getLsbD_bit, h, decide_true, Bool.true_and, Bool.and_eq_true,
        decide_eq_true_eq]
      omega
    · simp only [hj, if_false, hm, Bool.and_eq_true, decide_eq_true_eq]
      omega
  rw [ne_eq, ← lines_eq_empty, ← ne_eq, ← Finset.nonempty_iff_ne_empty]
  simp only [Finset.Nonempty, mem_lines, BitVec.getLsbD_and, Bool.and_eq_true, hb]
  constructor
  · rintro ⟨j, hj, -, rfl | ⟨h31, h32⟩⟩
    · exact .inl hj
    · exact .inr ⟨h31, j, hj, h32⟩
  · rintro (hi | ⟨h31, j, hj, h32⟩)
    · exact ⟨irq, hi, BitVec.lt_of_getLsbD hi, .inl rfl⟩
    · exact ⟨j, hj, BitVec.lt_of_getLsbD hj, .inr ⟨h31, h32⟩⟩

/-! ### Pending, raised and enabled lines -/

/-- The lines of the table only are raised; a pending line is a raised one; a raised line that is
enabled is pending. -/
structure Latched (c : IrqCtrl) : Prop where
  premask_lt : ∀ i ∈ lines c.irqPremask, i < nIrqs
  pending_premask : ∀ i ∈ lines c.irqStatus, i ∈ lines c.irqPremask
  enabled_pending : ∀ i ∈ lines c.irqPremask, i ∈ lines c.irqMask → i ∈ lines c.irqStatus

theorem mem_status_irqRaisePrefix (c : IrqCtrl) {irq i : ℕ} :
    i ∈ lines (c.irqRaisePrefix irq).irqStatus ↔ i ∈ lines c.irqStatus ∨ i = irq ∧ irq < nIrqs ∧
      (irq ∈ lines c.irqMask ∨ irq = 31 ∧ ∃ j ∈ lines c.irqMask, nIrqs ≤ j) := by
  unfold irqRaisePrefix
  dsimp only
  by_cases h : irq < nIrqs
  · rw [if_pos h]
    split_ifs with hg
    · rw [gate_iff _ h] at hg
      rw [mem_lines_or_bit (h.trans (by decide))]
      exact or_congr_right (iff_self_and.mpr fun _ => ⟨h, hg⟩)
    · rw [gate_iff _ h] at hg
      exact (or_iff_left fun hc => hg hc.2.2).symm
  · rw [if_neg h]
    split_ifs <;> exact (or_iff_left fun hc => h hc.2.1).symm

theorem mem_premask_irqRaisePrefix (c : IrqCtrl) {irq i : ℕ} :
    i ∈ lines (c.irqRaisePrefix irq).irqPremask ↔
      i ∈ lines c.irqPremask ∨ i = irq ∧ irq < nIrqs := by
  unfold irqRaisePrefix
  dsimp only
  by_cases h : irq < nIrqs
  · rw [if_pos h]
    split_ifs <;> simp only [mem_lines_or_bit (w := 64) (h.trans (by decide)), h, and_true]
  · rw [if_neg h]
    split_ifs <;> simp [h]

@[simp] theorem irqMask_irqRaisePrefix (c : IrqCtrl) (irq : ℕ) :
    (c.irqRaisePrefix irq).irqMask = c.irqMask := by
  unfold irqRaisePrefix
  dsimp only
  split_ifs <;> rfl

@[simp] theorem irqsLocked_irqRaisePrefix (c : IrqCtrl) (irq : ℕ) :
    (c.irqRaisePrefix irq).irqsLocked = c.irqsLocked := by
  unfold irqRaisePrefix
  dsimp only
  split_ifs <;> rfl

@[simp] theorem irqPrio_irqRaisePrefix (c : IrqCtrl) (irq : ℕ) :
    (c.irqRaisePrefix irq).irqPrio = c.irqPrio := by
  unfold irqRaisePrefix
  dsimp only
  split_ifs <;> rfl

@[simp] theorem currentlyRunningPrio_irqRaisePrefix (c : IrqCtrl) (irq : ℕ) :
    (c.irqRaisePrefix irq).currentlyRunningPrio = c.currentlyRunningPrio := by
  unfold irqRaisePrefix
  dsimp only
  split_ifs <;> rfl

@[simp] theorem prioOf_irqRaisePrefix (c : IrqCtrl) (irq : ℕ) :
    (c.irqRaisePrefix irq).prioOf = c.prioOf :=
  funext fun i => by simp [prioOf, hwIrqCtrlGetPrio]

/-- The line is raised first. -/
theorem irqRaisePrefix_premask (c : IrqCtrl) {irq : ℕ} (h : irq < nIrqs) :
    { c with irqPremask := c.irqPremask ||| bit 64 irq }.irqRaisePrefix irq =
      c.irqRaisePrefix irq := by
  unfold irqRaisePrefix
  dsimp only
  rw [if_pos h, if_pos h, BitVec.or_assoc, BitVec.or_self]

namespace Latched

variable {c : IrqCtrl}

theorem init : (static.hwIrqCtrlInit).Latched :=
  ⟨by simp [static, hwIrqCtrlInit], by simp [static, hwIrqCtrlInit],
    by simp [static, hwIrqCtrlInit]⟩

theorem status_lt (h : c.Latched) : ∀ i ∈ lines c.irqStatus, i < nIrqs :=
  fun i hi => h.premask_lt i (h.pending_premask i hi)

/-- Only the three words matter. -/
theorem congr {d : IrqCtrl} (h : c.Latched) (hs : d.irqStatus = c.irqStatus)
    (hp : d.irqPremask = c.irqPremask) (hm : d.irqMask = c.irqMask) : d.Latched :=
  ⟨hp ▸ h.premask_lt, hs ▸ hp ▸ h.pending_premask, hs ▸ hp ▸ hm ▸ h.enabled_pending⟩

theorem irqRaisePrefix (h : c.Latched) (irq : ℕ) : (c.irqRaisePrefix irq).Latched := by
  refine ⟨fun i hi => ?_, fun i hi => ?_, fun i hi hm => ?_⟩
  · rcases (mem_premask_irqRaisePrefix c).mp hi with hi | ⟨rfl, hi⟩
    · exact h.premask_lt i hi
    · exact hi
  · rcases (mem_status_irqRaisePrefix c).mp hi with hi | ⟨rfl, hi, -⟩
    · exact (mem_premask_irqRaisePrefix c).mpr (.inl (h.pending_premask i hi))
    · exact (mem_premask_irqRaisePrefix c).mpr (.inr ⟨rfl, hi⟩)
  · rw [irqMask_irqRaisePrefix] at hm
    rcases (mem_premask_irqRaisePrefix c).mp hi with hi | ⟨rfl, hi⟩
    · exact (mem_status_irqRaisePrefix c).mpr (.inl (h.enabled_pending i hi hm))
    · exact (mem_status_irqRaisePrefix c).mpr (.inr ⟨rfl, hi, .inl hm⟩)

theorem clearIrq (h : c.Latched) (irq : ℕ) : (c.hwIrqCtrlClearIrq irq).Latched := by
  refine ⟨fun i hi => ?_, fun i hi => ?_, fun i hi hm => ?_⟩
  · exact h.premask_lt i (mem_lines_and_not_bit.mp hi).1
  · obtain ⟨hi, hne⟩ := mem_lines_and_not_bit.mp hi
    exact mem_lines_and_not_bit.mpr ⟨h.pending_premask i hi, hne⟩
  · obtain ⟨hi, hne⟩ := mem_lines_and_not_bit.mp hi
    exact mem_lines_and_not_bit.mpr ⟨h.enabled_pending i hi hm, hne⟩

theorem clearAllIrqs (c : IrqCtrl) : c.hwIrqCtrlClearAllIrqs.Latched :=
  ⟨by simp [hwIrqCtrlClearAllIrqs], by simp [hwIrqCtrlClearAllIrqs],
    by simp [hwIrqCtrlClearAllIrqs]⟩

theorem clearAllEnabledIrqs (h : c.Latched) : c.hwIrqCtrlClearAllEnabledIrqs.Latched := by
  refine ⟨fun i hi => ?_, by simp [hwIrqCtrlClearAllEnabledIrqs], fun i hi hm => ?_⟩
  · exact h.premask_lt i (mem_lines_and_not.mp hi).1
  · exact absurd hm (mem_lines_and_not.mp hi).2

/-- Enabling a line that is not raised. -/
theorem enable (h : c.Latched) {irq : ℕ} (hi : irq ∉ lines c.irqPremask) :
    { c with irqMask := c.irqMask ||| bit 64 irq }.Latched := by
  refine ⟨h.premask_lt, h.pending_premask, fun i hp hm => ?_⟩
  rcases mem_lines_or.mp hm with hm | hm
  · exact h.enabled_pending i hp hm
  · exact absurd ((mem_lines_bit.mp hm).2 ▸ hp) hi

/-- Enabling a line that is raised, and raising it again. -/
theorem enable_raise (h : c.Latched) {irq : ℕ} (hi : irq ∈ lines c.irqPremask) :
    ({ c with irqMask := c.irqMask ||| bit 64 irq }.irqRaisePrefix irq).Latched := by
  have hlt := h.premask_lt irq hi
  refine ⟨fun i hp => ?_, fun i hs => ?_, fun i hp hm => ?_⟩
  · rcases (mem_premask_irqRaisePrefix _).mp hp with hp | ⟨rfl, hp⟩
    · exact h.premask_lt i hp
    · exact hp
  · rcases (mem_status_irqRaisePrefix _).mp hs with hs | ⟨rfl, hs, -⟩
    · exact (mem_premask_irqRaisePrefix _).mpr (.inl (h.pending_premask i hs))
    · exact (mem_premask_irqRaisePrefix _).mpr (.inr ⟨rfl, hs⟩)
  · rw [irqMask_irqRaisePrefix, mem_lines_or_bit (lt_of_mem_lines hi)] at hm
    rw [mem_status_irqRaisePrefix, mem_lines_or_bit (lt_of_mem_lines hi)]
    rcases hm with hm | rfl
    · rcases (mem_premask_irqRaisePrefix _).mp hp with hp | ⟨rfl, hp⟩
      · exact .inl (h.enabled_pending i hp hm)
      · exact .inr ⟨rfl, hp, .inl (.inl hm)⟩
    · exact .inr ⟨rfl, hlt, .inl (.inr rfl)⟩

theorem disableIrq (h : c.Latched) (irq : ℕ) : (c.hwIrqCtrlDisableIrq irq).Latched :=
  ⟨h.premask_lt, h.pending_premask,
    fun i hi hm => h.enabled_pending i hi (mem_lines_and_not_bit.mp hm).1⟩

end Latched

/-! ### The search for the highest priority -/

theorem prioOf_lt (c : IrqCtrl) (irq : ℕ) : c.prioOf irq < 256 := UInt8.toNat_lt _

/-- The raised and the pending lines, what runs, and the levels it interrupted, as preemptive
priorities. -/
def toPreempt (c : IrqCtrl) (saved : List ℕ) : Preempt.State ℕ ℕ :=
  ⟨lines c.irqPremask, lines c.irqStatus, c.prioOf, c.currentlyRunningPrio, saved⟩

/-- Among the low 32 bits, `find_lsb_set` finds the lowest. -/
theorem find_of_low {s : BitVec 64} (hs : s ≠ 0) (hlt : ∀ i ∈ lines s, i < nIrqs) :
    (List.range 64).find? (fun i => s.getLsbD i) = some (findLsbSet (s.setWidth 32) - 1) := by
  have hr : List.range 64 = List.range 32 ++ (List.range 32).map (32 + ·) :=
    @List.range_add 32 32
  have hc : (List.range 32).find? (fun i => (s.setWidth 32).getLsbD i) =
      (List.range 32).find? fun i => s.getLsbD i :=
    List.find?_congr fun i hi => by simp [List.mem_range.mp hi]
  rw [findLsbSet, hc, hr, List.find?_append]
  cases hf : (List.range 32).find? fun i => s.getLsbD i with
  | some i => rfl
  | none =>
    obtain ⟨i, hi⟩ := Finset.nonempty_iff_ne_empty.mpr (mt lines_eq_empty.mp hs)
    have := List.find?_eq_none.mp hf i (List.mem_range.mpr (hlt i hi))
    exact absurd (mem_lines.mp hi) this

/-- **The loop is the running minimum** over the pending lines, in increasing order. -/
theorem highestPrioLoop_eq_scan (c : IrqCtrl) (fuel : ℕ) {s : BitVec 64}
    (hlt : ∀ i ∈ lines s, i < nIrqs) (hf : (lines s).card ≤ fuel) (w : Option ℕ) :
    c.highestPrioLoop fuel s w (w.elim 256 c.prioOf) =
      Preempt.scan c.prioOf c.currentlyRunningPrio w (bits (fun i => s.getLsbD i) 64) := by
  induction fuel generalizing s w with
  | zero =>
    obtain rfl := lines_eq_empty.mp (Finset.card_eq_zero.mp (Nat.le_zero.mp hf))
    simp [highestPrioLoop, bits, Preempt.scan]
  | succ fuel ih =>
    unfold highestPrioLoop
    split_ifs with hs
    · subst hs
      simp [bits, Preempt.scan]
    have hfind := find_of_low hs hlt
    generalize findLsbSet (s.setWidth 32) - 1 = i at hfind
    have hi : i ∈ lines s := mem_lines.mpr (List.find?_some hfind)
    have hbits : bits (fun j => s.getLsbD j && decide (j ≠ i)) 64 =
        bits (fun j => (s &&& ~~~bit 64 i).getLsbD j) 64 := by
      refine List.filter_congr fun j _ => ?_
      rw [Bool.eq_iff_iff, ← mem_lines, mem_lines_and_not_bit, mem_lines]
      simp
    rw [bits_eq_cons hfind, hbits, Preempt.scan]
    have ih := fun w => @ih (s &&& ~~~bit 64 i) (fun j hj => hlt j (mem_lines_and_not_bit.mp hj).1)
      (by have := card_and_not_bit_lt hi; omega) w
    have hw : w.elim 256 c.prioOf > c.prioOf i ↔ ∀ m ∈ w, c.prioOf i < c.prioOf m := by
      cases w with
      | none => simpa using c.prioOf_lt i
      | some m => simp
    simp only [← hw]
    split_ifs with hc <;> exact ih _

theorem mem_bits_status (c : IrqCtrl) (saved : List ℕ) (i : ℕ) :
    i ∈ bits (fun i => c.irqStatus.getLsbD i) 64 ↔ i ∈ (c.toPreempt saved).pending := by
  rw [mem_bits]
  exact ⟨fun h => mem_lines.mpr h.2, fun h => ⟨lt_of_mem_lines h, mem_lines.mp h⟩⟩

section Highest

variable {c : IrqCtrl} (hc : c.Latched) (saved : List ℕ)
include hc

theorem loop_eq_scan : c.highestPrioLoop 64 c.irqStatus none 256 =
    Preempt.scan c.prioOf c.currentlyRunningPrio none (bits (fun i => c.irqStatus.getLsbD i) 64) :=
  highestPrioLoop_eq_scan c 64 hc.status_lt (by
    have := Finset.card_filter_le (Finset.range 64) fun i => c.irqStatus.getLsbD i = true
    simpa [lines] using this) none

/-- **The line that is found** is the one to be served next. -/
theorem hwIrqCtrlGetHighestPrioIrq_eq_some {irq : ℕ}
    (h : c.hwIrqCtrlGetHighestPrioIrq = some irq) :
    c.irqsLocked = false ∧ Preempt.Next (c.toPreempt saved) irq := by
  unfold hwIrqCtrlGetHighestPrioIrq at h
  split_ifs at h with hl
  rw [loop_eq_scan hc] at h
  exact ⟨by simpa using hl,
    Preempt.next_of_scan (pairwise_bits _ _) (mem_bits_status c saved) h⟩

/-- **None is found** when interrupts are locked or no pending line outranks the running one. -/
theorem hwIrqCtrlGetHighestPrioIrq_eq_none : c.hwIrqCtrlGetHighestPrioIrq = none ↔
    c.irqsLocked = true ∨ Preempt.Settled (c.toPreempt saved) := by
  unfold hwIrqCtrlGetHighestPrioIrq
  split_ifs with hl
  · simp [hl]
  · rw [loop_eq_scan hc, or_iff_right hl]
    exact Preempt.scan_eq_none (pairwise_bits _ _) (mem_bits_status c saved)

end Highest

end IrqCtrl

end MeshNode
