import MeshNode.Lora.Driver
import Mathlib.Data.Set.Basic

/-!
# What a record says about its packet

`lora_callback_handler` is given a pointer and a size. Only the bytes below the size belong to the
packet; what stands behind them in memory is arbitrary. The handler copies `LORA_MAX_MSG_LEN` bytes
in any case and prints up to the first NUL.

* `InMemory p mem`: the packet `p` stands at the start of the memory `mem`;
* `Faithful S`: on the packets of `S` the handler depends on the packet only, and a reader of the
  record can recover it;
* `loraRecord_eq_iff`, `textAt_eq`: what the record and the printed text depend on;
* **`faithful_iff`**: that is so exactly for packets of full length that contain a NUL.
-/

namespace MeshNode

open Interact Prog

/-- The packet stands at the start of the memory. -/
def InMemory (p : List UInt8) (mem : ℕ → UInt8) : Prop := ∀ i (h : i < p.length), mem i = p[i]

/-- **Records that are images of their packets and of nothing else**, for the packets of `S`. -/
structure Faithful (S : Set (List UInt8)) : Prop where
  /-- The rest of the memory is neither copied nor read. -/
  closed : ∀ p ∈ S, ∀ m m', InMemory p m → InMemory p m' → loraRecord m = loraRecord m' ∧
    ∀ rssi snr, loraCallbackHandler m p.length.toUInt16 rssi snr =
      loraCallbackHandler m' p.length.toUInt16 rssi snr
  /-- The packet can be recovered from the record. -/
  recoverable : ∃ decode : LoraMsgqDataType → List UInt8,
    ∀ p ∈ S, ∀ m, InMemory p m → decode (loraRecord m) = p

/-- A packet with some bytes behind it. -/
def memOf (p : List UInt8) (rest : UInt8) (i : ℕ) : UInt8 := p.getD i rest

theorem inMemory_memOf (p : List UInt8) (rest : UInt8) : InMemory p (memOf p rest) :=
  fun i h => by simp [memOf, h]

theorem memOf_of_le {p : List UInt8} {i : ℕ} (h : p.length ≤ i) (rest : UInt8) :
    memOf p rest i = rest := by
  simp [memOf, h]

/-! ### What the handler reads -/

/-- The record depends on exactly the first `LORA_MAX_MSG_LEN` bytes. -/
theorem loraRecord_eq_iff {m m' : ℕ → UInt8} :
    loraRecord m = loraRecord m' ↔ ∀ i < loraMaxMsgLen, m i = m' i := by
  constructor
  · intro h i hi
    have := congrArg (fun r => r.rData[i]) h
    simpa [loraRecord] using this
  · intro h
    have hv : (Vector.ofFn fun i : Fin loraMaxMsgLen => m i) = Vector.ofFn fun i => m' i :=
      Vector.ext fun i hi => by rw [Vector.getElem_ofFn, Vector.getElem_ofFn, h i hi]
    rw [loraRecord, loraRecord, hv]

/-- Memories that agree up to a NUL are printed alike. -/
theorem textAt_eq {m m' : ℕ → UInt8} {n : ℕ} (h : ∀ i < n, m i = m' i) (h0 : ∃ i < n, m i = 0) :
    textAt m = textAt m' := by
  funext i
  obtain ⟨k, hk, hz⟩ := h0
  unfold textAt
  by_cases hi : i < n
  · have hj : (∃ j < i, m j = 0) ↔ ∃ j < i, m' j = 0 :=
      exists_congr fun j => and_congr_right fun hj => by rw [h j (hj.trans hi)]
    simp only [hj, h i hi]
  · have hki : k < i := hk.trans_le (Nat.le_of_not_lt hi)
    rw [if_pos ⟨k, hki, hz⟩, if_pos ⟨k, hki, h k hk ▸ hz⟩]

theorem textAt_eq_of_handler_eq {m m' : ℕ → UInt8} {size : UInt16} {rssi : Int16} {snr : Int8}
    (h : loraCallbackHandler m size rssi snr = loraCallbackHandler m' size rssi snr) :
    textAt m = textAt m' := by
  unfold loraCallbackHandler at h
  injection h with _ hc _
  injection hc with _ ha
  injection ha with ht _
  injection ht

/-! ### Faithful records -/

section Faithful

variable {S : Set (List UInt8)} {p : List UInt8}

/-- The first byte behind a packet is copied unless the packet is of full length. -/
theorem Faithful.length_eq (h : Faithful S) (hp : p ∈ S) (hle : p.length ≤ loraMaxMsgLen) :
    p.length = loraMaxMsgLen := by
  by_contra hne
  have hrec := (h.closed p hp _ _ (inMemory_memOf p 0) (inMemory_memOf p 1)).1
  have hbyte := loraRecord_eq_iff.mp hrec p.length (lt_of_le_of_ne hle hne)
  rw [memOf_of_le le_rfl, memOf_of_le le_rfl] at hbyte
  exact absurd hbyte (by decide)

/-- It is printed unless a NUL comes before it. -/
theorem Faithful.zero_mem (h : Faithful S) (hp : p ∈ S) : 0 ∈ p := by
  by_contra h0
  have hno : ∀ rest, ¬ ∃ j < p.length, memOf p rest j = 0 := by
    rintro rest ⟨j, hj, hz⟩
    rw [inMemory_memOf p rest j hj] at hz
    exact h0 (hz ▸ List.getElem_mem hj)
  have hprog := (h.closed p hp _ _ (inMemory_memOf p 0) (inMemory_memOf p 1)).2 0 0
  have hbyte := congrFun (textAt_eq_of_handler_eq hprog) p.length
  unfold textAt at hbyte
  rw [if_neg (hno 0), if_neg (hno 1), memOf_of_le le_rfl, memOf_of_le le_rfl] at hbyte
  exact absurd hbyte (by decide)

/-- Packets of full length with a NUL: the record is the packet, and the text ends in it. -/
theorem faithful_of_full (h : ∀ p ∈ S, p.length = loraMaxMsgLen ∧ 0 ∈ p) : Faithful S := by
  have hagree : ∀ p ∈ S, ∀ m m', InMemory p m → InMemory p m' →
      ∀ i < loraMaxMsgLen, m i = m' i := by
    intro p hp m m' hm hm' i hi
    have hi : i < p.length := (h p hp).1.symm ▸ hi
    rw [hm i hi, hm' i hi]
  refine ⟨fun p hp m m' hm hm' => ?_, fun r => r.rData.toList, fun p hp m hm => ?_⟩
  · have hrec := loraRecord_eq_iff.mpr (hagree p hp m m' hm hm')
    obtain ⟨k, hk, hz⟩ := List.mem_iff_getElem.mp (h p hp).2
    have htext : textAt m = textAt m' :=
      textAt_eq (hagree p hp m m' hm hm') ⟨k, (h p hp).1 ▸ hk, (hm k hk).trans hz⟩
    refine ⟨hrec, fun rssi snr => ?_⟩
    rw [loraCallbackHandler, loraCallbackHandler, hrec, htext]
  · refine List.ext_getElem ?_ fun i h₁ h₂ => ?_
    · rw [Vector.length_toList, (h p hp).1]
    · rw [← hm i h₂]
      simp [loraRecord]

end Faithful

/-- **The packets with faithful records** are those of `LORA_MAX_MSG_LEN` bytes with a NUL. -/
theorem faithful_iff {S : Set (List UInt8)} (hS : ∀ p ∈ S, p.length ≤ loraMaxMsgLen) :
    Faithful S ↔ ∀ p ∈ S, p.length = loraMaxMsgLen ∧ 0 ∈ p :=
  ⟨fun h p hp => ⟨h.length_eq hp (hS p hp), h.zero_mem hp⟩, faithful_of_full⟩

/-- The packet of `LORA_MAX_MSG_LEN` zeros. -/
theorem faithful_iff_zeros : Faithful {List.replicate loraMaxMsgLen 0} :=
  (faithful_iff fun _ hp => (congrArg List.length hp).trans_le (List.length_replicate.le)).mpr
    fun _ hp => ⟨(congrArg List.length hp).trans List.length_replicate,
      hp ▸ List.mem_replicate.mpr ⟨by decide, rfl⟩⟩

/-- A packet of one byte: the byte behind it is in the record, and the same memory read as a packet
of two bytes gives the same record. -/
theorem not_faithful_short : InMemory [65] (memOf [65, 66] 0) ∧ InMemory [65] (memOf [65, 67] 0) ∧
    InMemory [65, 66] (memOf [65, 66] 0) ∧
    loraRecord (memOf [65, 66] 0) ≠ loraRecord (memOf [65, 67] 0) ∧
    ¬ Faithful {p | p.length ≤ loraMaxMsgLen} := by
  have h₁ : InMemory [65] (memOf [65, 66] 0) := fun i h => by
    obtain rfl : i = 0 := by simpa using h
    rfl
  have h₂ : InMemory [65] (memOf [65, 67] 0) := fun i h => by
    obtain rfl : i = 0 := by simpa using h
    rfl
  have hne : loraRecord (memOf [65, 66] 0) ≠ loraRecord (memOf [65, 67] 0) := fun h =>
    absurd (loraRecord_eq_iff.mp h 1 (by decide)) (by decide)
  refine ⟨h₁, h₂, inMemory_memOf _ _, hne, fun h => hne ?_⟩
  exact (h.closed [65] (by decide) _ _ h₁ h₂).1

end MeshNode
