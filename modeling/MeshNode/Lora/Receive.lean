import MeshNode.Lora.Driver

/-!
# Synchronous reception

`lora_driver_receive` lets the radio write to a local buffer. The copy to the caller's buffer stands
behind both returns and is never made.

* `receiveTrace`, **`runs_loraDriverReceive`**: the calls of the function and what it returns;
* `Delivers`: a packet has come to the caller's buffer, or nothing has;
* **`receive_delivers_iff`**: the outcomes and the buffers for which it does.
-/

namespace MeshNode

open Interact Prog CString

/-- The calls of `lora_driver_receive` when the radio answers `ret` and then `r`. -/
def receiveTrace (timeout : Timeout) (config : LoraModemConfig) (ret : ℤ) (r : LoraRecvResult) :
    FwTrace :=
  setTxRxTrace antennaRx config ret ++ ⟨.loraRecv loraMaxMsgLen timeout, r⟩ ::
    if r.ret < 0 then [⟨.logErr "receive failed%d" [.int r.ret], ()⟩]
    else [⟨.logDbg "Received data: %s (RSSI:%ddBm, SNR:%ddB)"
      [.str (overwrite (Vector.replicate loraMaxMsgLen 0) r.data).toList, .int r.rssi.toInt,
        .int r.snr.toInt], ()⟩]

section Receive

variable {timeout : Timeout} {data : Vector UInt8 loraMaxMsgLen} {config : LoraModemConfig}
  {tr : FwTrace} {s : LoraModemConfig × Received}

/-- **`lora_driver_receive`** hands back the caller's buffer as it was, and succeeds exactly when
`lora_recv` does. -/
theorem runs_loraDriverReceive : (loraDriverReceive timeout data config).Runs tr s ↔
    ∃ ret r, tr = receiveTrace timeout config ret r ∧
      s = ({ config with tx := antennaRx }, ⟨data, r.rssi, r.snr, decide (0 ≤ r.ret)⟩) := by
  constructor
  · intro h
    obtain ⟨_, _, _, rfl, h₁, h₂⟩ := (runs_bind _ _ _ _).mp h
    obtain ⟨ret, rfl, rfl⟩ := runs_setTxRx.mp h₁
    obtain ⟨r, _, rfl, h₃⟩ := (runs_perform_bind _ _ _ _).mp h₂
    refine ⟨ret, r, ?_⟩
    unfold receiveTrace
    split_ifs at h₃ ⊢ with hr
    · obtain ⟨_, _, rfl, rfl, rfl⟩ := (runs_perform_bind _ _ _ _).mp h₃
      exact ⟨rfl, by rw [decide_eq_false (Int.not_le.mpr hr)]⟩
    · obtain ⟨_, _, rfl, rfl, rfl⟩ := (runs_perform_bind _ _ _ _).mp h₃
      exact ⟨rfl, by rw [decide_eq_true (Int.not_lt.mp hr)]⟩
  · rintro ⟨ret, r, rfl, rfl⟩
    refine (runs_bind _ _ _ _).mpr ⟨_, _, _, rfl, runs_setTxRx.mpr ⟨ret, rfl, rfl⟩,
      (runs_perform_bind _ _ _ _).mpr ⟨r, _, rfl, ?_⟩⟩
    split_ifs with hr
    · exact ⟨(), [], rfl, rfl, by rw [decide_eq_false (Int.not_le.mpr hr)]⟩
    · exact ⟨(), [], rfl, rfl, by rw [decide_eq_true (Int.not_lt.mp hr)]⟩

/-- A trace of the function has one answer of `lora_recv`. -/
theorem eq_of_loraRecv_mem {ret : ℤ} {r r' : LoraRecvResult}
    (h : ⟨.loraRecv loraMaxMsgLen timeout, r'⟩ ∈ receiveTrace timeout config ret r) : r' = r := by
  by_cases hret : ret < 0 <;> by_cases hr : r.ret < 0 <;>
    simpa [receiveTrace, setTxRxTrace, configLoraTrace, hret, hr] using h

end Receive

/-- What the caller gets for an outcome of `lora_recv`: on success the packet stands at the start of
the buffer, otherwise the buffer is as it was. -/
def Delivers (r : LoraRecvResult) (data : Vector UInt8 loraMaxMsgLen) (x : Received) : Prop :=
  (x.ok = true → x.data.toList.take r.ret.toNat = r.data) ∧ (x.ok = false → x.data = data)

/-- **The packet is delivered** exactly if there is none, or it was in the caller's buffer before.
Every outcome of `lora_recv` occurs in a run. -/
theorem receive_delivers_iff (timeout : Timeout) (data : Vector UInt8 loraMaxMsgLen)
    (config : LoraModemConfig) (r : LoraRecvResult) :
    (∃ tr s, (loraDriverReceive timeout data config).Runs tr s ∧
      ⟨.loraRecv loraMaxMsgLen timeout, r⟩ ∈ tr) ∧
    ∀ tr s, (loraDriverReceive timeout data config).Runs tr s →
      ⟨.loraRecv loraMaxMsgLen timeout, r⟩ ∈ tr →
      (Delivers r data s.2 ↔ r.ret < 0 ∨ data.toList.take r.ret.toNat = r.data) := by
  refine ⟨⟨_, _, runs_loraDriverReceive.mpr ⟨0, r, rfl, rfl⟩, ?_⟩, fun tr s h hm => ?_⟩
  · exact List.mem_append_right _ List.mem_cons_self
  · obtain ⟨ret, r', rfl, rfl⟩ := runs_loraDriverReceive.mp h
    obtain rfl := eq_of_loraRecv_mem hm
    by_cases hr : r.ret < 0
    · simp [Delivers, hr]
    · simp [Delivers, hr, Int.not_lt.mp hr]

/-- A packet of one byte is received with success, and the buffer stays empty. -/
theorem receive_loses_packet : ∃ tr s,
    (loraDriverReceive .forever (Vector.replicate _ 0) initConfig).Runs tr s ∧
    ⟨.loraRecv loraMaxMsgLen .forever, ⟨1, [65], -60, 9⟩⟩ ∈ tr ∧ s.2.ok = true ∧
    s.2.data = Vector.replicate _ 0 ∧
    ¬ Delivers ⟨1, [65], -60, 9⟩ (Vector.replicate _ 0) s.2 := by
  refine ⟨_, _, runs_loraDriverReceive.mpr ⟨0, ⟨1, [65], -60, 9⟩, rfl, rfl⟩,
    List.mem_append_right _ List.mem_cons_self, rfl, rfl, fun h => ?_⟩
  have htake : (Vector.replicate loraMaxMsgLen (0 : UInt8)).toList.take 1 = [65] := h.1 rfl
  exact absurd htake (by decide)

end MeshNode
