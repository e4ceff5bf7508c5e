import MeshNode.Gsm.Init
import MeshNode.Lora.Receive

/-!
# What the drivers report

Five operations of the drivers return a `bool`: success, if the device was ready and the calls to it
succeeded.

* `DriverOp`: the operations, with their code, and the direction they hand to `set_tx_rx`;
* `Hardware`: the readiness of the devices and the results of the calls;
* `Succeeded`, `HardwareOk`: a call, or every call of a trace, succeeded;
* `Contract`: what an operation promises of its calls, its result and the global `config`;
* `runs_loraDriverInit`, `runs_loraDriverStartCallback`: the operations not specified so far;
* `Honest`, **`contract_iff`**: the hardware for which an operation keeps its promise.
-/

namespace MeshNode

open Interact Prog

/-- The operations that report success. -/
inductive DriverOp
  | gsmDriverInit
  | loraDriverInit
  | setTxRx (value : Bool)
  | loraDriverReceive (timeout : Timeout) (data : Vector UInt8 loraMaxMsgLen)
  | loraDriverStartCallback

/-- The function called: the global `config` afterwards, and the result. -/
def DriverOp.code (enotsup enosys : ℤ) (config : LoraModemConfig) :
    DriverOp → Fw (LoraModemConfig × Bool)
  | .gsmDriverInit => do
    let ok ← MeshNode.gsmDriverInit enotsup enosys
    pure (config, ok)
  | .loraDriverInit => MeshNode.loraDriverInit
  | .setTxRx value => MeshNode.setTxRx value config
  | .loraDriverReceive timeout data => do
    let s ← MeshNode.loraDriverReceive timeout data config
    pure (s.1, s.2.ok)
  | .loraDriverStartCallback => MeshNode.loraDriverStartCallback config

/-- The direction with which an operation calls `set_tx_rx`, if it does. -/
def DriverOp.direction : DriverOp → Option Bool
  | .gsmDriverInit => none
  | .loraDriverInit => none
  | .setTxRx value => some value
  | .loraDriverReceive _ _ => some antennaRx
  | .loraDriverStartCallback => some antennaRx

/-- An operation that calls `set_tx_rx` begins with it, in the `config` it was called with. -/
theorem DriverOp.code_of_direction {op : DriverOp} {value : Bool} (h : op.direction = some value)
    (enotsup enosys : ℤ) (config : LoraModemConfig) :
    ∃ k, op.code enotsup enosys config = (MeshNode.setTxRx value config).bind k := by
  cases op with
  | gsmDriverInit => cases h
  | loraDriverInit => cases h
  | setTxRx v =>
    cases h
    exact ⟨.ret, (bind_ret _).symm⟩
  | loraDriverReceive timeout data =>
    cases h
    exact ⟨_, bind_assoc _ _ _⟩
  | loraDriverStartCallback =>
    cases h
    exact ⟨_, rfl⟩

/-! ### The hardware -/

/-- A pattern of readiness and of results of the calls to the devices. -/
structure Hardware where
  uartReady : Bool
  loraReady : Bool
  uartIrqCallbackUserDataSet : ℤ
  loraConfig : ℤ
  loraRecv : LoraRecvResult
  loraRecvAsync : ℤ

/-- The answer is that of the hardware. -/
def Hardware.Answers (hw : Hardware) : FwEvent → Prop
  | ⟨.deviceIsReady .uartDev, r⟩ => r = hw.uartReady
  | ⟨.deviceIsReady .loraDev, r⟩ => r = hw.loraReady
  | ⟨.uartIrqCallbackUserDataSet, r⟩ => r = hw.uartIrqCallbackUserDataSet
  | ⟨.loraConfig _, r⟩ => r = hw.loraConfig
  | ⟨.loraRecv _ _, r⟩ => r = hw.loraRecv
  | ⟨.loraRecvAsync _, r⟩ => r = hw.loraRecvAsync
  | _ => True

/-- The call succeeded: a ready device, no error code. -/
def Succeeded : FwEvent → Prop
  | ⟨.deviceIsReady _, r⟩ => r = true
  | ⟨.uartIrqCallbackUserDataSet, r⟩ => (0 : ℤ) ≤ r
  | ⟨.loraConfig _, r⟩ => (0 : ℤ) ≤ r
  | ⟨.loraRecv _ _, r⟩ => 0 ≤ r.ret
  | ⟨.loraRecvAsync _, r⟩ => (0 : ℤ) ≤ r
  | _ => True

/-- Every call that was made succeeded. -/
def HardwareOk (tr : FwTrace) : Prop := ∀ e ∈ tr, Succeeded e

/-! ### The contract -/

/-- What an operation promises when it was called with `config`, made the calls `tr` and came back
with `s`: of its result, of the receive interrupt, and of the `set_tx_rx` it called, whose calls `t`
the run begins with. -/
structure Contract (op : DriverOp) (config : LoraModemConfig) (tr : FwTrace)
    (s : LoraModemConfig × Bool) : Prop where
  result : s.2 = true ↔ HardwareOk tr
  rxEnable : ⟨.uartIrqRxEnable, ()⟩ ∈ tr → HardwareOk tr
  restored : ∀ value, op.direction = some value → ∀ t rest s', tr = t ++ rest →
    (setTxRx value config).Runs t s' → s'.2 = false → s'.1 = config

/-- The hardware for which an operation keeps its promise. -/
def Honest (hw : Hardware) (config : LoraModemConfig) : DriverOp → Prop
  | .gsmDriverInit => ¬ (hw.uartReady = true ∧ 0 ≤ hw.uartIrqCallbackUserDataSet)
  | .loraDriverInit => hw.loraReady = true → 0 ≤ hw.loraConfig
  | .setTxRx value => 0 ≤ hw.loraConfig ∨ config.tx = value
  | .loraDriverReceive _ _ =>
    0 ≤ hw.loraConfig ∨ (hw.loraRecv.ret < 0 ∧ config.tx = antennaRx)
  | .loraDriverStartCallback =>
    0 ≤ hw.loraConfig ∨ (hw.loraRecvAsync < 0 ∧ config.tx = antennaRx)

/-- The contract of an operation whose calls all succeed when `p` holds. -/
theorem contract_of_hardwareOk {op : DriverOp} {config : LoraModemConfig} {tr : FwTrace}
    {s : LoraModemConfig × Bool} {p : Prop} (hok : HardwareOk tr ↔ p)
    (hrx : ⟨.uartIrqRxEnable, ()⟩ ∈ tr → p) : Contract op config tr s ↔
      (s.2 = true ↔ p) ∧ ∀ value, op.direction = some value → ∀ t rest s', tr = t ++ rest →
        (setTxRx value config).Runs t s' → s'.2 = false → s'.1 = config := by
  constructor
  · intro h
    exact ⟨h.result.trans hok, h.restored⟩
  · rintro ⟨hresult, hrestored⟩
    exact ⟨hresult.trans hok.symm, fun hm => hok.mpr (hrx hm), hrestored⟩

/-! ### The operations -/

/-- What holds of the messages and of the radio's answer holds of all calls of `set_tx_rx`. -/
theorem forall_mem_setTxRxTrace {Q : FwEvent → Prop} (hlog : ∀ f a, Q ⟨.logErr f a, ()⟩)
    (value : Bool) (config : LoraModemConfig) (ret : ℤ) :
    (∀ e ∈ setTxRxTrace value config ret, Q e) ↔
      Q ⟨.loraConfig { config with tx := value }, ret⟩ := by
  unfold setTxRxTrace configLoraTrace
  split_ifs <;> simp [hlog]

/-- The calls of `lora_driver_init`. -/
def loraInitTrace (ready : Bool) (ret : ℤ) : FwTrace :=
  ⟨.deviceIsReady .loraDev, ready⟩ ::
    if ready then configLoraTrace initConfig ret ++ [⟨.kQueueInit, ()⟩]
    else [⟨.logErr "deivce is not ready" [], ()⟩]

/-- **`lora_driver_init`** reports the readiness of the device. -/
theorem runs_loraDriverInit {tr : FwTrace} {s : LoraModemConfig × Bool} :
    loraDriverInit.Runs tr s ↔
      ∃ ready ret, tr = loraInitTrace ready ret ∧ s = (initConfig, ready) := by
  constructor
  · intro h
    obtain ⟨ready, _, rfl, hrest⟩ := (runs_perform_bind _ _ _ _).mp h
    cases ready with
    | false =>
      obtain ⟨_, _, rfl, rfl, rfl⟩ := (runs_perform_bind _ _ _ _).mp hrest
      exact ⟨false, 0, rfl, rfl⟩
    | true =>
      obtain ⟨_, _, _, rfl, h₁, h₂⟩ := (runs_bind _ _ _ _).mp hrest
      obtain ⟨ret, rfl, -⟩ := runs_configLora.mp h₁
      obtain ⟨_, _, rfl, rfl, rfl⟩ := (runs_perform_bind _ _ _ _).mp h₂
      exact ⟨true, ret, rfl, rfl⟩
  · rintro ⟨ready, ret, rfl, rfl⟩
    refine (runs_perform_bind _ _ _ _).mpr ⟨ready, _, rfl, ?_⟩
    cases ready with
    | false => exact ⟨(), [], rfl, rfl, rfl⟩
    | true => exact (runs_bind _ _ _ _).mpr ⟨_, _, _, rfl, runs_configLora.mpr ⟨ret, rfl, rfl⟩,
        (), [], rfl, rfl, rfl⟩

/-- The calls of `lora_driver_start_callback`. -/
def startCallbackTrace (config : LoraModemConfig) (ret rec_ : ℤ) : FwTrace :=
  setTxRxTrace antennaRx config ret ++ ⟨.loraRecvAsync (some .loraCallbackHandler), rec_⟩ ::
    if rec_ < 0 then [⟨.logErr "lora callback start error:%d" [.int rec_], ()⟩] else []

/-- **`lora_driver_start_callback`** reports the result of its last call. -/
theorem runs_loraDriverStartCallback {config : LoraModemConfig} {tr : FwTrace}
    {s : LoraModemConfig × Bool} : (loraDriverStartCallback config).Runs tr s ↔
      ∃ ret rec_, tr = startCallbackTrace config ret rec_ ∧
        s = ({ config with tx := antennaRx }, decide (0 ≤ rec_)) := by
  constructor
  · intro h
    obtain ⟨_, _, _, rfl, h₁, h₂⟩ := (runs_bind _ _ _ _).mp h
    obtain ⟨ret, rfl, rfl⟩ := runs_setTxRx.mp h₁
    obtain ⟨rec_, _, rfl, h₃⟩ := (runs_perform_bind _ _ _ _).mp h₂
    refine ⟨ret, rec_, ?_⟩
    unfold startCallbackTrace
    split_ifs at h₃ ⊢ with hr
    · obtain ⟨_, _, rfl, rfl, rfl⟩ := (runs_perform_bind _ _ _ _).mp h₃
      exact ⟨rfl, by rw [decide_eq_false (Int.not_le.mpr hr)]⟩
    · obtain ⟨rfl, rfl⟩ := h₃
      exact ⟨rfl, by rw [decide_eq_true (Int.not_lt.mp hr)]⟩
  · rintro ⟨ret, rec_, rfl, rfl⟩
    refine (runs_bind _ _ _ _).mpr ⟨_, _, _, rfl, runs_setTxRx.mpr ⟨ret, rfl, rfl⟩,
      (runs_perform_bind _ _ _ _).mpr ⟨rec_, _, rfl, ?_⟩⟩
    split_ifs with hr
    · exact ⟨(), [], rfl, rfl, by rw [decide_eq_false (Int.not_le.mpr hr)]⟩
    · exact ⟨rfl, by rw [decide_eq_true (Int.not_lt.mp hr)]⟩

/-! ### The calls on given hardware -/

section Hardware

variable (enotsup enosys : ℤ) (config : LoraModemConfig) (hw : Hardware)

/-- The calls of an operation. -/
def DriverOp.trace : DriverOp → FwTrace
  | .gsmDriverInit => gsmInitTrace enotsup enosys hw.uartReady hw.uartIrqCallbackUserDataSet
  | .loraDriverInit => loraInitTrace hw.loraReady hw.loraConfig
  | .setTxRx value => setTxRxTrace value config hw.loraConfig
  | .loraDriverReceive timeout _ => receiveTrace timeout config hw.loraConfig hw.loraRecv
  | .loraDriverStartCallback => startCallbackTrace config hw.loraConfig hw.loraRecvAsync

/-- What it comes back with. -/
def DriverOp.outcome : DriverOp → LoraModemConfig × Bool
  | .gsmDriverInit => (config, false)
  | .loraDriverInit => (initConfig, hw.loraReady)
  | .setTxRx value => ({ config with tx := value }, decide (0 ≤ hw.loraConfig))
  | .loraDriverReceive _ _ => ({ config with tx := antennaRx }, decide (0 ≤ hw.loraRecv.ret))
  | .loraDriverStartCallback => ({ config with tx := antennaRx }, decide (0 ≤ hw.loraRecvAsync))

theorem runs_trace (op : DriverOp) : (op.code enotsup enosys config).Runs
    (op.trace enotsup enosys config hw) (op.outcome config hw) := by
  cases op with
  | gsmDriverInit =>
    exact (runs_bind _ _ _ _).mpr
      ⟨_, [], _, (List.append_nil _).symm, runs_gsmDriverInit.mpr ⟨_, _, rfl, rfl⟩, rfl, rfl⟩
  | loraDriverInit => exact runs_loraDriverInit.mpr ⟨_, _, rfl, rfl⟩
  | setTxRx value => exact runs_setTxRx.mpr ⟨_, rfl, rfl⟩
  | loraDriverReceive timeout data =>
    exact (runs_bind _ _ _ _).mpr
      ⟨_, [], _, (List.append_nil _).symm, runs_loraDriverReceive.mpr ⟨_, _, rfl, rfl⟩, rfl, rfl⟩
  | loraDriverStartCallback => exact runs_loraDriverStartCallback.mpr ⟨_, _, rfl, rfl⟩

theorem answers_trace (op : DriverOp) :
    ∀ e ∈ op.trace enotsup enosys config hw, hw.Answers e := by
  have hlog : ∀ f a, hw.Answers ⟨.logErr f a, ()⟩ := fun _ _ => trivial
  cases op with
  | gsmDriverInit =>
    simp only [DriverOp.trace, gsmInitTrace]
    split_ifs <;> simp [Hardware.Answers]
  | loraDriverInit =>
    simp only [DriverOp.trace, loraInitTrace, configLoraTrace]
    split_ifs <;> simp [Hardware.Answers]
  | setTxRx value => exact (forall_mem_setTxRxTrace hlog _ _ _).mpr rfl
  | loraDriverReceive timeout data =>
    refine List.forall_mem_append.mpr ⟨(forall_mem_setTxRxTrace hlog _ _ _).mpr rfl, ?_⟩
    split_ifs <;> simp [Hardware.Answers]
  | loraDriverStartCallback =>
    refine List.forall_mem_append.mpr ⟨(forall_mem_setTxRxTrace hlog _ _ _).mpr rfl, ?_⟩
    split_ifs <;> simp [Hardware.Answers]

end Hardware

section Runs

variable {enotsup enosys : ℤ} {config : LoraModemConfig} {hw : Hardware} {op : DriverOp}
  {tr : FwTrace} {s : LoraModemConfig × Bool}

/-- The answers in the calls of `gsm_driver_init` are those of the hardware. -/
theorem gsmInitTrace_eq {ready : Bool} {ret : ℤ}
    (h : ∀ e ∈ gsmInitTrace enotsup enosys ready ret, hw.Answers e) :
    gsmInitTrace enotsup enosys ready ret =
      gsmInitTrace enotsup enosys hw.uartReady hw.uartIrqCallbackUserDataSet := by
  obtain rfl : ready = hw.uartReady := h ⟨.deviceIsReady .uartDev, ready⟩ (by simp [gsmInitTrace])
  unfold gsmInitTrace
  cases hr : hw.uartReady with
  | false => rfl
  | true =>
    obtain rfl : ret = hw.uartIrqCallbackUserDataSet :=
      h ⟨.uartIrqCallbackUserDataSet, ret⟩ (by simp [gsmInitTrace, hr])
    rfl

/-- So are those in the calls of `lora_driver_init`. -/
theorem loraInitTrace_eq {ready : Bool} {ret : ℤ}
    (h : ∀ e ∈ loraInitTrace ready ret, hw.Answers e) :
    loraInitTrace ready ret = loraInitTrace hw.loraReady hw.loraConfig ∧ ready = hw.loraReady := by
  obtain rfl : ready = hw.loraReady := h ⟨.deviceIsReady .loraDev, ready⟩ (by simp [loraInitTrace])
  refine ⟨?_, rfl⟩
  unfold loraInitTrace
  cases hr : hw.loraReady with
  | false => rfl
  | true =>
    obtain rfl : ret = hw.loraConfig :=
      h ⟨.loraConfig initConfig, ret⟩ (by simp [loraInitTrace, configLoraTrace, hr])
    rfl

/-- **The hardware determines the run** of an operation. -/
theorem eq_of_runs (h : (op.code enotsup enosys config).Runs tr s) (hhw : ∀ e ∈ tr, hw.Answers e) :
    tr = op.trace enotsup enosys config hw ∧ s = op.outcome config hw := by
  have hset : ∀ {value ret t}, (∀ e ∈ setTxRxTrace value config ret ++ t, hw.Answers e) →
      ret = hw.loraConfig := fun h =>
    (forall_mem_setTxRxTrace (fun _ _ => trivial) _ _ _).mp (List.forall_mem_append.mp h).1
  cases op with
  | gsmDriverInit =>
    obtain ⟨_, _, _, rfl, h₁, rfl, rfl⟩ := (runs_bind _ _ _ _).mp h
    obtain ⟨ready, ret, rfl, rfl⟩ := runs_gsmDriverInit.mp h₁
    rw [List.append_nil] at hhw ⊢
    exact ⟨gsmInitTrace_eq hhw, rfl⟩
  | loraDriverInit =>
    obtain ⟨ready, ret, rfl, rfl⟩ := runs_loraDriverInit.mp h
    obtain ⟨htr, rfl⟩ := loraInitTrace_eq hhw
    exact ⟨htr, rfl⟩
  | setTxRx value =>
    obtain ⟨ret, rfl, rfl⟩ := runs_setTxRx.mp h
    obtain rfl := hset (t := []) (by rwa [List.append_nil])
    exact ⟨rfl, rfl⟩
  | loraDriverReceive timeout data =>
    obtain ⟨_, _, _, rfl, h₁, rfl, rfl⟩ := (runs_bind _ _ _ _).mp h
    obtain ⟨ret, r, rfl, rfl⟩ := runs_loraDriverReceive.mp h₁
    rw [List.append_nil] at hhw ⊢
    obtain rfl := hset hhw
    obtain rfl : r = hw.loraRecv := hhw ⟨.loraRecv loraMaxMsgLen timeout, r⟩
      (List.mem_append_right _ List.mem_cons_self)
    exact ⟨rfl, rfl⟩
  | loraDriverStartCallback =>
    obtain ⟨ret, rec_, rfl, rfl⟩ := runs_loraDriverStartCallback.mp h
    obtain rfl := hset hhw
    obtain rfl : rec_ = hw.loraRecvAsync := hhw ⟨.loraRecvAsync (some .loraCallbackHandler), rec_⟩
      (List.mem_append_right _ List.mem_cons_self)
    exact ⟨rfl, rfl⟩

end Runs

/-! ### The contract on given hardware -/

section Contract

variable (enotsup enosys : ℤ) (config : LoraModemConfig) (hw : Hardware)

/-- Every call of an operation succeeds exactly if the device is ready, where it is asked, and no
result is an error code. -/
theorem hardwareOk_trace_iff (op : DriverOp) :
    HardwareOk (op.trace enotsup enosys config hw) ↔ match op with
      | .gsmDriverInit => hw.uartReady = true ∧ 0 ≤ hw.uartIrqCallbackUserDataSet
      | .loraDriverInit => hw.loraReady = true ∧ 0 ≤ hw.loraConfig
      | .setTxRx _ => 0 ≤ hw.loraConfig
      | .loraDriverReceive _ _ => 0 ≤ hw.loraConfig ∧ 0 ≤ hw.loraRecv.ret
      | .loraDriverStartCallback => 0 ≤ hw.loraConfig ∧ 0 ≤ hw.loraRecvAsync := by
  have hset : ∀ value, HardwareOk (setTxRxTrace value config hw.loraConfig) ↔ 0 ≤ hw.loraConfig :=
    fun _ => forall_mem_setTxRxTrace (fun _ _ => trivial) _ _ _
  cases op with
  | gsmDriverInit =>
    simp only [DriverOp.trace, gsmInitTrace]
    split_ifs with hready hret <;> simp [HardwareOk, Succeeded, hready]
  | loraDriverInit =>
    simp only [DriverOp.trace, loraInitTrace, configLoraTrace]
    split_ifs with hready hret <;> simp [HardwareOk, Succeeded, hready]
  | setTxRx value => exact hset value
  | loraDriverReceive timeout data =>
    refine List.forall_mem_append.trans (and_congr (hset _) ?_)
    split_ifs <;> simp [Succeeded]
  | loraDriverStartCallback =>
    refine List.forall_mem_append.trans (and_congr (hset _) ?_)
    split_ifs <;> simp [Succeeded]

/-- The receive interrupt is enabled by `gsm_driver_init` only, once both its calls succeeded. -/
theorem hardwareOk_of_rxEnable (op : DriverOp)
    (h : ⟨.uartIrqRxEnable, ()⟩ ∈ op.trace enotsup enosys config hw) :
    HardwareOk (op.trace enotsup enosys config hw) := by
  have hset : ∀ value, ⟨.uartIrqRxEnable, ()⟩ ∉ setTxRxTrace value config hw.loraConfig := by
    intro value hm
    exact (forall_mem_setTxRxTrace (Q := fun e => e ≠ ⟨.uartIrqRxEnable, ()⟩) (by simp) value config
      hw.loraConfig).mpr (by simp) _ hm rfl
  cases op with
  | gsmDriverInit =>
    simp only [DriverOp.trace, gsmInitTrace] at h ⊢
    split_ifs at h ⊢ with hready hret
    · simp at h
    · simpa [HardwareOk, Succeeded, hready] using hret
    · simp at h
  | loraDriverInit =>
    simp only [DriverOp.trace, loraInitTrace, configLoraTrace] at h
    split_ifs at h <;> simp at h
  | setTxRx value => exact absurd h (hset value)
  | loraDriverReceive timeout data =>
    rcases List.mem_append.mp h with h | h
    · exact absurd h (hset _)
    · split_ifs at h <;> simp at h
  | loraDriverStartCallback =>
    rcases List.mem_append.mp h with h | h
    · exact absurd h (hset _)
    · split_ifs at h <;> simp at h

/-- Recording the direction changes nothing if it was the direction before. -/
theorem record_tx_eq_iff (value : Bool) :
    { config with tx := value } = config ↔ config.tx = value := by
  cases config
  simp [eq_comm]

/-- The `set_tx_rx` that a trace begins with is the one the radio answered. -/
theorem eq_of_runs_setTxRx {config : LoraModemConfig} {value : Bool} {ret : ℤ}
    {t rest rest' : FwTrace} {s' : LoraModemConfig × Bool}
    (htr : setTxRxTrace value config ret ++ rest' = t ++ rest)
    (h : (setTxRx value config).Runs t s') :
    s' = ({ config with tx := value }, decide (0 ≤ ret)) := by
  obtain ⟨ret', rfl, rfl⟩ := runs_setTxRx.mp h
  have hhead : (⟨.loraConfig { config with tx := value }, ret⟩ : FwEvent) =
      ⟨.loraConfig { config with tx := value }, ret'⟩ := (List.cons.inj htr).1
  cases hhead
  rfl

/-- **The restoration of the global**: it is as before if the radio accepted, or if the direction
recorded is the one it had. -/
theorem restored_iff {config : LoraModemConfig} {value : Bool} {ret : ℤ} {rest' : FwTrace} :
    (∀ t rest s', setTxRxTrace value config ret ++ rest' = t ++ rest →
      (setTxRx value config).Runs t s' → s'.2 = false → s'.1 = config) ↔
      0 ≤ ret ∨ config.tx = value := by
  rw [← record_tx_eq_iff config value]
  constructor
  · intro h
    by_cases hret : 0 ≤ ret
    · exact .inl hret
    · exact .inr (h _ _ _ rfl (runs_setTxRx.mpr ⟨ret, rfl, rfl⟩) (decide_eq_false hret))
  · intro h t rest s' htr hruns hfalse
    obtain rfl := eq_of_runs_setTxRx htr hruns
    exact h.resolve_left (of_decide_eq_false hfalse)

/-- **The contract of an operation**, by its calls and its result. -/
theorem contract_trace_iff (op : DriverOp) :
    Contract op config (op.trace enotsup enosys config hw) (op.outcome config hw) ↔
      Honest hw config op := by
  have hok := hardwareOk_trace_iff enotsup enosys config hw op
  rw [contract_of_hardwareOk Iff.rfl (hardwareOk_of_rxEnable enotsup enosys config hw op), hok]
  cases op with
  | gsmDriverInit => simp [DriverOp.outcome, DriverOp.direction, Honest]
  | loraDriverInit => simp [DriverOp.outcome, DriverOp.direction, Honest]
  | setTxRx value =>
    have hrestored := @restored_iff config value hw.loraConfig []
    rw [List.append_nil] at hrestored
    simp only [DriverOp.outcome, DriverOp.trace, DriverOp.direction, Option.some.injEq,
      forall_eq', hrestored, Honest, decide_eq_true_iff, true_and]
  | loraDriverReceive timeout data =>
    simp only [DriverOp.outcome, DriverOp.trace, receiveTrace, DriverOp.direction,
      Option.some.injEq, forall_eq', restored_iff, Honest, decide_eq_true_iff]
    by_cases hcfg : 0 ≤ hw.loraConfig <;> simp [hcfg]
  | loraDriverStartCallback =>
    simp only [DriverOp.outcome, DriverOp.trace, startCallbackTrace, DriverOp.direction,
      Option.some.injEq, forall_eq', restored_iff, Honest, decide_eq_true_iff]
    by_cases hcfg : 0 ≤ hw.loraConfig <;> simp [hcfg]

end Contract

/-- **What the drivers report.** On every hardware each operation has a run, and it keeps its
promise exactly if the hardware is one for which it is `Honest`: `gsm_driver_init` if the device or
its callback fails, `lora_driver_init` if the device is not ready or accepts the configuration,
`set_tx_rx` if the radio accepts the direction or the direction does not change, and the two
receiving operations if the radio accepts the direction, or if their last call fails and the
direction was that of reception before. -/
theorem contract_iff (enotsup enosys : ℤ) (config : LoraModemConfig) (hw : Hardware)
    (op : DriverOp) :
    (∃ tr s, (op.code enotsup enosys config).Runs tr s ∧ ∀ e ∈ tr, hw.Answers e) ∧
    ∀ tr s, (op.code enotsup enosys config).Runs tr s → (∀ e ∈ tr, hw.Answers e) →
      (Contract op config tr s ↔ Honest hw config op) := by
  refine ⟨⟨_, _, runs_trace enotsup enosys config hw op, answers_trace _ _ _ hw op⟩, ?_⟩
  intro tr s h hhw
  obtain ⟨rfl, rfl⟩ := eq_of_runs h hhw
  exact contract_trace_iff enotsup enosys config hw op

/-- A modem whose device is ready and whose callback can be set: `gsm_driver_init` enables the
interrupt and reports a failure. -/
theorem gsmDriverInit_reports_failure : ∃ tr s,
    (DriverOp.gsmDriverInit.code 134 88 initConfig).Runs tr s ∧
    ⟨.deviceIsReady .uartDev, true⟩ ∈ tr ∧ ⟨.uartIrqCallbackUserDataSet, (0 : ℤ)⟩ ∈ tr ∧
    HardwareOk tr ∧ s.2 = false ∧ ¬ Contract .gsmDriverInit initConfig tr s := by
  have hok : HardwareOk (gsmInitTrace 134 88 true 0) := by
    simp [HardwareOk, gsmInitTrace, Succeeded]
  refine ⟨_, _, runs_trace 134 88 initConfig ⟨true, true, 0, 0, ⟨0, [], 0, 0⟩, 0⟩ .gsmDriverInit,
    by simp [DriverOp.trace, gsmInitTrace], by simp [DriverOp.trace, gsmInitTrace], hok, rfl, ?_⟩
  intro h
  exact absurd (h.result.mpr hok) (by decide)

end MeshNode
