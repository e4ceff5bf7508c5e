import MeshNode.Kernel

/-!
# The LoRa driver

The functions of the driver. The global `config` is passed through them; what a caller receives
through pointers is part of the result.

* `configLora`, `setTxRx`, `loraDriverInit`: configuration;
* `loraDriverSend`, `loraDriverReceive`: synchronous operation;
* `loraDriverStartCallback`, `loraDriverStopCallback`, `loraCallbackHandler`: reception by callback;
* `runs_setTxRx`: a change of direction and its outcome.
-/

namespace MeshNode

open Interact Prog CString

/-! ### Configuration -/

/-- `config_lora`. -/
def configLora (config : LoraModemConfig) : Fw Bool := do
  let ret ← kcall (.loraConfig config)
  if ret < 0 then do
    kcall (.logErr "device configuration failed%d" [.int ret])
    pure false
  else pure true

/-- `set_tx_rx`. The direction is recorded before the radio is asked. -/
def setTxRx (value : Bool) (config : LoraModemConfig) : Fw (LoraModemConfig × Bool) := do
  let ok ← configLora { config with tx := value }
  if ok then pure ({ config with tx := value }, true)
  else do
    kcall (.logErr "cannot set TxRx to %s" [.str (lit (if value then "true" else "false") ++ [0])])
    pure ({ config with tx := value }, false)

/-- The configuration that `lora_driver_init` fills in. -/
def initConfig : LoraModemConfig where
  frequency := 865100000
  bandwidth := .bw250KHz
  datarate := .sf8
  preambleLen := 8
  codingRate := .cr45
  iqInverted := false
  publicNetwork := false
  txPower := 4
  tx := antennaTx

/-- `lora_driver_init`. The result of `config_lora` is not looked at. -/
def loraDriverInit : Fw (LoraModemConfig × Bool) := do
  let ready ← kcall (.deviceIsReady .loraDev)
  if ready then do
    let _ ← configLora initConfig
    kcall .kQueueInit
    pure (initConfig, true)
  else do
    kcall (.logErr "deivce is not ready" [])
    pure (initConfig, false)

/-! ### Synchronous operation -/

/-- `lora_driver_send`. The result of `set_tx_rx` is not looked at. -/
def loraDriverSend (data : List UInt8) (dataLen : UInt32) (config : LoraModemConfig) :
    Fw LoraModemConfig := do
  let s ← setTxRx antennaTx config
  let ret ← kcall (.loraSend data dataLen)
  if ret < 0 then do
    kcall (.logErr "send failed%d" [.int ret])
    pure s.1
  else pure s.1

/-- What `lora_driver_receive` hands back: the caller's buffer, rssi, snr and the result. -/
structure Received where
  data : Vector UInt8 loraMaxMsgLen
  rssi : Int16
  snr : Int8
  ok : Bool

/-- `lora_driver_receive`. The `memcpy` to the caller's buffer stands behind both returns. -/
def loraDriverReceive (timeout : Timeout) (data : Vector UInt8 loraMaxMsgLen)
    (config : LoraModemConfig) : Fw (LoraModemConfig × Received) := do
  let s ← setTxRx antennaRx config
  let r ← kcall (.loraRecv loraMaxMsgLen timeout)
  if r.ret < 0 then do
    kcall (.logErr "receive failed%d" [.int r.ret])
    pure (s.1, ⟨data, r.rssi, r.snr, false⟩)
  else do
    let rData : Vector UInt8 loraMaxMsgLen := overwrite (Vector.replicate _ 0) r.data
    kcall (.logDbg "Received data: %s (RSSI:%ddBm, SNR:%ddB)"
      [.str rData.toList, .int r.rssi.toInt, .int r.snr.toInt])
    pure (s.1, ⟨data, r.rssi, r.snr, true⟩)

/-! ### Reception by callback -/

/-- `lora_driver_start_callback`. The result of `set_tx_rx` is not looked at. -/
def loraDriverStartCallback (config : LoraModemConfig) : Fw (LoraModemConfig × Bool) := do
  let s ← setTxRx antennaRx config
  let rec_ ← kcall (.loraRecvAsync (some .loraCallbackHandler))
  if rec_ < 0 then do
    kcall (.logErr "lora callback start error:%d" [.int rec_])
    pure (s.1, false)
  else pure (s.1, true)

/-- `lora_driver_stop_callback`. -/
def loraDriverStopCallback : Fw Bool := do
  let rec_ ← kcall (.loraRecvAsync none)
  if rec_ < 0 then do
    kcall (.logErr "lora callback stop%d" [.int rec_])
    pure false
  else pure true

/-- What a `%s` conversion reads from a pointer on: everything before the first NUL. -/
def textAt (mem : ℕ → UInt8) (i : ℕ) : UInt8 := if ∃ j < i, mem j = 0 then 0 else mem i

/-- The record of a packet: `LORA_MAX_MSG_LEN` bytes from the pointer on, whatever its size. -/
def loraRecord (data : ℕ → UInt8) : LoraMsgqDataType := ⟨Vector.ofFn fun i => data i⟩

/-- One round of `while (k_msgq_put(&lora_msgq, &lora_d, K_NO_WAIT) != 0)`. -/
def putLoop (loraD : LoraMsgqDataType) (_ : Unit) : Fw (Unit ⊕ Unit) := do
  let ret ← kcall (.loraMsgqPut loraD .noWait)
  if ret ≠ 0 then do
    kcall .loraMsgqPurge
    pure (.inl ())
  else pure (.inr ())

/-- `lora_callback_handler`, for the memory `data` from the packet's pointer on. The size is not
used. -/
def loraCallbackHandler (data : ℕ → UInt8) (_size : UInt16) (rssi : Int16) (snr : Int8) :
    Fw Unit := do
  kcall (.logDbg "Received data: %s (RSSI:%ddBm, SNR:%ddB)"
    [.mem (textAt data), .int rssi.toInt, .int snr.toInt])
  loop (putLoop (loraRecord data)) ()

/-! ### A change of direction -/

/-- The calls of `config_lora` when the radio answers `ret`. -/
def configLoraTrace (config : LoraModemConfig) (ret : ℤ) : FwTrace :=
  ⟨.loraConfig config, ret⟩ ::
    if ret < 0 then [⟨.logErr "device configuration failed%d" [.int ret], ()⟩] else []

/-- The calls of `set_tx_rx` when the radio answers `ret`. -/
def setTxRxTrace (value : Bool) (config : LoraModemConfig) (ret : ℤ) : FwTrace :=
  configLoraTrace { config with tx := value } ret ++
    if ret < 0 then
      [⟨.logErr "cannot set TxRx to %s" [.str (lit (if value then "true" else "false") ++ [0])], ()⟩]
    else []

theorem runs_configLora {config : LoraModemConfig} {tr : FwTrace} {ok : Bool} :
    (configLora config).Runs tr ok ↔
      ∃ ret : ℤ, tr = configLoraTrace config ret ∧ ok = decide (0 ≤ ret) := by
  constructor
  · intro h
    obtain ⟨ret, t, rfl, h₁⟩ := (runs_perform_bind _ _ _ _).mp h
    refine ⟨ret, ?_⟩
    split_ifs at h₁ with hn
    · obtain ⟨_, _, rfl, rfl, rfl⟩ := (runs_perform_bind _ _ _ _).mp h₁
      simp [configLoraTrace, hn, Int.not_le.mpr hn]
    · obtain ⟨rfl, rfl⟩ := h₁
      simp [configLoraTrace, hn, Int.not_lt.mp hn]
  · rintro ⟨ret, rfl, rfl⟩
    refine (runs_perform_bind _ _ _ _).mpr ⟨ret, _, rfl, ?_⟩
    split_ifs with hn
    · exact ⟨(), [], rfl, rfl, by simp [Int.not_le.mpr hn]⟩
    · exact ⟨rfl, by simp [Int.not_lt.mp hn]⟩

/-- **`set_tx_rx`** succeeds exactly when the radio accepts; the global is changed in any case. -/
theorem runs_setTxRx {value : Bool} {config : LoraModemConfig} {tr : FwTrace}
    {s : LoraModemConfig × Bool} :
    (setTxRx value config).Runs tr s ↔ ∃ ret : ℤ, tr = setTxRxTrace value config ret ∧
      s = ({ config with tx := value }, decide (0 ≤ ret)) := by
  constructor
  · intro h
    obtain ⟨t₁, t₂, ok, rfl, h₁, h₂⟩ := (runs_bind _ _ _ _).mp h
    obtain ⟨ret, rfl, rfl⟩ := runs_configLora.mp h₁
    refine ⟨ret, ?_⟩
    by_cases hn : ret < 0
    · rw [if_neg (by simpa using hn)] at h₂
      obtain ⟨_, _, rfl, rfl, rfl⟩ := (runs_perform_bind _ _ _ _).mp h₂
      simp [setTxRxTrace, hn, Int.not_le.mpr hn]
    · rw [if_pos (by simpa using hn)] at h₂
      obtain ⟨rfl, rfl⟩ := h₂
      simp [setTxRxTrace, hn, Int.not_lt.mp hn]
  · rintro ⟨ret, rfl, rfl⟩
    refine (runs_bind _ _ _ _).mpr ⟨_, _, _, rfl, runs_configLora.mpr ⟨ret, rfl, rfl⟩, ?_⟩
    by_cases hn : ret < 0
    · rw [if_neg (by simpa using hn), if_pos hn]
      exact ⟨(), [], rfl, rfl, by simp [Int.not_le.mpr hn]⟩
    · rw [if_pos (by simpa using hn), if_neg hn]
      exact ⟨rfl, by simp [Int.not_lt.mp hn]⟩

end MeshNode
