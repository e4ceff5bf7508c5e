import MeshNode.Lora.Driver

/-!
# The direction of the radio

`set_tx_rx` may fail, and `lora_driver_send`, `lora_driver_receive` and `lora_driver_start_callback`
go on all the same. The radio then still has the last configuration it accepted.

* `LoraCall`, `LoraRun`: the calls of the driver, and sequences of them;
* `radioConfig`: the last configuration the radio accepted;
* `Directed`, `RadioOk`: a call, or every call of a trace, meets a radio in its direction;
* `StepOk`: the radio accepts the direction of an operation, or has it already;
* `runs_directed`, `performs_directed`: one operation, finished or in progress;
* **`radio_directed_iff`**: a run uses the radio in its direction exactly if every step is `StepOk`.
-/

namespace MeshNode

open Interact Prog

/-! ### Runs of the driver -/

/-- A call of the driver by the application. -/
inductive LoraCall
  | init
  | setTxRx (value : Bool)
  | send (data : List UInt8) (dataLen : UInt32)
  | receive (timeout : Timeout) (data : Vector UInt8 loraMaxMsgLen)
  | startCallback
  | stopCallback

/-- The function called, with the global `config` before and after it. -/
def LoraCall.code (config : LoraModemConfig) : LoraCall → Fw LoraModemConfig
  | .init => do
    let s ← loraDriverInit
    pure s.1
  | .setTxRx value => do
    let s ← MeshNode.setTxRx value config
    pure s.1
  | .send data dataLen => loraDriverSend data dataLen config
  | .receive timeout data => do
    let s ← loraDriverReceive timeout data config
    pure s.1
  | .startCallback => do
    let s ← loraDriverStartCallback config
    pure s.1
  | .stopCallback => do
    let _ ← loraDriverStopCallback
    pure config

/-- **Runs**: calls of the driver one after another, each with the calls it made. -/
inductive LoraRun : LoraModemConfig → List (LoraCall × FwTrace) → LoraModemConfig → Prop
  | nil (config) : LoraRun config [] config
  | cons {config config₁ config' op t calls} : (LoraCall.code config op).Runs t config₁ →
      LoraRun config₁ calls config' → LoraRun config ((op, t) :: calls) config'

/-- All calls of a run, in order. -/
def loraTrace (calls : List (LoraCall × FwTrace)) : FwTrace := calls.flatMap Prod.snd

/-! ### The radio -/

/-- The last accepted configuration after an event. -/
def accept (acc : Option LoraModemConfig) : FwEvent → Option LoraModemConfig
  | ⟨.loraConfig config, r⟩ => if 0 ≤ r then some config else acc
  | _ => acc

/-- The last configuration the radio accepted, from `acc` on. -/
def radioConfig (acc : Option LoraModemConfig) (tr : FwTrace) : Option LoraModemConfig :=
  tr.foldl accept acc

/-- The direction in which a call uses the radio. -/
def KCall.direction : KCall → Option Bool
  | .loraSend _ _ => some antennaTx
  | .loraRecv _ _ | .loraRecvAsync (some _) => some antennaRx
  | _ => none

/-- The call meets a radio that has accepted a configuration in its direction. -/
def Directed (acc : Option LoraModemConfig) (c : KCall) : Prop :=
  ∀ d, c.direction = some d → ∃ config, acc = some config ∧ config.tx = d

/-- Every call of a trace does. -/
def RadioOk (acc : Option LoraModemConfig) : FwTrace → Prop
  | [] => True
  | e :: tr => Directed acc e.1 ∧ RadioOk (accept acc e) tr

/-- The direction of an operation of the driver. -/
def LoraCall.direction : LoraCall → Option Bool
  | .send _ _ => some antennaTx
  | .receive _ _ | .startCallback => some antennaRx
  | _ => none

/-- The radio accepts the direction of the operation, or has accepted it before. -/
def StepOk (acc : Option LoraModemConfig) (op : LoraCall) (t : FwTrace) : Prop :=
  ∀ d, op.direction = some d →
    (∃ config ret t', t = ⟨.loraConfig config, ret⟩ :: t' ∧ 0 ≤ ret) ∨
    ∃ config, acc = some config ∧ config.tx = d

/-- Every step of a run is `StepOk`. -/
def StepsOk (acc : Option LoraModemConfig) : List (LoraCall × FwTrace) → Prop
  | [] => True
  | (op, t) :: calls => StepOk acc op t ∧ StepsOk (radioConfig acc t) calls

theorem radioOk_append (acc : Option LoraModemConfig) (t t' : FwTrace) :
    RadioOk acc (t ++ t') ↔ RadioOk acc t ∧ RadioOk (radioConfig acc t) t' := by
  induction t generalizing acc with
  | nil => exact (true_and _).symm.to_iff
  | cons e t ih =>
    rw [List.cons_append, RadioOk, RadioOk, ih, and_assoc]
    rfl

theorem radioConfig_append (acc : Option LoraModemConfig) (t t' : FwTrace) :
    radioConfig acc (t ++ t') = radioConfig (radioConfig acc t) t' := List.foldl_append

/-- A trace that does not use the radio is in order. -/
theorem radioOk_of_idle {t : FwTrace} (h : ∀ e ∈ t, e.1.direction = none)
    (acc : Option LoraModemConfig) : RadioOk acc t := by
  induction t generalizing acc with
  | nil => trivial
  | cons e t ih =>
    obtain ⟨he, ht⟩ := List.forall_mem_cons.mp h
    exact ⟨fun d hd => absurd (he.symm.trans hd) (by simp), ih ht _⟩

theorem directed_of_idle {c : KCall} (h : c.direction = none) (acc : Option LoraModemConfig) :
    Directed acc c := fun d hd => absurd (h.symm.trans hd) (by simp)

/-! ### `set_tx_rx` -/

theorem idle_setTxRxTrace (d : Bool) (config : LoraModemConfig) (ret : ℤ) :
    ∀ e ∈ setTxRxTrace d config ret, e.1.direction = none := by
  unfold setTxRxTrace configLoraTrace
  split_ifs <;> simp [KCall.direction]

theorem radioConfig_setTxRxTrace (acc : Option LoraModemConfig) (d : Bool)
    (config : LoraModemConfig) (ret : ℤ) : radioConfig acc (setTxRxTrace d config ret) =
      if 0 ≤ ret then some { config with tx := d } else acc := by
  unfold setTxRxTrace configLoraTrace
  by_cases h : ret < 0
  · simp [radioConfig, accept, h, Int.not_le.mpr h]
  · simp [radioConfig, accept, h, Int.not_lt.mp h]

/-- After `set_tx_rx` the radio has the direction if it accepted it or had it. -/
theorem directed_setTxRxTrace {acc : Option LoraModemConfig} {c : KCall} {d : Bool}
    (hc : c.direction = some d) (config : LoraModemConfig) (ret : ℤ) :
    Directed (radioConfig acc (setTxRxTrace d config ret)) c ↔
      0 ≤ ret ∨ ∃ config, acc = some config ∧ config.tx = d := by
  rw [radioConfig_setTxRxTrace, Directed, hc]
  by_cases h : 0 ≤ ret <;> simp [h]

theorem stepOk_setTxRxTrace {acc : Option LoraModemConfig} {op : LoraCall} {d : Bool}
    (hop : op.direction = some d) (config : LoraModemConfig) (ret : ℤ) (t : FwTrace) :
    StepOk acc op (setTxRxTrace d config ret ++ t) ↔
      0 ≤ ret ∨ ∃ config, acc = some config ∧ config.tx = d := by
  have : setTxRxTrace d config ret ++ t = ⟨.loraConfig { config with tx := d }, ret⟩ ::
    ((setTxRxTrace d config ret).tail ++ t) := rfl
  simp [StepOk, hop, this]

/-! ### One operation -/

/-- The calls that do not use the radio in a direction. -/
abbrev Idle (c : KCall) : Prop := c.direction = none

theorem uses_configLora (config : LoraModemConfig) : Uses Idle (configLora config) :=
  uses_perform_bind rfl fun _ => uses_ite (uses_perform_bind rfl fun _ => trivial) trivial

theorem uses_setTxRx (value : Bool) (config : LoraModemConfig) :
    Uses Idle (setTxRx value config) :=
  uses_bind (uses_configLora _) fun _ => uses_ite trivial (uses_perform_bind rfl fun _ => trivial)

/-- A change of direction, the call that needs it, and what the driver makes of its answer. -/
def switchThen (d : Bool) (config : LoraModemConfig) (c : KCall) {α : Type}
    (k : LoraModemConfig × Bool → c.Ret → Fw α) : Fw α :=
  (setTxRx d config).bind fun s => (perform c).bind (k s)

section SwitchThen

variable {d : Bool} {config : LoraModemConfig} {c₀ : KCall} {α : Type}
  {k : LoraModemConfig × Bool → c₀.Ret → Fw α} {op : LoraCall} {acc : Option LoraModemConfig}
  {t : FwTrace}

theorem runs_switchThen (hc : c₀.direction = some d) (hop : op.direction = some d)
    (hk : ∀ s r, Uses Idle (k s r)) {a : α} (h : (switchThen d config c₀ k).Runs t a) :
    RadioOk acc t ↔ StepOk acc op t := by
  obtain ⟨t₁, t₂, s, rfl, h₁, h₂⟩ := (runs_bind _ _ _ _).mp h
  obtain ⟨r, rfl, -⟩ := runs_setTxRx.mp h₁
  obtain ⟨r', t', rfl, h₃⟩ := (runs_perform_bind _ _ _ _).mp h₂
  have hidle := fun acc' => radioOk_of_idle ((hk s r').forall_mem_of_runs h₃) acc'
  rw [radioOk_append, RadioOk, directed_setTxRxTrace hc, stepOk_setTxRxTrace hop,
    and_iff_right (radioOk_of_idle (idle_setTxRxTrace d config r) acc), and_iff_left (hidle _)]

/-- The same for an operation in progress, about to make the call `c`. -/
theorem performs_switchThen (hc : c₀.direction = some d) (hop : op.direction = some d)
    (hk : ∀ s r, Uses Idle (k s r)) {c : KCall} (h : (switchThen d config c₀ k).Performs t c) :
    (StepOk acc op t → RadioOk acc t ∧ Directed (radioConfig acc t) c) ∧
    (c.direction ≠ none → Directed (radioConfig acc t) c → StepOk acc op t) := by
  rcases (performs_bind _ _ _ _).mp h with h₁ | ⟨t₁, t₂, s, rfl, h₁, h₂⟩
  · -- still in `set_tx_rx`
    have hidle := (uses_setTxRx d config).performs h₁
    have ht := (uses_setTxRx d config).forall_mem_of_performs h₁
    exact ⟨fun _ => ⟨radioOk_of_idle ht acc, directed_of_idle hidle _⟩,
      fun hne => absurd hidle hne⟩
  obtain ⟨r, rfl, -⟩ := runs_setTxRx.mp h₁
  have hset := radioOk_of_idle (idle_setTxRxTrace d config r) acc
  rcases (performs_perform_bind _ _ _ _).mp h₂ with ⟨rfl, rfl⟩ | ⟨r', t', rfl, h₃⟩
  · -- at the call
    rw [stepOk_setTxRxTrace hop, List.append_nil, directed_setTxRxTrace hc]
    exact ⟨fun h => ⟨hset, h⟩, fun _ h => h⟩
  · -- behind it
    have hidle := (hk s r').performs h₃
    have ht := (hk s r').forall_mem_of_performs h₃
    refine ⟨fun hs => ⟨?_, directed_of_idle hidle _⟩, fun hne => absurd hidle hne⟩
    rw [stepOk_setTxRxTrace hop] at hs
    exact (radioOk_append _ _ _).mpr
      ⟨hset, (directed_setTxRxTrace hc config r).mpr hs, radioOk_of_idle ht _⟩

end SwitchThen

/-- An operation either does not use the radio, or switches it and then makes one call. -/
theorem LoraCall.code_cases (config : LoraModemConfig) (op : LoraCall) :
    (op.direction = none ∧ Uses Idle (op.code config)) ∨
    ∃ d c k, op.direction = some d ∧ c.direction = some d ∧
      op.code config = switchThen d config c k ∧ ∀ s r, Uses Idle (k s r) := by
  cases op with
  | init =>
    refine .inl ⟨rfl, uses_bind (uses_perform_bind rfl fun ready => ?_) fun _ => trivial⟩
    refine uses_ite ?_ ?_
    · exact uses_bind (uses_configLora _) fun _ => uses_perform_bind rfl fun _ => trivial
    · exact uses_perform_bind rfl fun _ => trivial
  | setTxRx value => exact .inl ⟨rfl, uses_bind (uses_setTxRx _ _) fun _ => trivial⟩
  | send data dataLen =>
    refine .inr ⟨antennaTx, .loraSend data dataLen, _, rfl, rfl, rfl, fun s r => ?_⟩
    exact uses_ite (uses_perform_bind rfl fun _ => trivial) trivial
  | receive timeout data =>
    refine .inr ⟨antennaRx, .loraRecv loraMaxMsgLen timeout, _, rfl, rfl, bind_assoc _ _ _,
      fun s r => uses_bind (p := if r.ret < 0 then _ else _) ?_ fun _ => trivial⟩
    exact uses_ite (uses_perform_bind rfl fun _ => trivial) (uses_perform_bind rfl fun _ => trivial)
  | startCallback =>
    refine .inr ⟨antennaRx, .loraRecvAsync (some .loraCallbackHandler), _, rfl, rfl,
      bind_assoc _ _ _, fun s r => uses_bind (p := if r < 0 then _ else _) ?_ fun _ => trivial⟩
    exact uses_ite (uses_perform_bind rfl fun _ => trivial) trivial
  | stopCallback =>
    refine .inl ⟨rfl, uses_bind (uses_perform_bind rfl fun r => ?_) fun _ => trivial⟩
    exact uses_ite (uses_perform_bind rfl fun _ => trivial) trivial

theorem stepOk_of_idle {op : LoraCall} (h : op.direction = none) (acc : Option LoraModemConfig)
    (t : FwTrace) : StepOk acc op t := fun d hd => absurd (h.symm.trans hd) (by simp)

/-- **One operation** uses the radio in its direction exactly if its step is in order. -/
theorem runs_directed {op : LoraCall} {config config' : LoraModemConfig} {t : FwTrace}
    (h : (op.code config).Runs t config') (acc : Option LoraModemConfig) :
    RadioOk acc t ↔ StepOk acc op t := by
  rcases op.code_cases config with ⟨hop, hu⟩ | ⟨d, c, k, hop, hc, e, hk⟩
  · exact iff_of_true (radioOk_of_idle (hu.forall_mem_of_runs h) acc) (stepOk_of_idle hop acc t)
  · rw [e] at h
    exact runs_switchThen hc hop hk h

/-- **One operation in progress**, about to make the call `c`. -/
theorem performs_directed {op : LoraCall} {config : LoraModemConfig} {t : FwTrace} {c : KCall}
    (h : (op.code config).Performs t c) (acc : Option LoraModemConfig) :
    (StepOk acc op t → RadioOk acc t ∧ Directed (radioConfig acc t) c) ∧
    (c.direction ≠ none → Directed (radioConfig acc t) c → StepOk acc op t) := by
  rcases op.code_cases config with ⟨hop, hu⟩ | ⟨d, c', k, hop, hc, e, hk⟩
  · have hidle := hu.performs h
    exact ⟨fun _ => ⟨radioOk_of_idle (hu.forall_mem_of_performs h) acc, directed_of_idle hidle _⟩,
      fun hne => absurd hidle hne⟩
  · rw [e] at h
    exact performs_switchThen hc hop hk h

/-! ### Runs -/

theorem LoraRun.radioOk_iff {config config' : LoraModemConfig} {calls : List (LoraCall × FwTrace)}
    (h : LoraRun config calls config') (acc : Option LoraModemConfig) :
    RadioOk acc (loraTrace calls) ↔ StepsOk acc calls := by
  induction h generalizing acc with
  | nil => exact Iff.rfl
  | @cons config config₁ config' op t calls hr _ ih =>
    have e : loraTrace ((op, t) :: calls) = t ++ loraTrace calls := rfl
    rw [e, radioOk_append, runs_directed hr acc, ih, StepsOk]

/-- **The direction of the radio.** In a run of the driver every use of the radio meets a
configuration of its direction exactly if, at every operation that needs a direction, the radio
accepts it or has accepted it before. The same goes for an operation in progress: up to its next
call `c` if the step is in order, and only then if `c` uses the radio. -/
theorem radio_directed_iff {config₀ config : LoraModemConfig} {calls : List (LoraCall × FwTrace)}
    (h : LoraRun config₀ calls config) :
    (RadioOk none (loraTrace calls) ↔ StepsOk none calls) ∧
    ∀ op t c, (LoraCall.code config op).Performs t c → StepsOk none calls →
      (StepOk (radioConfig none (loraTrace calls)) op t → RadioOk none (loraTrace calls ++ t) ∧
        Directed (radioConfig none (loraTrace calls ++ t)) c) ∧
      (c.direction ≠ none → Directed (radioConfig none (loraTrace calls ++ t)) c →
        StepOk (radioConfig none (loraTrace calls)) op t) := by
  refine ⟨h.radioOk_iff none, fun op t c hp hs => ?_⟩
  obtain ⟨h₁, h₂⟩ := performs_directed hp (radioConfig none (loraTrace calls))
  rw [radioOk_append, radioConfig_append]
  exact ⟨fun ho => ⟨⟨(h.radioOk_iff none).mpr hs, (h₁ ho).1⟩, (h₁ ho).2⟩, h₂⟩

theorem runs_init (config : LoraModemConfig) (r : ℤ) : (LoraCall.init.code config).Runs
    (⟨.deviceIsReady .loraDev, true⟩ :: (configLoraTrace initConfig r ++ [⟨.kQueueInit, ()⟩]))
    initConfig := by
  refine (runs_bind _ _ _ _).mpr ⟨_, [], (initConfig, true), (List.append_nil _).symm,
    (runs_perform_bind _ _ _ _).mpr ⟨true, _, rfl, ?_⟩, rfl, rfl⟩
  rw [if_pos rfl]
  exact (runs_bind _ _ _ _).mpr
    ⟨_, _, _, rfl, runs_configLora.mpr ⟨r, rfl, rfl⟩, (), [], rfl, rfl, rfl⟩

theorem runs_startCallback (config : LoraModemConfig) (r : ℤ) :
    (LoraCall.startCallback.code config).Runs (setTxRxTrace antennaRx config r ++
      [⟨.loraRecvAsync (some .loraCallbackHandler), (0 : ℤ)⟩]) { config with tx := antennaRx } :=
  (runs_bind _ _ _ _).mpr ⟨_, _, _, (List.append_nil _).symm,
    (runs_bind _ _ _ _).mpr ⟨_, _, _, rfl, runs_setTxRx.mpr ⟨r, rfl, rfl⟩,
      (0 : ℤ), [], rfl, rfl, rfl⟩, rfl, rfl⟩

theorem runs_send (data : List UInt8) (dataLen : UInt32) (config : LoraModemConfig) (r : ℤ) :
    (LoraCall.code config (.send data dataLen)).Runs (setTxRxTrace antennaTx config r ++
      [⟨.loraSend data dataLen, (0 : ℤ)⟩]) { config with tx := antennaTx } :=
  (runs_bind _ _ _ _).mpr ⟨_, _, _, rfl, runs_setTxRx.mpr ⟨r, rfl, rfl⟩, (0 : ℤ), [], rfl, rfl, rfl⟩

/-- A send after initialisation, with a radio that accepts every configuration. -/
theorem radio_directed_iff_send : ∃ calls config, LoraRun initConfig calls config ∧
    calls.map Prod.fst = [.init, .send [1, 2, 3] 3] ∧ RadioOk none (loraTrace calls) := by
  have h := LoraRun.cons (runs_init initConfig 0)
    (.cons (runs_send [1, 2, 3] 3 initConfig 0) (.nil _))
  refine ⟨_, _, h, rfl, (radio_directed_iff h).1.mpr ⟨nofun, fun d hd => ?_, trivial⟩⟩
  exact .inl ⟨_, 0, _, rfl, le_rfl⟩

/-- The radio is busy receiving and refuses the direction, and the frame is sent all the same. -/
theorem send_while_receiving : ∃ calls config, LoraRun initConfig calls config ∧
    calls.map Prod.fst = [.init, .startCallback, .send [1, 2, 3] 3] ∧
    ¬ RadioOk none (loraTrace calls) := by
  have h := LoraRun.cons (runs_init initConfig 0) (.cons (runs_startCallback initConfig 0)
    (.cons (runs_send [1, 2, 3] 3 { initConfig with tx := antennaRx } (-16)) (.nil _)))
  refine ⟨_, _, h, rfl, fun hr => ?_⟩
  obtain ⟨-, -, hs, -⟩ := (h.radioOk_iff none).mp hr
  rcases hs antennaTx rfl with ⟨config, r, t', e, hle⟩ | ⟨config, e, htx⟩
  · injection e with e₁ _
    cases e₁
    exact absurd hle (by decide)
  · cases e
    cases htx

end MeshNode
