import MeshNode.Heartbeat
import MeshNode.Lora.Driver

/-!
# The handlers in interrupt context

Three functions are registered to run in interrupt context: `serial_cb` for the UART,
`lora_callback_handler` for received packets and `heartbeat_handler` for a timer.

* `Handler`, `Handler.code`: the handlers with everything they are given, and what they run;
* `uses_serialCb`, `uses_loraCallbackHandler`: the calls in the text of the first two;
* `performs_heartbeatHandler`: the third waits for a timer;
* **`handler_never_blocks_iff`**: the first two never block, the third can.
-/

namespace MeshNode

open Interact Prog CString

/-- A handler, with its static state and the arguments it is called with. -/
inductive Handler
  | serialCb (rx : RxState)
  | loraCallbackHandler (data : ℕ → UInt8) (size : UInt16) (rssi : Int16) (snr : Int8)
  | heartbeatHandler (txBuf : UartMsg) (globalNode : Node)

/-- What a handler runs. -/
def Handler.code : Handler → Fw Unit
  | .serialCb rx => do
    let _ ← MeshNode.serialCb rx
    pure ()
  | .loraCallbackHandler data size rssi snr => MeshNode.loraCallbackHandler data size rssi snr
  | .heartbeatHandler txBuf globalNode => do
    let _ ← MeshNode.heartbeatHandler txBuf globalNode
    pure ()

/-- The calls that return at once. -/
abbrev Prompt (c : KCall) : Prop := ¬ c.MayBlock

theorem uses_serialCbByte (c : UInt8) (rx : RxState) : Uses Prompt (serialCbByte c rx) :=
  uses_ite (uses_perform_bind (fun h => h rfl) fun _ => trivial) (uses_ite trivial trivial)

theorem uses_serialCbLoop (rx : RxState) : Uses Prompt (serialCbLoop rx) := by
  refine uses_perform_bind id fun read => ?_
  cases read with
  | none => trivial
  | some c => exact uses_bind (uses_serialCbByte c rx) fun _ => trivial

/-- **`serial_cb`** only polls the UART and puts with `K_NO_WAIT`. -/
theorem uses_serialCb (rx : RxState) : Uses Prompt (serialCb rx) :=
  uses_perform_bind id fun _ => uses_ite trivial <|
    uses_perform_bind id fun _ => uses_ite trivial <| uses_loop uses_serialCbLoop rx

theorem uses_putLoop (loraD : LoraMsgqDataType) (u : Unit) : Uses Prompt (putLoop loraD u) :=
  uses_perform_bind (fun h => h rfl) fun _ =>
    uses_ite (uses_perform_bind id fun _ => trivial) trivial

/-- **`lora_callback_handler`** only logs, puts with `K_NO_WAIT` and purges. -/
theorem uses_loraCallbackHandler (data : ℕ → UInt8) (size : UInt16) (rssi : Int16) (snr : Int8) :
    Uses Prompt (loraCallbackHandler data size rssi snr) :=
  uses_perform_bind id fun _ => uses_loop (uses_putLoop _) ()

/-- **`heartbeat_handler`** waits for `my_sync_timer` before it sends the first byte. -/
theorem performs_heartbeatHandler (txBuf : UartMsg) (node : Node) :
    (heartbeatHandler txBuf node).Performs
      [⟨.printk "Sending heartbeat\n" [], ()⟩,
        ⟨.kTimerStart .mySyncTimer (.msec 1000) .noWait, ()⟩] (.kTimerStatusSync .mySyncTimer) := by
  have hsync : (loop syncLoop ()).Performs [] (.kTimerStatusSync .mySyncTimer) :=
    (performs_loop _ _ _ _).mpr ⟨(), [], [], rfl, .refl _, .inl ⟨rfl, rfl⟩⟩
  have hsilence : silence.Performs [⟨.kTimerStart .mySyncTimer (.msec 1000) .noWait, ()⟩]
      (.kTimerStatusSync .mySyncTimer) := .inr ⟨(), [], rfl, hsync⟩
  have hsend : (sendAtCommand (lit "+++")).Performs
      [⟨.kTimerStart .mySyncTimer (.msec 1000) .noWait, ()⟩] (.kTimerStatusSync .mySyncTimer) :=
    (performs_bind _ _ _ _).mpr (.inl ((performs_bind _ _ _ _).mpr (.inl hsilence)))
  have hstrength : (getSignalStrength txBuf).Performs
      [⟨.kTimerStart .mySyncTimer (.msec 1000) .noWait, ()⟩] (.kTimerStatusSync .mySyncTimer) :=
    (performs_bind _ _ _ _).mpr (.inl hsend)
  refine (performs_bind _ _ _ _).mpr (.inl ?_)
  exact (performs_perform_bind _ _ _ _).mpr
    (.inr ⟨(), _, rfl, (performs_bind _ _ _ _).mpr (.inl hstrength)⟩)

/-- **The handlers that never block.** Whatever the kernel answers, no call that `serial_cb` or
`lora_callback_handler` performs may block; every invocation of `heartbeat_handler` can come to one
that may. -/
theorem handler_never_blocks_iff (handler : Handler) :
    (∀ tr c, handler.code.Performs tr c → ¬ c.MayBlock) ↔
      ∀ txBuf node, handler ≠ .heartbeatHandler txBuf node := by
  cases handler with
  | serialCb rx =>
    refine iff_of_true (fun tr c h => ?_) (fun _ _ => by simp)
    have hu : Uses Prompt (Handler.serialCb rx).code :=
      uses_bind (uses_serialCb rx) fun _ => trivial
    exact hu.performs h
  | loraCallbackHandler data size rssi snr =>
    exact iff_of_true (fun tr c h => (uses_loraCallbackHandler data size rssi snr).performs h)
      (fun _ _ => by simp)
  | heartbeatHandler txBuf node =>
    refine iff_of_false (fun h => ?_) (fun h => h txBuf node rfl)
    have hp := (performs_bind _ (fun _ => Prog.ret ()) _ _).mpr
      (.inl (performs_heartbeatHandler txBuf node))
    exact h _ _ hp trivial

/-- The expiry of the heartbeat timer, for a node with the identifier of all zeros. -/
theorem heartbeat_expiry_blocks : ∃ tr c,
    (Handler.heartbeatHandler (Vector.replicate _ 0)
      ⟨⟨Vector.replicate _ 0, none⟩, true⟩).code.Performs tr c ∧ c.MayBlock :=
  ⟨_, _, (performs_bind _ _ _ _).mpr (.inl (performs_heartbeatHandler _ _)), trivial⟩

end MeshNode
