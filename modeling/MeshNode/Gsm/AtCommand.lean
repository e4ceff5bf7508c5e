import MeshNode.Gsm.Msgq

/-!
# Commands to the modem

`send_at_command` polls a string out on the UART. An escape string, one that starts with `+`, is
guarded by a second of silence on either side, measured with `my_sync_timer`.

* `sendAtCommand`: the function, with `pollOut` and `silence`, its loops;
* `ModemWorld`, `modemEnv`: a modem with the messages it has yet to deliver, and the timer;
* `uartOutput`: the bytes of a trace that went out on the UART;
* `commandTrace`, `uartOutput_commandTrace`: the calls of a command, and the bytes they send;
* **`exec_sendAtCommand`**: the function ends, whatever state the timer was left in.
-/

namespace MeshNode

open Interact Prog

/-- `for (int i = 0; i < msg_len; i++) uart_poll_out(uart_dev, buf[i]);` -/
def pollOut : List UInt8 → Fw Unit
  | [] => pure ()
  | c :: cs => do
    kcall (.uartPollOut c)
    pollOut cs

/-- One test of `while(k_timer_status_sync(&my_sync_timer));` -/
def syncLoop (_ : Unit) : Fw (Unit ⊕ Unit) := do
  let status ← kcall (.kTimerStatusSync .mySyncTimer)
  if status = 0 then pure (.inr ()) else pure (.inl ())

/-- Start the timer and wait for it. -/
def silence : Fw Unit := do
  kcall (.kTimerStart .mySyncTimer (.msec 1000) .noWait)
  loop syncLoop ()

/-- `send_at_command`, for a string without its NUL. -/
def sendAtCommand (buf : List UInt8) : Fw Unit := do
  (if buf.head? = some 43 then do
    silence
    pollOut buf
    silence
  else pollOut buf)
  kcall (.uartPollOut 10)
  kcall (.kMsleep 2000)

/-! ### The modem and the timer -/

/-- A one-shot `k_timer`: whether it runs, and its expirations since the status was last read. -/
structure TimerState where
  running : Bool
  expired : ℕ

/-- The messages that will still come through `uart_msgq`, and the state of `my_sync_timer`. -/
structure ModemWorld where
  inbox : List UartMsg
  timer : TimerState

/-- The kernel's side. `k_timer_status_sync` waits for a running timer, hands out the expirations
and resets them; for a stopped timer it answers at once. `k_msgq_get` delivers the next message and
with `K_FOREVER` waits for one. -/
def modemEnv : Env KCall KCall.Ret ModemWorld
  | w, ⟨.kTimerStart .mySyncTimer _ _, _⟩ => some { w with timer := ⟨true, 0⟩ }
  | w, ⟨.kTimerStatusSync .mySyncTimer, r⟩ =>
    if 0 < w.timer.expired then
      if r = w.timer.expired then some { w with timer.expired := 0 } else none
    else if w.timer.running then
      if r = 1 then some { w with timer := ⟨false, 0⟩ } else none
    else if r = 0 then some w else none
  | w, ⟨.uartMsgqGet t, r⟩ =>
    if r = w.inbox.head? ∧ (r = none → t ≠ .forever) then
      some { w with inbox := w.inbox.tail } else none
  | w, _ => some w

/-- The bytes that went out on the UART. -/
def uartOutput : FwTrace → List UInt8 :=
  List.filterMap fun | ⟨.uartPollOut c, _⟩ => some c | _ => none

theorem uartOutput_append (t t' : FwTrace) : uartOutput (t ++ t') = uartOutput t ++ uartOutput t' :=
  List.filterMap_append

/-! ### Sending -/

/-- The calls that send some bytes. -/
def pollTrace (buf : List UInt8) : FwTrace := buf.map fun c => ⟨.uartPollOut c, ()⟩

/-- A completed wait of a second: the status is read once when the timer expires and once more, as
`0`. -/
def silenceTrace : FwTrace :=
  [⟨.kTimerStart .mySyncTimer (.msec 1000) .noWait, ()⟩, ⟨.kTimerStatusSync .mySyncTimer, (1 : ℕ)⟩,
    ⟨.kTimerStatusSync .mySyncTimer, (0 : ℕ)⟩]

/-- The calls of a command. -/
def commandTrace (buf : List UInt8) : FwTrace :=
  (if buf.head? = some 43 then silenceTrace ++ (pollTrace buf ++ silenceTrace)
  else pollTrace buf) ++
    [⟨.uartPollOut 10, ()⟩, ⟨.kMsleep 2000, ()⟩]

/-- The state after a command: an escape string leaves the timer stopped and read. -/
def afterCommand (buf : List UInt8) (w : ModemWorld) : ModemWorld :=
  if buf.head? = some 43 then { w with timer := ⟨false, 0⟩ } else w

theorem uartOutput_pollTrace (buf : List UInt8) : uartOutput (pollTrace buf) = buf := by
  induction buf with
  | nil => rfl
  | cons c cs ih => exact congrArg (c :: ·) ih

/-- The string and a line end go out. -/
theorem uartOutput_commandTrace (buf : List UInt8) :
    uartOutput (commandTrace buf) = buf ++ [10] := by
  have hsilence : uartOutput silenceTrace = [] := rfl
  unfold commandTrace
  rw [uartOutput_append]
  split_ifs
  · rw [uartOutput_append, uartOutput_append, uartOutput_pollTrace, hsilence, List.append_nil]
    rfl
  · rw [uartOutput_pollTrace]
    rfl

theorem exec_pollOut (buf : List UInt8) (w : ModemWorld) :
    Exec modemEnv w (pollOut buf) (pollTrace buf) () w := by
  induction buf with
  | nil => exact .ret _ _
  | cons c cs ih => exact .perform_bind rfl ih

/-- The wait ends. -/
theorem exec_silence (w : ModemWorld) :
    Exec modemEnv w silence silenceTrace () { w with timer := ⟨false, 0⟩ } := by
  have hexpiry : Exec modemEnv { w with timer := ⟨true, 0⟩ } (syncLoop ())
      [⟨.kTimerStatusSync .mySyncTimer, (1 : ℕ)⟩] (.inl ()) { w with timer := ⟨false, 0⟩ } :=
    .perform_bind rfl (.ret _ _)
  have hstopped : Exec modemEnv { w with timer := ⟨false, 0⟩ } (syncLoop ())
      [⟨.kTimerStatusSync .mySyncTimer, (0 : ℕ)⟩] (.inr ()) { w with timer := ⟨false, 0⟩ } :=
    .perform_bind rfl (.ret _ _)
  exact .perform_bind rfl (hexpiry.loop_again (.loop_exit hstopped))

/-- **A command ends**, whatever state the timer was left in. -/
theorem exec_sendAtCommand (buf : List UInt8) (w : ModemWorld) :
    Exec modemEnv w (sendAtCommand buf) (commandTrace buf) () (afterCommand buf w) := by
  have hend : ∀ v : ModemWorld, Exec modemEnv v
      (do kcall (.uartPollOut 10); kcall (.kMsleep 2000))
      [⟨.uartPollOut 10, ()⟩, ⟨.kMsleep 2000, ()⟩]
      () v := fun v => .perform_bind rfl (.one rfl)
  unfold sendAtCommand commandTrace afterCommand
  split_ifs
  · exact .bind (.bind (exec_silence w) (.bind (exec_pollOut buf _) (exec_silence _))) (hend _)
  · exact .bind (exec_pollOut buf w) (hend _)

end MeshNode
