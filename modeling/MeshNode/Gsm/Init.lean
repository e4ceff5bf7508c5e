import MeshNode.Gsm.AtCommand
import MeshNode.Lib.CString

/-!
# Initialisation of the modem

* `gsmDriverInit`: the UART and its callback, with `callbackError`, the texts of its failures;
* `gsmInitTrace`, **`runs_gsmDriverInit`**: its calls; it returns `false` in any case;
* `gsmInitCommands`, `gsmModemInit`: the commands sent to the modem.
-/

namespace MeshNode

open Interact Prog CString

/-! ### The driver -/

/-- What is printed when the callback cannot be set, for the values of `errno.h`. -/
def callbackError (enotsup enosys ret : ℤ) : String × List Arg :=
  if ret = -enotsup then ("Interrupt-driven UART API support not enabled\n", [])
  else if ret = -enosys then ("UART device does not support interrupt-driven API\n", [])
  else ("Error setting UART callback: %d\n", [.int ret])

/-- `gsm_driver_init`, for the values of `ENOTSUP` and `ENOSYS`. -/
def gsmDriverInit (enotsup enosys : ℤ) : Fw Bool := do
  kcall (.gpioPinConfigureDt .modemPwr)
  kcall (.gpioPinSetDt .modemPwr 1)
  let ready ← kcall (.deviceIsReady .uartDev)
  if ready then do
    let ret ← kcall .uartIrqCallbackUserDataSet
    if ret < 0 then do
      kcall (.printk (callbackError enotsup enosys ret).1 (callbackError enotsup enosys ret).2)
      pure false
    else do
      kcall (.printk "succesfully init irq\n" [])
      kcall .uartIrqRxEnable
      -- `return 0`, as in the branches of failure
      pure false
  else do
    kcall (.logErr "uart_dev device not ready" [])
    pure false

/-- The calls of `gsm_driver_init` when the device is `ready` and the callback is answered `ret`. -/
def gsmInitTrace (enotsup enosys : ℤ) (ready : Bool) (ret : ℤ) : FwTrace :=
  ⟨.gpioPinConfigureDt .modemPwr, ()⟩ :: ⟨.gpioPinSetDt .modemPwr 1, ()⟩ ::
    ⟨.deviceIsReady .uartDev, ready⟩ ::
    if ready then ⟨.uartIrqCallbackUserDataSet, ret⟩ ::
      if ret < 0 then
        [⟨.printk (callbackError enotsup enosys ret).1 (callbackError enotsup enosys ret).2, ()⟩]
      else [⟨.printk "succesfully init irq\n" [], ()⟩, ⟨.uartIrqRxEnable, ()⟩]
    else [⟨.logErr "uart_dev device not ready" [], ()⟩]

/-- **`gsm_driver_init` never reports success.** -/
theorem runs_gsmDriverInit {enotsup enosys : ℤ} {tr : FwTrace} {ok : Bool} :
    (gsmDriverInit enotsup enosys).Runs tr ok ↔
      ∃ ready ret, tr = gsmInitTrace enotsup enosys ready ret ∧ ok = false := by
  constructor
  · rintro ⟨_, _, rfl, _, _, rfl, ready, t, rfl, h⟩
    cases ready with
    | false =>
      obtain ⟨_, _, rfl, rfl, rfl⟩ := (runs_perform_bind _ _ _ _).mp h
      exact ⟨false, 0, rfl, rfl⟩
    | true =>
      obtain ⟨ret, t, rfl, hret⟩ := (runs_perform_bind _ _ _ _).mp h
      refine ⟨true, ret, ?_⟩
      rw [gsmInitTrace, if_pos rfl]
      split_ifs at hret ⊢ with hr
      · obtain ⟨_, _, rfl, rfl, rfl⟩ := (runs_perform_bind _ _ _ _).mp hret
        exact ⟨rfl, rfl⟩
      · obtain ⟨_, _, rfl, _, _, rfl, rfl, rfl⟩ := (runs_perform_bind _ _ _ _).mp hret
        exact ⟨rfl, rfl⟩
  · rintro ⟨ready, ret, rfl, rfl⟩
    refine ⟨(), _, rfl, (), _, rfl, ready, _, rfl, ?_⟩
    cases ready with
    | false => exact ⟨(), [], rfl, rfl, rfl⟩
    | true =>
      refine (runs_perform_bind _ _ _ _).mpr ⟨ret, _, rfl, ?_⟩
      split_ifs with hr
      · exact ⟨(), [], rfl, rfl, rfl⟩
      · exact ⟨(), _, rfl, (), [], rfl, rfl, rfl⟩

/-! ### The commands -/

/-- `gsm_init_commands`. -/
def gsmInitCommands : List (List UInt8) :=
  [lit "At+creg=1", lit "At+cgreg=1", lit "At+cfun=1,1", lit "ATI",
    lit "At+kcnxcfg=1,\"GPRS\",\"internet.swir\"", lit "At+ktcpcfg=1,0,\"217.104.100.191\",5100",
    lit "At+ktcpcnx=1", lit "At+ktcpstart=1"]

/-- `gsm_modem_init`, on the commands that its loop counts. -/
def sendCommands : List (List UInt8) → Fw Unit
  | [] => pure ()
  | c :: cs => do
    sendAtCommand c
    kcall (.kMsleep 2000)
    sendCommands cs

/-- `gsm_modem_init`. The loop runs `sizeof(gsm_init_commands) / 4` times; a pointer has four
bytes. -/
def gsmModemInit : Fw Unit := sendCommands (gsmInitCommands.take (gsmInitCommands.length * 4 / 4))

end MeshNode
