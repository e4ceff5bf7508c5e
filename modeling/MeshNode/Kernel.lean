import MeshNode.Interact.Env
import MeshNode.Lib.CString

/-!
# The calls of the firmware

The firmware is modelled as interaction programs over the calls it makes to the kernel, the
drivers and the libraries, under their own names. What a call writes through a pointer is part of
its answer.

* `UartMsg`, `LoraMsgqDataType`, `LoraModemConfig`, `CustomUuid`, `Node`: the data passed around;
* `KCall`, `KCall.Ret`: the calls and their answers;
* `Fw`, `kcall`: firmware code, and a single call;
* `KCall.MayBlock`, `KCall.waitsForever`: the calls that may suspend their caller, and the calls
  on a queue without a time limit.
-/

namespace MeshNode

open Interact

/-! ### Constants of the headers -/

/-- `UART_MAX_MSG_LEN`. -/
abbrev uartMaxMsgLen : ℕ := 1280

/-- `UART_MAX_MSG_QUEUE_SIZE`. -/
abbrev uartMaxMsgQueueSize : ℕ := 20

/-- `LORA_MAX_MSG_LEN`. -/
abbrev loraMaxMsgLen : ℕ := 255

/-- `LORA_MAX_MSGQ_LEN`. -/
abbrev loraMaxMsgqLen : ℕ := 20

/-- `UUID_STR_LEN`. -/
abbrev uuidStrLen : ℕ := 37

/-- `ANTENNA_RX`. -/
abbrev antennaRx : Bool := false

/-- `ANTENNA_TX`. -/
abbrev antennaTx : Bool := true

/-! ### Data -/

/-- An item of `uart_msgq`: a copy of the whole receive buffer. -/
abbrev UartMsg := Vector UInt8 uartMaxMsgLen

/-- An item of `lora_msgq`. -/
structure LoraMsgqDataType where
  rData : Vector UInt8 loraMaxMsgLen
  deriving DecidableEq

inductive LoraSignalBandwidth
  | bw125KHz | bw250KHz | bw500KHz
  deriving DecidableEq

inductive LoraDatarate
  | sf6 | sf7 | sf8 | sf9 | sf10 | sf11 | sf12
  deriving DecidableEq

inductive LoraCodingRate
  | cr45 | cr46 | cr47 | cr48
  deriving DecidableEq

/-- `struct lora_modem_config`. -/
structure LoraModemConfig where
  frequency : UInt32
  bandwidth : LoraSignalBandwidth
  datarate : LoraDatarate
  preambleLen : UInt16
  codingRate : LoraCodingRate
  iqInverted : Bool
  publicNetwork : Bool
  txPower : Int8
  tx : Bool
  deriving DecidableEq

/-- What `lora_recv` returns and writes: its result, the first bytes of the buffer, rssi and snr. -/
structure LoraRecvResult where
  ret : ℤ
  data : List UInt8
  rssi : Int16
  snr : Int8

/-- `struct custom_uuid`; the pointer `str` is modelled by the array it points to. -/
structure CustomUuid where
  uuid : Vector UInt8 16
  str : Option (Vector UInt8 uuidStrLen)

structure Node where
  id : CustomUuid
  status : Bool

inductive Device
  | uartDev | loraDev | backupSram
  deriving DecidableEq

inductive Gpio
  | modemPwr | loadSwitch0
  deriving DecidableEq

inductive Timer
  | mySyncTimer | heartbeatTimer
  deriving DecidableEq

/-- A `k_timeout_t`: `K_NO_WAIT`, `K_FOREVER`, `K_MSEC`. -/
inductive Timeout
  | noWait | forever
  | msec (ms : ℕ)
  deriving DecidableEq

/-- The callbacks passed to `lora_recv_async`. -/
inductive LoraRecvCb
  | loraCallbackHandler
  deriving DecidableEq

/-- An argument of a formatted output. A string argument is the object it points into, or, where
the size of that object is not known, the text found from the pointer on. -/
inductive Arg
  | int (v : ℤ)
  | ptr
  | null
  | str (obj : List UInt8)
  | mem (text : ℕ → UInt8)

/-! ### Calls -/

/-- The calls the firmware makes. -/
inductive KCall
  | kMsleep (ms : ℕ)
  | kTimerStart (timer : Timer) (duration period : Timeout)
  | kTimerStatusSync (timer : Timer)
  | uartMsgqPut (item : UartMsg) (timeout : Timeout)
  | uartMsgqGet (timeout : Timeout)
  | loraMsgqPut (item : LoraMsgqDataType) (timeout : Timeout)
  | loraMsgqGet (timeout : Timeout)
  | loraMsgqPurge
  | kQueueInit
  | kUptimeGet
  | sysRand32Get
  | deviceIsReady (dev : Device)
  | gpioPinConfigureDt (pin : Gpio)
  | gpioPinSetDt (pin : Gpio) (value : ℕ)
  | uartIrqCallbackUserDataSet
  | uartIrqRxEnable
  | uartIrqUpdate
  | uartIrqRxReady
  | uartFifoRead
  | uartPollOut (c : UInt8)
  | loraConfig (config : LoraModemConfig)
  | loraSend (data : List UInt8) (dataLen : UInt32)
  | loraRecv (size : ℕ) (timeout : Timeout)
  | loraRecvAsync (cb : Option LoraRecvCb)
  | jsonObjEncodeBuf (node : Node) (size : ℕ)
  | consoleGetlineInit
  | consoleGetline
  | printk (fmt : String) (args : List Arg)
  | logErr (fmt : String) (args : List Arg)
  | logDbg (fmt : String) (args : List Arg)

/-- The answers. A read that delivers data answers `some`; result codes are integers. -/
@[reducible] def KCall.Ret : KCall → Type
  | .kTimerStatusSync _ => ℕ
  | .uartMsgqPut _ _ | .loraMsgqPut _ _ => ℤ
  | .uartMsgqGet _ => Option UartMsg
  | .loraMsgqGet _ => Option LoraMsgqDataType
  | .kUptimeGet => UInt64
  | .sysRand32Get => UInt32
  | .deviceIsReady _ => Bool
  | .uartIrqCallbackUserDataSet | .uartIrqUpdate | .uartIrqRxReady => ℤ
  | .uartFifoRead => Option UInt8
  | .loraConfig _ | .loraSend _ _ | .loraRecvAsync _ => ℤ
  | .loraRecv _ _ => LoraRecvResult
  | .jsonObjEncodeBuf _ _ => ℤ × List UInt8
  | .consoleGetline => List UInt8
  | .kMsleep _ | .kTimerStart _ _ _ | .loraMsgqPurge | .kQueueInit | .gpioPinConfigureDt _
  | .gpioPinSetDt _ _ | .uartIrqRxEnable | .uartPollOut _ | .consoleGetlineInit | .printk _ _
  | .logErr _ _ | .logDbg _ _ => Unit

/-- Firmware code. -/
abbrev Fw := Prog KCall KCall.Ret

abbrev FwEvent := Event KCall KCall.Ret

abbrev FwTrace := Trace KCall KCall.Ret

/-- Make one call. -/
abbrev kcall (c : KCall) : Fw c.Ret := Prog.perform c

/-- The calls that may suspend their caller. -/
def KCall.MayBlock : KCall → Prop
  | .kMsleep _ | .kTimerStatusSync _ => True
  | .uartMsgqPut _ t | .uartMsgqGet t | .loraMsgqPut _ t | .loraMsgqGet t => t ≠ .noWait
  | _ => False

/-- The calls on a queue that are given `K_FOREVER`. -/
def KCall.waitsForever : KCall → Bool
  | .uartMsgqPut _ t | .uartMsgqGet t | .loraMsgqPut _ t | .loraMsgqGet t => t = .forever
  | _ => false

instance : DecidablePred KCall.MayBlock := fun c => by
  cases c <;> unfold KCall.MayBlock <;> infer_instance

end MeshNode
