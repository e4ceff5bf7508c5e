import MeshNode.Kernel
import MeshNode.Lib.Fifo

/-!
# The receive interrupt of the modem UART

`serial_cb` assembles lines in `rx_buf` and puts each closed line on `uart_msgq`.

* `RxState`, `serialCbByte`, `serialCb`: the buffer with its index, one pass of the read loop, the
  interrupt callback;
* `rxNext`, `rxClosed`: what one byte does to the buffer, and the message it closes;
* `feed`, `closings`: the same for a stream of bytes;
* **`serialCb_runs`**: whatever the kernel answers, an invocation leaves the buffer of `feed` and
  offers the messages of `closings`, for the bytes it read;
* `bytesRead`, `uartOps`: the bytes and the queue operations of a trace.
-/

namespace MeshNode

open Interact Prog

/-- The static state of the callback: `rx_buf` and its index `rx_buf_pos`, a `uint8_t`. -/
structure RxState where
  rxBuf : UartMsg
  rxBufPos : UInt8

/-- The state at boot. -/
def RxState.boot : RxState := ⟨Vector.replicate _ 0, 0⟩

/-- `c == '\n' || c == '\r' || c == '\0'`. -/
def isTerminator (c : UInt8) : Bool := c = 10 || c = 13 || c = 0

theorem RxState.pos_lt (rx : RxState) : rx.rxBufPos.toNat < uartMaxMsgLen :=
  rx.rxBufPos.toNat_lt.trans (by decide)

/-- The buffer with one element written at the index. -/
def RxState.write (rx : RxState) (c : UInt8) : UartMsg := rx.rxBuf.set rx.rxBufPos.toNat c rx.pos_lt

/-- The body of the read loop, for the byte `c`. -/
def serialCbByte (c : UInt8) (rx : RxState) : Fw RxState :=
  if isTerminator c ∧ 0 < rx.rxBufPos then do
    -- the result is ignored: if the queue is full, the message is dropped
    let _ ← kcall (.uartMsgqPut (rx.write 0) .noWait)
    pure ⟨rx.write 0, 0⟩
  else if rx.rxBufPos.toNat < uartMaxMsgLen - 1 ∧ ¬ isTerminator c then
    -- `rx_buf_pos++` wraps at 256
    pure ⟨rx.write c, rx.rxBufPos + 1⟩
  else pure rx

/-- One round of `while (uart_fifo_read(uart_dev, &c, 1) == 1)`. -/
def serialCbLoop (rx : RxState) : Fw (RxState ⊕ RxState) := do
  let read ← kcall .uartFifoRead
  match read with
  | some c => do
    let rx ← serialCbByte c rx
    pure (.inl rx)
  | none => pure (.inr rx)

/-- `serial_cb`. -/
def serialCb (rx : RxState) : Fw RxState := do
  let update ← kcall .uartIrqUpdate
  if update = 0 then pure rx else do
    let ready ← kcall .uartIrqRxReady
    if ready = 0 then pure rx else loop serialCbLoop rx

/-! ### One byte -/

/-- The message that the byte `c` closes. -/
def rxClosed (rx : RxState) (c : UInt8) : Option UartMsg :=
  if isTerminator c ∧ 0 < rx.rxBufPos then some (rx.write 0) else none

/-- The buffer after the byte `c`. -/
def rxNext (rx : RxState) (c : UInt8) : RxState :=
  if isTerminator c then if 0 < rx.rxBufPos then ⟨rx.write 0, 0⟩ else rx
  else ⟨rx.write c, rx.rxBufPos + 1⟩

/-- The guard against overlong lines never takes effect: the index is below 256. -/
theorem pos_lt_guard (rx : RxState) : rx.rxBufPos.toNat < uartMaxMsgLen - 1 :=
  rx.rxBufPos.toNat_lt.trans (by decide)

/-- **One pass of the loop** closes `rxClosed` and leaves `rxNext`, whatever the queue answers. -/
theorem runs_serialCbByte {c : UInt8} {rx rx' : RxState} {tr : FwTrace} :
    (serialCbByte c rx).Runs tr rx' ↔ rx' = rxNext rx c ∧
      (match rxClosed rx c with
        | some m => ∃ r, tr = [⟨.uartMsgqPut m .noWait, r⟩]
        | none => tr = []) := by
  unfold serialCbByte rxNext rxClosed
  by_cases ht : isTerminator c = true <;> by_cases hp : 0 < rx.rxBufPos
  · simp only [ht, hp, and_self, if_true, bind_eq, pure_eq, runs_perform_bind, runs_ret]
    constructor
    · rintro ⟨r, _, rfl, rfl, rfl⟩; exact ⟨rfl, r, rfl⟩
    · rintro ⟨rfl, r, rfl⟩; exact ⟨r, [], rfl, rfl, rfl⟩
  all_goals
    simp only [ht, hp, pos_lt_guard, and_true, and_false, not_true, if_true, if_false, pure_eq,
      runs_ret, Bool.false_eq_true, not_false_eq_true]
    exact ⟨fun h => ⟨h.2.symm, h.1⟩, fun h => ⟨h.2, h.1.symm⟩⟩

/-! ### A stream of bytes -/

/-- The buffer after a stream. -/
def feed (rx : RxState) (bs : List UInt8) : RxState := bs.foldl rxNext rx

/-- The messages a stream closes. -/
def closings (rx : RxState) : List UInt8 → List UartMsg
  | [] => []
  | c :: bs => (rxClosed rx c).toList ++ closings (rxNext rx c) bs

@[simp] theorem feed_nil (rx : RxState) : feed rx [] = rx := rfl

@[simp] theorem closings_nil (rx : RxState) : closings rx [] = [] := rfl

theorem feed_append (rx : RxState) (bs bs' : List UInt8) :
    feed rx (bs ++ bs') = feed (feed rx bs) bs' := List.foldl_append

theorem closings_append (rx : RxState) (bs bs' : List UInt8) :
    closings rx (bs ++ bs') = closings rx bs ++ closings (feed rx bs) bs' := by
  induction bs generalizing rx with
  | nil => rfl
  | cons c bs ih => simp [closings, feed, ih]

/-! ### Observing traces -/

/-- The bytes a trace took out of the FIFO. -/
def bytesRead : FwTrace → List UInt8 :=
  List.filterMap fun | ⟨.uartFifoRead, r⟩ => r | _ => none

/-- The operation of an event on `uart_msgq`. -/
def uartOp : FwEvent → Option (Fifo.Op UartMsg)
  | ⟨.uartMsgqPut m _, r⟩ => some (.put m (r = 0))
  | ⟨.uartMsgqGet _, r⟩ => some (.get r)
  | _ => none

/-- The operations of a trace on `uart_msgq`. -/
def uartOps : FwTrace → List (Fifo.Op UartMsg) := List.filterMap uartOp

/-- The messages a trace offered to `uart_msgq`. -/
def uartOffered (tr : FwTrace) : List UartMsg := Fifo.offered (uartOps tr)

theorem bytesRead_append (t t' : FwTrace) : bytesRead (t ++ t') = bytesRead t ++ bytesRead t' :=
  List.filterMap_append

theorem uartOps_append (t t' : FwTrace) : uartOps (t ++ t') = uartOps t ++ uartOps t' :=
  List.filterMap_append

theorem uartOffered_append (t t' : FwTrace) :
    uartOffered (t ++ t') = uartOffered t ++ uartOffered t' := by
  rw [uartOffered, uartOps_append]
  exact List.filterMap_append

/-- A pass that goes on has read one byte. -/
theorem runs_serialCbLoop_inl {rx rx' : RxState} {tr : FwTrace}
    (h : (serialCbLoop rx).Runs tr (.inl rx')) :
    ∃ c, rx' = rxNext rx c ∧ bytesRead tr = [c] ∧ uartOffered tr = (rxClosed rx c).toList := by
  obtain ⟨r, t, rfl, hr⟩ := (runs_perform_bind _ _ _ _).mp h
  cases r with
  | none => cases hr.2
  | some c =>
    obtain ⟨t₁, t₂, rx₁, rfl, h₁, rfl, h₂⟩ := (runs_bind _ _ _ _).mp hr
    cases h₂
    obtain ⟨rfl, ht⟩ := runs_serialCbByte.mp h₁
    refine ⟨c, rfl, ?_⟩
    cases hc : rxClosed rx c <;> rw [hc] at ht
    · subst ht
      exact ⟨rfl, rfl⟩
    · obtain ⟨r, rfl⟩ := ht
      exact ⟨rfl, rfl⟩

/-- The last pass finds the FIFO empty. -/
theorem runs_serialCbLoop_inr {rx rx' : RxState} {tr : FwTrace} :
    (serialCbLoop rx).Runs tr (.inr rx') ↔ tr = [⟨.uartFifoRead, none⟩] ∧ rx' = rx := by
  constructor
  · intro h
    obtain ⟨r, t, rfl, hr⟩ := (runs_perform_bind _ _ _ _).mp h
    cases r with
    | none =>
      obtain ⟨rfl, e⟩ := hr
      cases e
      exact ⟨rfl, rfl⟩
    | some c =>
      obtain ⟨_, _, _, _, _, _, h₂⟩ := (runs_bind _ _ _ _).mp hr
      cases h₂
  · rintro ⟨rfl, rfl⟩
    exact ⟨none, [], rfl, rfl, rfl⟩

theorem iterates_serialCbLoop {rx rx' : RxState} {tr : FwTrace}
    (h : Iterates serialCbLoop rx tr rx') :
    rx' = feed rx (bytesRead tr) ∧ uartOffered tr = closings rx (bytesRead tr) := by
  unfold Iterates at h
  induction h with
  | refl => exact ⟨rfl, rfl⟩
  | step hb _ ih =>
    obtain ⟨c, rfl, hr, ho⟩ := runs_serialCbLoop_inl hb
    rw [bytesRead_append, uartOffered_append, hr, ho, ih.1, ih.2]
    exact ⟨rfl, rfl⟩

/-- **An invocation of `serial_cb`** leaves the buffer of `feed` and offers the messages of
`closings`, for the bytes it read. Neither depends on the answers of the queue. -/
theorem serialCb_runs {rx rx' : RxState} {tr : FwTrace} (h : (serialCb rx).Runs tr rx') :
    rx' = feed rx (bytesRead tr) ∧ uartOffered tr = closings rx (bytesRead tr) := by
  obtain ⟨u, t, rfl, hu⟩ := (runs_perform_bind _ _ _ _).mp h
  split_ifs at hu with h0
  · obtain ⟨rfl, rfl⟩ := hu
    exact ⟨rfl, rfl⟩
  obtain ⟨r, t, rfl, hr⟩ := (runs_perform_bind _ _ _ _).mp hu
  split_ifs at hr with h1
  · obtain ⟨rfl, rfl⟩ := hr
    exact ⟨rfl, rfl⟩
  obtain ⟨rx₁, t₁, t₂, rfl, hi, hb⟩ := (runs_loop _ _ _ _).mp hr
  obtain ⟨rfl, rfl⟩ := runs_serialCbLoop_inr.mp hb
  have h₁ : bytesRead (t₁ ++ [⟨.uartFifoRead, none⟩]) = bytesRead t₁ := by
    rw [bytesRead_append]
    exact List.append_nil _
  have h₂ : uartOffered (t₁ ++ [⟨.uartFifoRead, none⟩]) = uartOffered t₁ := by
    rw [uartOffered_append]
    exact List.append_nil _
  change rx' = feed rx (bytesRead (t₁ ++ _)) ∧
    uartOffered (t₁ ++ _) = closings rx (bytesRead (t₁ ++ _))
  rw [h₁, h₂]
  exact iterates_serialCbLoop hi

end MeshNode
