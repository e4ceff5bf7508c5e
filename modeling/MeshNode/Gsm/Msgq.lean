import MeshNode.Gsm.SerialCb
import MeshNode.Interact.Queue

/-!
# `uart_msgq` between the interrupt and its readers

`serial_cb` is the only producer of `uart_msgq`; the readers call `k_msgq_get` at any moment between
two invocations.

* `uartMsgqEnv`: the queue as an environment: what `k_msgq_put` and `k_msgq_get` can answer;
* `UartAct`, `UartRun`: invocations of `serial_cb` and reads, in any order;
* `UartRun.offered_eq`, `UartRun.fifo_run`: a run in terms of the received bytes;
* `exists_exec_serialCb`: an invocation ends on every FIFO content;
* **`uart_msgq_law`**: messages are lost only at a full queue, and nothing else happens to them.
-/

namespace MeshNode

open CString Interact Prog

abbrev UartQueue := Fifo.BQueue UartMsg uartMaxMsgQueueSize

/-- The kernel's side of `uart_msgq`: a put fails without effect when the queue is full, a get
removes the head. -/
def uartMsgqEnv : Env KCall KCall.Ret UartQueue := queueEnv uartOp KCall.waitsForever

/-- An invocation of `serial_cb` with its calls, or a read of the queue with its answer. -/
inductive UartAct
  | irq (tr : FwTrace)
  | get (timeout : Timeout) (r : Option UartMsg)

def UartAct.trace : UartAct → FwTrace
  | .irq tr => tr
  | .get t r => [⟨.uartMsgqGet t, r⟩]

/-- All calls of a run, in order. -/
def uartTrace (acts : List UartAct) : FwTrace := acts.flatMap UartAct.trace

/-- The bytes received in a run: those `serial_cb` took out of the FIFO. -/
def received (acts : List UartAct) : List UInt8 := bytesRead (uartTrace acts)

theorem received_irq (tr : FwTrace) (acts : List UartAct) :
    received (.irq tr :: acts) = bytesRead tr ++ received acts := bytesRead_append _ _

theorem uartTrace_append (acts acts' : List UartAct) :
    uartTrace (acts ++ acts') = uartTrace acts ++ uartTrace acts' := List.flatMap_append

theorem received_append (acts acts' : List UartAct) :
    received (acts ++ acts') = received acts ++ received acts' := by
  rw [received, uartTrace_append, bytesRead_append]
  rfl

theorem uartOffered_irq (tr : FwTrace) (acts : List UartAct) :
    uartOffered (uartTrace (.irq tr :: acts)) = uartOffered tr ++ uartOffered (uartTrace acts) :=
  uartOffered_append _ _

/-- **Runs of the UART subsystem**: any interleaving of invocations and reads. A read between two
bytes of an invocation is one that cuts the invocation in two. -/
inductive UartRun : RxState → UartQueue → List UartAct → RxState → UartQueue → Prop
  | nil (rx q) : UartRun rx q [] rx q
  | irq {rx rx₁ rx' q q₁ q' tr acts} : Exec uartMsgqEnv q (serialCb rx) tr rx₁ q₁ →
      UartRun rx₁ q₁ acts rx' q' → UartRun rx q (.irq tr :: acts) rx' q'
  | get {rx rx' q q₁ q' t r acts} : uartMsgqEnv q ⟨.uartMsgqGet t, r⟩ = some q₁ →
      UartRun rx q₁ acts rx' q' → UartRun rx q (.get t r :: acts) rx' q'

/-! ### The queue of a run -/

namespace UartRun

variable {rx rx' : RxState} {q q' : UartQueue} {acts : List UartAct}

theorem env_run (h : UartRun rx q acts rx' q') : uartMsgqEnv.run q (uartTrace acts) = some q' := by
  induction h with
  | nil => rfl
  | irq he _ ih => exact Env.run_append_eq_some.mpr ⟨_, he.run, ih⟩
  | get he _ ih => exact Env.run_cons_eq_some.mpr ⟨_, he, ih⟩

theorem fifo_run (h : UartRun rx q acts rx' q') :
    Fifo.run q (uartOps (uartTrace acts)) = some q' := queueEnv_run h.env_run

/-- The offered messages are those the received bytes close. -/
theorem offered_eq (h : UartRun rx q acts rx' q') :
    uartOffered (uartTrace acts) = closings rx (received acts) := by
  induction h with
  | nil => rfl
  | irq he _ ih =>
    obtain ⟨h₁, h₂⟩ := serialCb_runs he.runs
    rw [received_irq, closings_append, ← h₁, ← h₂, ← ih, uartOffered_irq]
  | get _ _ ih => exact ih

theorem append {acts' : List UartAct} {rx'' : RxState} {q'' : UartQueue}
    (h : UartRun rx q acts rx' q') (h' : UartRun rx' q' acts' rx'' q'') :
    UartRun rx q (acts ++ acts') rx'' q'' := by
  induction h with
  | nil => exact h'
  | irq he _ ih => exact .irq he (ih h')
  | get he _ ih => exact .get he (ih h')

end UartRun

/-! ### Invocations end -/

theorem exists_exec_put (q : UartQueue) (m : UartMsg) :
    ∃ r q', uartMsgqEnv q ⟨.uartMsgqPut m .noWait, r⟩ = some q' := by
  by_cases h : q.items.length < uartMaxMsgQueueSize
  · refine ⟨(0 : ℤ), q.push m h, (queueEnv_of_op rfl).mpr ⟨by simp [KCall.waitsForever], ?_⟩⟩
    exact Fifo.step_put_ok.mpr ⟨h, rfl⟩
  · refine ⟨(-1 : ℤ), q, (queueEnv_of_op rfl).mpr ⟨by simp [KCall.waitsForever], ?_⟩⟩
    exact Fifo.step_put_refused.mpr ⟨le_antisymm q.le_cap (Nat.le_of_not_lt h), rfl⟩

theorem exists_exec_serialCbByte (c : UInt8) (rx : RxState) (q : UartQueue) :
    ∃ tr rx' q', Exec uartMsgqEnv q (serialCbByte c rx) tr rx' q' ∧ bytesRead tr = [] ∧
      Fifo.taken (uartOps tr) = [] := by
  unfold serialCbByte
  split_ifs
  · obtain ⟨r, q', h⟩ := exists_exec_put q (rx.write 0)
    exact ⟨_, _, q', .perform_bind h (.ret _ _), rfl, rfl⟩
  · exact ⟨[], _, q, .ret _ _, rfl, rfl⟩
  · exact ⟨[], _, q, .ret _ _, rfl, rfl⟩

theorem exists_exec_loop (bs : List UInt8) (rx : RxState) (q : UartQueue) :
    ∃ tr rx' q', Exec uartMsgqEnv q (loop serialCbLoop rx) tr rx' q' ∧ bytesRead tr = bs ∧
      Fifo.taken (uartOps tr) = [] := by
  induction bs generalizing rx q with
  | nil =>
    refine ⟨[⟨.uartFifoRead, none⟩], rx, q, .loop_exit ?_, rfl, rfl⟩
    exact .perform_bind rfl (.ret _ _)
  | cons c bs ih =>
    obtain ⟨t₁, rx₁, q₁, h₁, e₁, g₁⟩ := exists_exec_serialCbByte c rx q
    obtain ⟨t₂, rx₂, q₂, h₂, e₂, g₂⟩ := ih rx₁ q₁
    refine ⟨(⟨.uartFifoRead, some c⟩ :: (t₁ ++ [])) ++ t₂, rx₂, q₂, .loop_again ?_ h₂, ?_, ?_⟩
    · exact .perform_bind rfl (.bind h₁ (.ret _ _))
    · have : bytesRead (⟨.uartFifoRead, some c⟩ :: (t₁ ++ [])) = c :: bytesRead (t₁ ++ []) := rfl
      rw [bytesRead_append, this, List.append_nil, e₁, e₂]
      rfl
    · have : uartOps (⟨.uartFifoRead, some c⟩ :: (t₁ ++ [])) = uartOps (t₁ ++ []) := rfl
      rw [uartOps_append, this, List.append_nil, Fifo.taken_append, g₁, g₂]
      rfl

/-- **Every invocation ends**, after draining the FIFO. -/
theorem exists_exec_serialCb (bs : List UInt8) (rx : RxState) (q : UartQueue) :
    ∃ tr rx' q', Exec uartMsgqEnv q (serialCb rx) tr rx' q' ∧ bytesRead tr = bs ∧
      Fifo.taken (uartOps tr) = [] := by
  obtain ⟨tr, rx', q', h, e, g⟩ := exists_exec_loop bs rx q
  refine ⟨⟨.uartIrqUpdate, (1 : ℤ)⟩ :: ⟨.uartIrqRxReady, (1 : ℤ)⟩ :: tr, rx', q', ?_, e, g⟩
  exact .perform_bind rfl (.perform_bind rfl h)

/-- One invocation that receives the bytes `bs`, as a run. -/
theorem exists_uartRun (bs : List UInt8) (rx : RxState) (q : UartQueue) :
    ∃ acts rx' q', UartRun rx q acts rx' q' ∧ received acts = bs ∧
      Fifo.taken (uartOps (uartTrace acts)) = [] := by
  obtain ⟨tr, rx', q', h, e, g⟩ := exists_exec_serialCb bs rx q
  exact ⟨[.irq tr], rx', q', .irq h (.nil _ _), by simpa [received, uartTrace, UartAct.trace],
    by simpa [uartTrace, UartAct.trace]⟩

/-- Readers can empty the queue. -/
theorem exists_drained (rx : RxState) (q : UartQueue) :
    ∃ acts q', UartRun rx q acts rx q' ∧ q'.items = [] ∧ received acts = [] ∧
      Fifo.taken (uartOps (uartTrace acts)) = q.items := by
  obtain ⟨items, hle⟩ := q
  induction items with
  | nil => exact ⟨[], ⟨[], hle⟩, .nil _ _, rfl, rfl, rfl⟩
  | cons m items ih =>
    obtain ⟨acts, q', h, hq, hr, ht⟩ := ih ((Nat.le_succ _).trans hle)
    refine ⟨.get .noWait (some m) :: acts, q', .get ?_ h, hq, hr, congrArg (m :: ·) ht⟩
    exact (queueEnv_of_op rfl).mpr ⟨by simp [KCall.waitsForever], Fifo.step_get.mpr ⟨rfl, rfl⟩⟩

/-! ### The producer and consumer law -/

theorem uartOp_ne_purge {tr : FwTrace} : ∀ op ∈ uartOps tr, op ≠ .purge := by
  intro op hop
  obtain ⟨e, -, he⟩ := List.mem_filterMap.mp hop
  unfold uartOp at he
  split at he <;> cases he <;> nofun

/-- **Producer and consumer law of `uart_msgq`.** The offered messages are those the received bytes
close, in order; the messages taken and then those still queued are the offered ones without those
that met a full queue; what a drop leaves in the assembler is what a success leaves. -/
theorem uart_msgq_law {rx₀ rx : RxState} {q : UartQueue} {acts : List UartAct}
    (h : UartRun rx₀ .empty acts rx q) :
    uartOffered (uartTrace acts) = closings rx₀ (received acts) ∧
    Fifo.taken (uartOps (uartTrace acts)) ++ q.items =
      Fifo.accepted (uartOps (uartTrace acts)) ∧
    (∀ pre m ok post, uartOps (uartTrace acts) = pre ++ .put m ok :: post →
      ∃ v : UartQueue, Fifo.run .empty pre = some v ∧
        (ok = false ↔ v.items.length = uartMaxMsgQueueSize)) ∧
    (∀ s s₁ s₂ t₁ t₂, (serialCb s).Runs t₁ s₁ → (serialCb s).Runs t₂ s₂ →
      bytesRead t₁ = bytesRead t₂ → s₁ = s₂ ∧ uartOffered t₁ = uartOffered t₂) := by
  refine ⟨h.offered_eq, Fifo.taken_append_items h.fifo_run uartOp_ne_purge, ?_, ?_⟩
  · intro pre m ok post e
    have hr := h.fifo_run
    rw [e] at hr
    exact Fifo.put_ok_iff hr
  · intro s s₁ s₂ t₁ t₂ h₁ h₂ e
    obtain ⟨rfl, o₁⟩ := serialCb_runs h₁
    obtain ⟨rfl, o₂⟩ := serialCb_runs h₂
    rw [o₁, o₂, e]
    exact ⟨rfl, rfl⟩

/-- Twenty-one lines of one letter in one invocation, one more than the queue holds: it holds twenty
times the letter. -/
theorem uart_msgq_law_overflow : ∃ acts rx q, UartRun .boot .empty acts rx q ∧
    received acts = (List.replicate 21 [65, 10]).flatten ∧
    (uartOffered (uartTrace acts)).map (fun m => cstr m.toList) = List.replicate 21 [65] ∧
    q.items.map (fun m => cstr m.toList) = List.replicate 20 [65] ∧
    q.items = Fifo.accepted (uartOps (uartTrace acts)) := by
  obtain ⟨acts, rx, q, h, e, g⟩ := exists_uartRun (List.replicate 21 [65, 10]).flatten .boot .empty
  obtain ⟨hoff, hlaw, -⟩ := uart_msgq_law h
  have htexts : (uartOffered (uartTrace acts)).map (fun m => cstr m.toList) =
      List.replicate 21 [65] := by
    rw [hoff, e]
    rfl
  have hitems := Fifo.items_of_untaken h.fifo_run uartOp_ne_purge g
  refine ⟨acts, rx, q, h, e, htexts, ?_, by rwa [g] at hlaw⟩
  rw [hitems, List.map_take, Fifo.BQueue.items_empty, List.nil_append]
  exact (congrArg _ htexts).trans rfl

end MeshNode
