import MeshNode.Gsm.Signal

/-!
# The heartbeat

`send_heartbeat` asks for the signal strength and chooses between LoRa and the server. The function
is linked with `get_signal_strength` of the driver, or in the unit tests with a mock of it.

* `createHeartbeatJson`, `sendHeartbeat`, `heartbeatHandler`: the functions;
* `runs_sendHeartbeat`, `exists_runs_sendHeartbeat`: the result in terms of the signal strength;
* **`signal_route`**: from the bytes of the modem to the route;
* **`getSignalStrength_stuck`**: with the driver's function no heartbeat reaches its decision.
-/

namespace MeshNode

open Interact Prog CString Framing

/-- `LOW_SIGNAL_THRESHOLD`. -/
abbrev lowSignalThreshold : ℤ := 10

/-- `NOT_KNOWN`. -/
abbrev notKnown : ℤ := 99

/-- `create_heartbeat_json`: the text, or `NULL`. -/
def createHeartbeatJson (node : Node) : Fw (Option (List UInt8)) := do
  let r ← kcall (.jsonObjEncodeBuf node 128)
  if r.1 < 0 then do
    kcall (.printk "Error encoding JSON: %d\n" [.int r.1])
    pure none
  else pure (some r.2)

/-- `send_heartbeat`, with the `get_signal_strength` it is linked with. -/
def sendHeartbeat (getSignalStrength : Fw (UartMsg × ℤ)) (node : Node) : Fw (UartMsg × ℤ) := do
  kcall (.printk "Sending heartbeat\n" [])
  let s ← getSignalStrength
  let jsonString ← createHeartbeatJson node
  kcall (.printk "data: %s\n" [jsonString.elim .null .str])
  if s.2 < lowSignalThreshold ∨ s.2 = notKnown then do
    kcall (.printk "Sending over LoRa\n" [])
    pure (s.1, 0)
  else do
    kcall (.printk "Sending Data to the Server\n" [])
    pure (s.1, 1)

/-- `heartbeat_handler`, for the `node` that `start_heartbeat` recorded. -/
def heartbeatHandler (txBuf : UartMsg) (node : Node) : Fw UartMsg := do
  let s ← sendHeartbeat (getSignalStrength txBuf) node
  pure s.1

/-! ### The decision -/

/-- **The route** depends on the signal strength only. -/
theorem runs_sendHeartbeat {g : Fw (UartMsg × ℤ)} {node : Node} {tr : FwTrace} {r : UartMsg × ℤ}
    (h : (sendHeartbeat g node).Runs tr r) :
    ∃ t s, g.Runs t s ∧ (r.2 = 1 ↔ lowSignalThreshold ≤ s.2 ∧ s.2 ≠ notKnown) := by
  obtain ⟨_, _, -, h₁⟩ := (runs_perform_bind _ _ _ _).mp h
  obtain ⟨t, _, s, -, hg, h₂⟩ := (runs_bind _ _ _ _).mp h₁
  obtain ⟨_, _, _, -, -, h₃⟩ := (runs_bind _ _ _ _).mp h₂
  obtain ⟨_, _, -, h₄⟩ := (runs_perform_bind _ _ _ _).mp h₃
  refine ⟨t, s, hg, ?_⟩
  split_ifs at h₄ with hc
  · obtain ⟨_, _, _, _, rfl⟩ := (runs_perform_bind _ _ _ _).mp h₄
    simp only [Int.zero_ne_one, false_iff, not_and, not_not]
    omega
  · obtain ⟨_, _, _, _, rfl⟩ := (runs_perform_bind _ _ _ _).mp h₄
    simp only [true_iff]
    omega

/-- `send_heartbeat` returns if its `get_signal_strength` does. -/
theorem exists_runs_sendHeartbeat {g : Fw (UartMsg × ℤ)} (hg : ∃ t s, g.Runs t s) (node : Node) :
    ∃ t r, (sendHeartbeat g node).Runs t r := by
  obtain ⟨t, s, hs⟩ := hg
  have hjson : (createHeartbeatJson node).Runs [⟨.jsonObjEncodeBuf node 128, (0, [])⟩] (some []) :=
    (runs_perform_bind _ _ _ _).mpr ⟨(0, []), [], rfl, rfl, rfl⟩
  refine exists_runs_bind ((runs_perform _ _ ()).mpr rfl) ?_
  refine exists_runs_bind hs (exists_runs_bind hjson ?_)
  refine exists_runs_bind ((runs_perform _ _ ()).mpr rfl) ?_
  split_ifs <;> exact exists_runs_bind ((runs_perform _ _ ()).mpr rfl) ⟨[], _, rfl, rfl⟩

/-! ### From bytes to the route -/

/-- Every message `serial_cb` puts on the queue has a NUL. -/
theorem zero_mem_of_mem_closings {rx : RxState} {bs : List UInt8} {m : UartMsg}
    (h : m ∈ closings rx bs) : 0 ∈ m.toList := by
  induction bs generalizing rx with
  | nil => simp at h
  | cons c bs ih =>
    rcases List.mem_append.mp h with h | h
    · rw [Option.mem_toList] at h
      unfold rxClosed at h
      split_ifs at h
      cases h
      rw [RxState.write, Vector.toList_set]
      have hlt : rx.rxBufPos.toNat < rx.rxBuf.toList.length := by simpa using rx.pos_lt
      exact List.mem_set hlt 0
    · exact ih h

/-- **From the bytes of the modem to the route.** Let a stream of lines of at most 255 bytes, which
never fills the queue, be read to the end, in any interleaving with the interrupts, and let only
echoes and replies contain `+CSQ`. The loop of `get_signal_strength` can process what was read, and
then, whatever the buffers held before, the signal strength is that of the last reply. Given that
value `send_heartbeat` returns, and its result is the route. -/
theorem signal_route {rx₀ rx : RxState} {q : UartQueue} {acts : List UartAct}
    (h : UartRun rx₀ .empty acts rx q) (h₀ : rx₀.rxBufPos = 0) (hf : NeverFull acts)
    (hlen : ∀ line ∈ runs isTerminator (received acts), line.length ≤ 255)
    (hcsq : ∀ line ∈ runs isTerminator (received acts), lit "+CSQ" <:+: line →
      line = lit "AT+CSQ" ∨ ∃ n, IsReply line n) (hq : q.items = []) (tx₀ : UartMsg) :
    (∃ tr s, Iterates signalLoop (tx₀, 0) tr s ∧
      Fifo.taken (uartOps tr) = Fifo.taken (uartOps (uartTrace acts))) ∧
    ∀ tr tx v, Iterates signalLoop (tx₀, 0) tr (tx, v) →
      Fifo.taken (uartOps tr) = Fifo.taken (uartOps (uartTrace acts)) →
      LastReply (runs isTerminator (received acts)) v ∧
      ∀ g node, (∃ t s, Runs g t s) → (∀ t s, Runs g t s → s.2 = v) →
        (∃ t r, (sendHeartbeat g node).Runs t r) ∧
        ∀ t r, (sendHeartbeat g node).Runs t r →
          (r.2 = 1 ↔ lowSignalThreshold ≤ v ∧ v ≠ notKnown) := by
  refine ⟨exists_iterates_signalLoop _ _, fun tr tx v hloop htaken => ⟨?_, ?_⟩⟩
  · -- everything closed was read, and it is the lines, since they are short
    have hall : Fifo.taken (uartOps tr) = closings rx₀ (received acts) :=
      htaken.trans (taken_eq_closings h hf hq)
    have hv := iterates_signalLoop hloop fun m hm => zero_mem_of_mem_closings (hall ▸ hm)
    rw [hall, closings_strings_of_short h₀ hlen] at hv
    rw [show v = _ from hv]
    exact lastReply_foldl hcsq
  · refine fun g node hg hv => ⟨exists_runs_sendHeartbeat hg node, fun t r hr => ?_⟩
    obtain ⟨t, s, hs, e⟩ := runs_sendHeartbeat hr
    rw [hv t s hs] at e
    exact e

/-- An echo, the reply `+CSQ: 15,99` and `OK`, in one invocation. -/
theorem signal_route_csq_15 : ∃ acts rx q tx v tr, UartRun .boot .empty acts rx q ∧
    received acts = lit "AT+CSQ\r\r\n+CSQ: 15,99\r\n\r\nOK\r\n" ∧
    Iterates signalLoop (Vector.replicate _ 7, 0) tr (tx, v) ∧
    LastReply [lit "AT+CSQ", lit "+CSQ: 15,99", lit "OK"] v := by
  obtain ⟨acts₁, rx, q₁, h₁, e₁, -⟩ :=
    exists_uartRun (lit "AT+CSQ\r\r\n+CSQ: 15,99\r\n\r\nOK\r\n") .boot .empty
  obtain ⟨acts₂, q, h₂, hq, e₂, -⟩ := exists_drained rx q₁
  have h := h₁.append h₂
  have e : received (acts₁ ++ acts₂) = lit "AT+CSQ\r\r\n+CSQ: 15,99\r\n\r\nOK\r\n" := by
    rw [received_append, e₁, e₂, List.append_nil]
  have hruns : runs isTerminator (received (acts₁ ++ acts₂)) =
      [lit "AT+CSQ", lit "+CSQ: 15,99", lit "OK"] := by
    rw [e]
    decide
  have hf : NeverFull (acts₁ ++ acts₂) := neverFull_of_few h rfl (by rw [hruns]; decide)
  have hlen : ∀ line ∈ runs isTerminator (received (acts₁ ++ acts₂)), line.length ≤ 255 := by
    rw [hruns]
    decide
  have hcsq : ∀ line ∈ runs isTerminator (received (acts₁ ++ acts₂)), lit "+CSQ" <:+: line →
      line = lit "AT+CSQ" ∨ ∃ n, IsReply line n := by
    rw [hruns]
    intro line hl hc
    simp only [List.mem_cons, List.not_mem_nil, or_false] at hl
    rcases hl with rfl | rfl | rfl
    · exact .inl rfl
    · exact .inr ⟨15, isReply_csq_15⟩
    · exact absurd ((strstr_isSome_iff _ _).mpr hc) (by decide)
  obtain ⟨⟨tr, ⟨tx, v⟩, hi, ht⟩, hroute⟩ :=
    signal_route h rfl hf hlen hcsq hq (Vector.replicate _ 7)
  refine ⟨_, rx, q, tx, v, tr, h, e, hi, ?_⟩
  rw [← hruns]
  exact (hroute tr tx v hi ht).1

/-! ### With the driver's function -/

/-- `get_signal_strength` comes back with the signal strength, after the commands for data mode. -/
def Completes (tx : UartMsg) (w : ModemWorld) : Prop :=
  ∃ tr s w', Exec modemEnv w (getSignalStrength tx) tr s w' ∧
    lit "At+ktcpstart=1\nreconnected\n" <:+ uartOutput tr ∧
    s.2 = (w.inbox.map fun m => cstr m.toList).foldl csqValue 0

/-- **No heartbeat reaches its decision.** For every sequence of messages, `get_signal_strength`
does not complete but gets stuck at a read of the queue that is never answered, and
`send_heartbeat` does not return. -/
theorem getSignalStrength_stuck (tx : UartMsg) (w : ModemWorld) :
    ¬ Completes tx w ∧ Blocks modemEnv w (getSignalStrength tx) (.uartMsgqGet .forever) ∧
    ∀ node, ¬ ∃ tr r w', Exec modemEnv w (sendHeartbeat (getSignalStrength tx) node) tr r w' := by
  refine ⟨?_, getSignalStrength_blocks tx w, fun node => ?_⟩
  · rintro ⟨tr, s, w', h, -⟩
    exact not_exec_getSignalStrength h
  · rintro ⟨tr, r, w', h⟩
    obtain ⟨_, _, _, _, _, h₁⟩ := exec_perform_bind_iff.mp h
    obtain ⟨_, _, _, _, _, h₂, -⟩ := exec_bind_iff.mp h₁
    exact not_exec_getSignalStrength h₂

/-- The reply `+CSQ: 15,99` as the only message. -/
theorem not_completes_csq_15 :
    IsReply (cstr (overwrite (Vector.replicate _ 0 : UartMsg) (lit "+CSQ: 15,99")).toList) 15 ∧
    ¬ Completes (Vector.replicate _ 0)
      ⟨[overwrite (Vector.replicate _ 0) (lit "+CSQ: 15,99")], ⟨false, 0⟩⟩ := by
  constructor
  · have hlen : uartMaxMsgLen - (lit "+CSQ: 15,99").length = 1268 + 1 := rfl
    rw [toList_overwrite _ (by decide), Vector.toList_replicate, List.drop_replicate, hlen,
      List.replicate_succ, cstr_append_nul (by decide)]
    exact isReply_csq_15
  · rintro ⟨tr, s, w', h, -⟩
    exact not_exec_getSignalStrength h

end MeshNode
