import MeshNode.Gsm.Msgq
import MeshNode.Lib.Framing

/-!
# The lines of the modem

What `serial_cb` puts on `uart_msgq`, in terms of the runs of the received stream. The index is
eight bits wide and the buffer 1280 bytes long, so a run is stored modulo 256.

* `wrapped`, `wrapString`: what is left of a run in the buffer, and the message it gives;
* `Holds`: the buffer while a run is unfinished;
* **`closings_strings`**: the messages of every stream, for every length of its runs;
* `closings_strings_of_short`: short lines are closed as they are;
* `taken_eq_closings`: what the readers get of a run that never fills the queue;
* `lineMessages`: the runs of a stream, cut to the length of the buffer;
* **`messages_eq_iff`**: the messages are those exactly when no finished run exceeds 255 bytes.
-/

namespace MeshNode

open Interact Framing CString

/-- The last `length % 256` bytes of a run. -/
def wrapped (r : List UInt8) : List UInt8 := r.drop (r.length / 256 * 256)

/-- The message of a finished run; the index of a run of length `256 * k` is `0` again. -/
def wrapString (r : List UInt8) : Option (List UInt8) :=
  if r.length % 256 = 0 then none else some (wrapped r)

theorem length_wrapped (r : List UInt8) : (wrapped r).length = r.length % 256 := by
  rw [wrapped, List.length_drop]
  omega

theorem wrapped_concat (r : List UInt8) (c : UInt8) :
    wrapped (r ++ [c]) = if (r.length + 1) % 256 = 0 then [] else wrapped r ++ [c] := by
  unfold wrapped
  rw [List.length_append, List.length_singleton]
  split_ifs with h
  · exact List.drop_eq_nil_of_le (by rw [List.length_append, List.length_singleton]; omega)
  · have : (r.length + 1) / 256 = r.length / 256 := by omega
    rw [this, List.drop_append_of_le_length (by omega)]

theorem wrapped_of_short {r : List UInt8} (h : r.length ≤ 255) : wrapped r = r := by
  have : r.length / 256 = 0 := by omega
  rw [wrapped, this]
  rfl

theorem wrapString_of_short {r : List UInt8} (hr : r ≠ []) (h : r.length ≤ 255) :
    wrapString r = some r := by
  have := List.length_pos_iff.mpr hr
  rw [wrapString, if_neg (by omega), wrapped_of_short h]

/-! ### The buffer -/

/-- The buffer after the bytes `r` of an unfinished run. -/
structure Holds (r : List UInt8) (rx : RxState) : Prop where
  pos : rx.rxBufPos.toNat = r.length % 256
  content : rx.rxBuf.toList.take rx.rxBufPos.toNat = wrapped r

theorem Holds.nil {rx : RxState} (h : rx.rxBufPos = 0) : Holds [] rx := by
  constructor <;> simp [h, wrapped]

/-- The string in the buffer once a NUL is written at the index. -/
theorem cstr_write_zero {r : List UInt8} {rx : RxState} (h : Holds r rx)
    (hr : ∀ b ∈ r, isTerminator b = false) : cstr (rx.write 0).toList = wrapped r := by
  have h0 : 0 ∉ wrapped r := fun hm => absurd (hr 0 (List.mem_of_mem_drop hm)) (by decide)
  have hlen : rx.rxBufPos.toNat < rx.rxBuf.toList.length := by simpa using rx.pos_lt
  rw [RxState.write, Vector.toList_set, List.set_eq_take_append_cons_drop, if_pos hlen, h.content,
    cstr_append_nul h0]

/-- **A byte of the run** goes to the index, which wraps. -/
theorem Holds.concat {r : List UInt8} {rx : RxState} (h : Holds r rx) {c : UInt8}
    (hc : isTerminator c = false) : Holds (r ++ [c]) (rxNext rx c) := by
  have hpos : (rx.rxBufPos + 1).toNat = (r.length + 1) % 256 := by
    rw [UInt8.toNat_add, h.pos]
    simp
  have hlen : rx.rxBufPos.toNat < rx.rxBuf.toList.length := by simpa using rx.pos_lt
  have hnext : rxNext rx c = ⟨rx.write c, rx.rxBufPos + 1⟩ := by simp [rxNext, hc]
  rw [hnext]
  refine ⟨by simpa using hpos, ?_⟩
  change (rx.write c).toList.take (rx.rxBufPos + 1).toNat = _
  rw [wrapped_concat, hpos]
  split_ifs with hw
  · rw [hw, List.take_zero]
  · have hp : (r.length + 1) % 256 = rx.rxBufPos.toNat + 1 := by rw [h.pos]; omega
    rw [hp, RxState.write, Vector.toList_set, List.take_set, ← h.content]
    have hlt := rx.pos_lt
    rw [List.set_eq_take_append_cons_drop, if_pos (by simp; omega), List.take_take,
      List.drop_of_length_le (by simp)]
    simp

/-- **A terminator** closes what is left of the run, if the index is not `0`. -/
theorem rxClosed_of_term {r : List UInt8} {rx : RxState} (h : Holds r rx)
    (hr : ∀ b ∈ r, isTerminator b = false) {c : UInt8} (hc : isTerminator c = true) :
    (rxClosed rx c).map (fun m => cstr m.toList) = wrapString r := by
  have hp : 0 < rx.rxBufPos ↔ ¬ r.length % 256 = 0 := by
    rw [UInt8.lt_iff_toNat_lt, h.pos]
    exact Nat.pos_iff_ne_zero
  unfold rxClosed wrapString
  by_cases h0 : r.length % 256 = 0
  · simp [hc, hp, h0]
  · simp [hc, hp, h0, cstr_write_zero h hr]

/-- After a terminator the index is `0`. -/
theorem rxNext_term (rx : RxState) {c : UInt8} (hc : isTerminator c = true) :
    (rxNext rx c).rxBufPos = 0 := by
  unfold rxNext
  rw [if_pos hc]
  split_ifs with hp
  · rfl
  · rw [UInt8.lt_iff_toNat_lt] at hp
    exact UInt8.toNat_inj.mp (by simpa using hp)

/-! ### The messages of a stream -/

section Stream

variable {rx : RxState}

theorem feed_concat (rx : RxState) (bs : List UInt8) (c : UInt8) :
    feed rx (bs ++ [c]) = rxNext (feed rx bs) c := by
  rw [feed_append]
  rfl

theorem holds_feed (h : rx.rxBufPos = 0) (bs : List UInt8) :
    Holds (openRun isTerminator bs) (feed rx bs) := by
  induction bs using List.reverseRecOn with
  | nil => simpa using Holds.nil h
  | append_singleton bs c ih =>
    rw [feed_concat]
    cases hc : isTerminator c with
    | true =>
      rw [openRun_concat_of_term hc]
      exact .nil (rxNext_term _ hc)
    | false =>
      rw [openRun_concat_of_not hc]
      exact ih.concat hc

theorem wrapString_nil : wrapString [] = none := rfl

/-- **The messages `serial_cb` closes on a stream**, for runs of every length. -/
theorem closings_strings (h : rx.rxBufPos = 0) (bs : List UInt8) :
    (closings rx bs).map (fun m => cstr m.toList) =
      (runs isTerminator bs).filterMap wrapString := by
  induction bs using List.reverseRecOn with
  | nil => simp
  | append_singleton bs c ih =>
    have hone : closings (feed rx bs) [c] = (rxClosed (feed rx bs) c).toList := by
      simp [closings]
    rw [closings_append, List.map_append, ih, hone, ← Option.toList_map]
    cases hc : isTerminator c with
    | true =>
      rw [rxClosed_of_term (holds_feed h bs) (fun b => not_term_of_mem_openRun) hc,
        runs_concat_of_term hc, List.filterMap_append]
      split_ifs with ho
      · rw [ho, wrapString_nil]
        rfl
      · cases hw : wrapString (openRun isTerminator bs) <;> simp [hw]
    | false =>
      rw [runs_concat_of_not hc]
      simp [rxClosed, hc]

end Stream

/-! ### Line framing -/

/-- The strings a run put on the queue. -/
def messages (acts : List UartAct) : List (List UInt8) :=
  (Fifo.accepted (uartOps (uartTrace acts))).map fun m => cstr m.toList

/-- No put of the run met a full queue. -/
def NeverFull (acts : List UartAct) : Prop :=
  ∀ m, Fifo.Op.put m false ∉ uartOps (uartTrace acts)

/-- The maximal runs of a stream, each cut to what `rx_buf` can hold with its NUL. -/
def lineMessages (bs : List UInt8) : List (List UInt8) :=
  (runs isTerminator bs).map (List.take (uartMaxMsgLen - 1))

/-- Runs give their messages exactly when they are short. -/
theorem filterMap_wrapString_eq_iff {rs : List (List UInt8)} (hne : ∀ r ∈ rs, r ≠ []) :
    rs.filterMap wrapString = rs.map (List.take (uartMaxMsgLen - 1)) ↔
      ∀ r ∈ rs, r.length ≤ 255 := by
  induction rs with
  | nil => simp
  | cons r rs ih =>
    have hr : r ≠ [] := hne r List.mem_cons_self
    have hpos : 0 < r.length := List.length_pos_iff.mpr hr
    have ih := ih fun r' h' => hne r' (List.mem_cons_of_mem _ h')
    rw [List.forall_mem_cons, List.map_cons]
    by_cases hs : r.length ≤ 255
    · have hw : wrapString r = some r := wrapString_of_short hr hs
      have ht : r.take (uartMaxMsgLen - 1) = r :=
        List.take_of_length_le (by unfold uartMaxMsgLen; omega)
      rw [List.filterMap_cons_some hw, ht, List.cons_eq_cons, ih]
      simp [hs]
    · simp only [hs, false_and, iff_false]
      intro e
      by_cases h0 : r.length % 256 = 0
      · -- a lost run: fewer messages than runs
        have hw : wrapString r = none := if_pos h0
        rw [List.filterMap_cons_none hw] at e
        have := congrArg List.length e
        have hle := List.length_filterMap_le wrapString rs
        simp only [List.length_cons, List.length_map] at this
        omega
      · -- a message of at most 255 bytes for a longer run
        have hw : wrapString r = some (wrapped r) := if_neg h0
        rw [List.filterMap_cons_some hw, List.cons_eq_cons] at e
        have := congrArg List.length e.1
        rw [length_wrapped, List.length_take] at this
        unfold uartMaxMsgLen at this
        omega

theorem offered_strings {rx₀ rx : RxState} {q₀ q : UartQueue} {acts : List UartAct}
    (h : UartRun rx₀ q₀ acts rx q) (h₀ : rx₀.rxBufPos = 0) :
    (uartOffered (uartTrace acts)).map (fun m => cstr m.toList) =
      (runs isTerminator (received acts)).filterMap wrapString := by
  rw [h.offered_eq, closings_strings h₀]

/-- A run that closes no more lines than the empty queue holds never meets a full queue. -/
theorem neverFull_of_few {rx₀ rx : RxState} {q : UartQueue} {acts : List UartAct}
    (h : UartRun rx₀ .empty acts rx q) (h₀ : rx₀.rxBufPos = 0)
    (hl : (runs isTerminator (received acts)).length ≤ uartMaxMsgQueueSize) : NeverFull acts := by
  refine fun m => Fifo.not_refused h.fifo_run ?_ m
  have e := congrArg List.length (offered_strings h h₀)
  have := List.length_filterMap_le wrapString (runs isTerminator (received acts))
  rw [List.length_map, uartOffered] at e
  rw [e, Fifo.BQueue.items_empty, List.length_nil]
  omega

/-- The messages of a run in which the queue is never full. -/
theorem messages_eq_filterMap {rx₀ rx : RxState} {q₀ q : UartQueue} {acts : List UartAct}
    (h : UartRun rx₀ q₀ acts rx q) (h₀ : rx₀.rxBufPos = 0) (hf : NeverFull acts) :
    messages acts = (runs isTerminator (received acts)).filterMap wrapString := by
  rw [messages, Fifo.accepted_eq_offered hf]
  exact offered_strings h h₀

/-- Read to the end, the messages are those the received bytes close. -/
theorem taken_eq_closings {rx₀ rx : RxState} {q : UartQueue} {acts : List UartAct}
    (h : UartRun rx₀ .empty acts rx q) (hf : NeverFull acts) (hq : q.items = []) :
    Fifo.taken (uartOps (uartTrace acts)) = closings rx₀ (received acts) := by
  have htaken := Fifo.taken_append_items h.fifo_run uartOp_ne_purge
  rw [hq, List.append_nil, Fifo.accepted_eq_offered hf] at htaken
  exact htaken.trans h.offered_eq

/-- Short lines are closed as they are. -/
theorem closings_strings_of_short {rx : RxState} {bs : List UInt8} (h₀ : rx.rxBufPos = 0)
    (hlen : ∀ r ∈ runs isTerminator bs, r.length ≤ 255) :
    (closings rx bs).map (fun m => cstr m.toList) = runs isTerminator bs := by
  rw [closings_strings h₀]
  refine (List.filterMap_congr fun r hr => ?_).trans List.filterMap_some
  exact wrapString_of_short (of_mem_runs hr).1 (hlen r hr)

/-- **Line framing.** As long as the queue is never full, the messages are the maximal runs of the
received bytes, cut to the buffer, exactly when no finished run is longer than 255 bytes. -/
theorem messages_eq_iff {rx₀ rx : RxState} {q₀ q : UartQueue} {acts : List UartAct}
    (h : UartRun rx₀ q₀ acts rx q) (h₀ : rx₀.rxBufPos = 0) (hf : NeverFull acts) :
    messages acts = lineMessages (received acts) ↔
      ∀ r ∈ runs isTerminator (received acts), r.length ≤ 255 := by
  rw [messages_eq_filterMap h h₀ hf]
  exact filterMap_wrapString_eq_iff fun r hr => (of_mem_runs hr).1

/-- The reply `OK` between two line ends, read by one invocation. -/
theorem messages_eq_iff_ok : ∃ acts rx q, UartRun .boot .empty acts rx q ∧
    received acts = [13, 10, 79, 75, 13, 10] ∧ messages acts = lineMessages (received acts) := by
  obtain ⟨acts, rx, q, h, e, -⟩ := exists_uartRun [13, 10, 79, 75, 13, 10] .boot .empty
  have hf : NeverFull acts := neverFull_of_few h rfl (by rw [e]; decide)
  exact ⟨acts, rx, q, h, e, (messages_eq_iff h rfl hf).mpr (by rw [e]; decide)⟩

/-- A line of 256 letters is lost without a message. -/
theorem messages_line_256 : ∃ acts rx q, UartRun .boot .empty acts rx q ∧ NeverFull acts ∧
    received acts = List.replicate 256 65 ++ [10] ∧ messages acts = [] ∧
    lineMessages (received acts) = [List.replicate 256 65] := by
  obtain ⟨r, hr, hl, hb⟩ : ∃ r : List UInt8, r = List.replicate 256 65 ∧ r.length = 256 ∧
    ∀ b ∈ r, b = 65 := ⟨_, rfl, List.length_replicate, fun b => List.eq_of_mem_replicate⟩
  rw [← hr]
  obtain ⟨acts, rx, q, h, e, -⟩ := exists_uartRun (r ++ [10]) .boot .empty
  have hruns : runs isTerminator (received acts) = [r] := by
    rw [e]
    refine runs_single (List.ne_nil_of_length_pos (by omega)) (fun b hm => ?_) rfl
    rw [hb b hm]
    rfl
  have hf : NeverFull acts := neverFull_of_few h rfl (by rw [hruns, List.length_singleton]; decide)
  have hw : wrapString r = none := if_pos (by rw [hl])
  refine ⟨acts, rx, q, h, hf, e, ?_, ?_⟩
  · rw [messages_eq_filterMap h rfl hf, hruns, List.filterMap_cons_none hw, List.filterMap_nil]
  · rw [lineMessages, hruns, List.map_singleton, List.take_of_length_le (by rw [hl]; decide)]

end MeshNode
