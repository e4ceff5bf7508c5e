import MeshNode.Interact.Queue
import MeshNode.Lora.Driver
import Mathlib.Data.List.DropRight

/-!
# `lora_msgq` between the callback and its reader

`lora_callback_handler` is the only producer of `lora_msgq`. When the queue is full it purges the
queue and tries again.

* `loraMsgqEnv`: the queue as an environment;
* `iterates_putLoop`, **`exec_loraCallbackHandler_iff`**: an invocation and its calls;
* `LoraAct`, `LoraMsgqRun`: invocations and reads, in any order;
* `arrivals`: the records of a run in the order they came;
* **`lora_msgq_law`**: the queue holds the newest records in a block, and records are lost twenty at
  a time.
-/

namespace MeshNode

open Interact Prog Fifo

abbrev LoraQueue := BQueue LoraMsgqDataType loraMaxMsgqLen

/-- The operation of an event on `lora_msgq`. -/
def loraOp : FwEvent → Option (Op LoraMsgqDataType)
  | ⟨.loraMsgqPut m _, r⟩ => some (.put m (r = 0))
  | ⟨.loraMsgqGet _, r⟩ => some (.get r)
  | ⟨.loraMsgqPurge, _⟩ => some .purge
  | _ => none

/-- The operations of a trace on `lora_msgq`. -/
def loraOps : FwTrace → List (Op LoraMsgqDataType) := List.filterMap loraOp

theorem loraOps_append (t t' : FwTrace) : loraOps (t ++ t') = loraOps t ++ loraOps t' :=
  List.filterMap_append

/-- The kernel's side of `lora_msgq`. -/
def loraMsgqEnv : Env KCall KCall.Ret LoraQueue := queueEnv loraOp KCall.waitsForever

/-! ### The retry loop -/

section PutLoop

variable {m : LoraMsgqDataType} {q q' : LoraQueue} {tr : FwTrace}

theorem loraMsgqEnv_put {r : ℤ} : loraMsgqEnv q ⟨.loraMsgqPut m .noWait, r⟩ = some q' ↔
    (∃ h : q.items.length < loraMaxMsgqLen, r = 0 ∧ q' = q.push m h) ∨
    (q.items.length = loraMaxMsgqLen ∧ r ≠ 0 ∧ q' = q) := by
  rw [loraMsgqEnv, queueEnv_of_op rfl]
  simp only [KCall.waitsForever, reduceCtorEq, decide_false, Bool.false_eq_true, false_and,
    not_false_eq_true, true_and]
  by_cases hr : r = 0
  · simp only [hr, decide_true, step_put_ok, ne_eq, not_true, false_and, and_false, or_false,
      true_and]
    constructor
    · rintro ⟨h, e⟩
      exact ⟨h, BQueue.ext e⟩
    · rintro ⟨h, rfl⟩
      exact ⟨h, rfl⟩
  · simp [hr, step_put_refused]

/-- A round that goes on has met a full queue and emptied it. -/
theorem exec_putLoop_inl : Exec loraMsgqEnv q (putLoop m ()) tr (.inl ()) q' ↔
    q.items.length = loraMaxMsgqLen ∧ q' = .empty ∧
      ∃ r : ℤ, r ≠ 0 ∧ tr = [⟨.loraMsgqPut m .noWait, r⟩, ⟨.loraMsgqPurge, ()⟩] := by
  constructor
  · intro h
    obtain ⟨r, t, v, rfl, hv, h₁⟩ := exec_perform_bind_iff.mp h
    split_ifs at h₁ with hr
    · obtain ⟨_, t', u, rfl, hu, h₂⟩ := exec_perform_bind_iff.mp h₁
      obtain ⟨rfl, -, rfl⟩ := exec_ret_iff.mp h₂
      rcases loraMsgqEnv_put.mp hv with ⟨_, rfl, _⟩ | ⟨hl, _, rfl⟩
      · exact absurd rfl hr
      · cases hu
        exact ⟨hl, rfl, r, hr, rfl⟩
    · cases (exec_ret_iff.mp h₁).2.1
  · rintro ⟨hl, rfl, r, hr, rfl⟩
    refine .perform_bind (loraMsgqEnv_put.mpr (.inr ⟨hl, hr, rfl⟩)) ?_
    rw [if_pos hr]
    exact .perform_bind rfl (.ret _ _)

/-- A round that leaves the loop has found room. -/
theorem exec_putLoop_inr : Exec loraMsgqEnv q (putLoop m ()) tr (.inr ()) q' ↔
    ∃ h : q.items.length < loraMaxMsgqLen, q' = q.push m h ∧
      tr = [⟨.loraMsgqPut m .noWait, (0 : ℤ)⟩] := by
  constructor
  · intro h
    obtain ⟨r, t, v, rfl, hv, h₁⟩ := exec_perform_bind_iff.mp h
    split_ifs at h₁ with hr
    · obtain ⟨_, _, _, _, _, h₂⟩ := exec_perform_bind_iff.mp h₁
      cases (exec_ret_iff.mp h₂).2.1
    · obtain ⟨rfl, -, rfl⟩ := exec_ret_iff.mp h₁
      rcases loraMsgqEnv_put.mp hv with ⟨hl, rfl, rfl⟩ | ⟨_, hr', _⟩
      · exact ⟨hl, rfl, rfl⟩
      · exact absurd hr' hr
  · rintro ⟨hl, rfl, rfl⟩
    refine .perform_bind (loraMsgqEnv_put.mpr (.inl ⟨hl, rfl, rfl⟩)) ?_
    rw [if_neg (by simp)]
    exact .ret _ _

/-- **At most one round goes on**, since it leaves an empty queue. -/
theorem iterates_putLoop (h : Iterates (putLoop m) () tr ()) (hq : loraMsgqEnv.run q tr = some q') :
    (tr = [] ∧ q' = q) ∨ (q.items.length = loraMaxMsgqLen ∧ q' = .empty ∧
      ∃ r : ℤ, r ≠ 0 ∧ tr = [⟨.loraMsgqPut m .noWait, r⟩, ⟨.loraMsgqPurge, ()⟩]) := by
  cases h with
  | refl => exact .inl ⟨rfl, (Option.some.inj hq).symm⟩
  | step hb hi =>
    obtain ⟨v, hv, hv'⟩ := Env.run_append_eq_some.mp hq
    obtain ⟨hl, rfl, r, hr, rfl⟩ := exec_putLoop_inl.mp ⟨hb, hv⟩
    cases hi with
    | refl => exact .inr ⟨hl, (Option.some.inj hv').symm, r, hr, by simp⟩
    | step hb' _ =>
      obtain ⟨u, hu, -⟩ := Env.run_append_eq_some.mp hv'
      exact absurd (exec_putLoop_inl.mp ⟨hb', hu⟩).1 (by decide)

end PutLoop

/-! ### An invocation -/

section Handler

variable {data : ℕ → UInt8} {size : UInt16} {rssi : Int16} {snr : Int8} {q q' : LoraQueue}
  {tr : FwTrace}

/-- `k_msgq_put` of the record of a packet. -/
abbrev putCall (data : ℕ → UInt8) : KCall := .loraMsgqPut (loraRecord data) .noWait

/-- The first call of the handler. -/
abbrev receivedCall (data : ℕ → UInt8) (rssi : Int16) (snr : Int8) : KCall :=
  .logDbg "Received data: %s (RSSI:%ddBm, SNR:%ddB)"
    [.mem (textAt data), .int rssi.toInt, .int snr.toInt]

/-- **An invocation** puts once, or meets a full queue, purges it and puts again. -/
theorem exec_loraCallbackHandler_iff :
    Exec loraMsgqEnv q (loraCallbackHandler data size rssi snr) tr () q' ↔
      q' = q.putPurging (by decide) (loraRecord data) ∧
      ((q.items.length < loraMaxMsgqLen ∧
          tr = [⟨receivedCall data rssi snr, ()⟩, ⟨putCall data, (0 : ℤ)⟩]) ∨
        (q.items.length = loraMaxMsgqLen ∧ ∃ r : ℤ, r ≠ 0 ∧
          tr = [⟨receivedCall data rssi snr, ()⟩, ⟨putCall data, r⟩, ⟨.loraMsgqPurge, ()⟩,
            ⟨putCall data, (0 : ℤ)⟩])) := by
  constructor
  · intro h
    obtain ⟨_, t, v, rfl, hv, h₁⟩ := exec_perform_bind_iff.mp h
    cases hv
    obtain ⟨_, t₁, t₂, v, rfl, hi, hv, h₂⟩ := exec_loop_iff.mp h₁
    obtain ⟨hl, rfl, rfl⟩ := exec_putLoop_inr.mp h₂
    rcases iterates_putLoop hi hv with ⟨rfl, rfl⟩ | ⟨hf, rfl, r, hr, rfl⟩
    · exact ⟨(BQueue.putPurging_of_room _ _ hl).symm, .inl ⟨hl, rfl⟩⟩
    · exact ⟨BQueue.ext (BQueue.putPurging_of_full _ _ hf).symm, .inr ⟨hf, r, hr, rfl⟩⟩
  · rintro ⟨rfl, ⟨hl, rfl⟩ | ⟨hf, r, hr, rfl⟩⟩
    · rw [BQueue.putPurging_of_room _ _ hl]
      exact .perform_bind rfl (.loop_exit (exec_putLoop_inr.mpr ⟨hl, rfl, rfl⟩))
    · have he : q.putPurging (by decide) (loraRecord data) =
          (BQueue.empty : LoraQueue).push (loraRecord data) (by decide) :=
        BQueue.ext (BQueue.putPurging_of_full _ _ hf)
      rw [he]
      exact .perform_bind rfl (.loop_again (exec_putLoop_inl.mpr ⟨hf, rfl, r, hr, rfl⟩)
        (.loop_exit (exec_putLoop_inr.mpr ⟨by decide, rfl, rfl⟩)))

/-- Every invocation ends. -/
theorem exists_exec_loraCallbackHandler (data : ℕ → UInt8) (size : UInt16) (rssi : Int16)
    (snr : Int8) (q : LoraQueue) :
    ∃ tr q', Exec loraMsgqEnv q (loraCallbackHandler data size rssi snr) tr () q' := by
  rcases q.le_cap.lt_or_eq with hl | hf
  · exact ⟨_, _, exec_loraCallbackHandler_iff.mpr ⟨rfl, .inl ⟨hl, rfl⟩⟩⟩
  · exact ⟨_, _, exec_loraCallbackHandler_iff.mpr ⟨rfl, .inr ⟨hf, -1, by decide, rfl⟩⟩⟩

/-- The calls of `k_msgq_put` on `lora_msgq`. -/
def KCall.isLoraPut : KCall → Bool
  | .loraMsgqPut _ _ => true
  | _ => false

/-- **No invocation calls `k_msgq_put` more than twice**, finished or not. -/
theorem countP_isLoraPut_le {c : KCall}
    (hp : (loraCallbackHandler data size rssi snr).Performs tr c)
    (hq : loraMsgqEnv.run q tr = some q') :
    (tr.map Sigma.fst ++ [c]).countP KCall.isLoraPut ≤ 2 := by
  rcases (performs_perform_bind _ _ _ _).mp hp with ⟨rfl, rfl⟩ | ⟨_, t, rfl, h₁⟩
  · exact Nat.zero_le 2
  obtain ⟨v, hv, hq₁⟩ := Env.run_cons_eq_some.mp hq
  cases hv
  obtain ⟨_, t₁, t₂, rfl, hi, h₂⟩ := (performs_loop _ _ _ _).mp h₁
  obtain ⟨v, hv, -⟩ := Env.run_append_eq_some.mp hq₁
  -- the round in progress has one put
  have hround : (t₂.map Sigma.fst ++ [c]).countP KCall.isLoraPut = 1 := by
    rcases (performs_perform_bind _ _ _ _).mp h₂ with ⟨rfl, rfl⟩ | ⟨r, t, rfl, h₃⟩
    · rfl
    · split_ifs at h₃
      · rcases (performs_perform_bind _ _ _ _).mp h₃ with ⟨rfl, rfl⟩ | ⟨_, _, _, h₄⟩
        · rfl
        · exact h₄.elim
      · exact h₃.elim
  -- and at most one round came before it
  have hbefore : (t₁.map Sigma.fst).countP KCall.isLoraPut ≤ 1 := by
    rcases iterates_putLoop hi hv with ⟨rfl, -⟩ | ⟨-, -, r, -, rfl⟩
    · exact Nat.zero_le _
    · exact le_rfl
  have hlog : KCall.isLoraPut (receivedCall data rssi snr) = false := rfl
  rw [List.map_cons, List.map_append, List.cons_append, List.countP_cons_of_neg (by simp [hlog]),
    List.append_assoc, List.countP_append]
  omega

end Handler

/-! ### Runs -/

/-- An invocation of the handler with its calls, or a read of the queue with its answer. -/
inductive LoraAct
  | arrive (data : ℕ → UInt8) (size : UInt16) (rssi : Int16) (snr : Int8) (tr : FwTrace)
  | get (timeout : Timeout) (r : Option LoraMsgqDataType)

def LoraAct.trace : LoraAct → FwTrace
  | .arrive _ _ _ _ tr => tr
  | .get t r => [⟨.loraMsgqGet t, r⟩]

/-- The record that arrives. -/
def LoraAct.arrival : LoraAct → Option LoraMsgqDataType
  | .arrive data _ _ _ _ => some (loraRecord data)
  | .get _ _ => none

/-- **One step**: an invocation or a read. -/
def LoraAct.Step (q : LoraQueue) : LoraAct → LoraQueue → Prop
  | .arrive data size rssi snr tr, q' =>
    Exec loraMsgqEnv q (loraCallbackHandler data size rssi snr) tr () q'
  | .get t r, q' => loraMsgqEnv q ⟨.loraMsgqGet t, r⟩ = some q'

/-- **Runs**: any interleaving of invocations and reads. -/
inductive LoraMsgqRun : LoraQueue → List LoraAct → LoraQueue → Prop
  | nil (q) : LoraMsgqRun q [] q
  | cons {q q₁ q' a acts} : LoraAct.Step q a q₁ → LoraMsgqRun q₁ acts q' →
      LoraMsgqRun q (a :: acts) q'

/-- All calls of a run, in order. -/
def loraMsgqTrace (acts : List LoraAct) : FwTrace := acts.flatMap LoraAct.trace

/-- The records of a run in the order they came. -/
def arrivals (acts : List LoraAct) : List LoraMsgqDataType := acts.filterMap LoraAct.arrival

/-- What a step takes out of the queue: a read its record, an arrival at a full queue all of it. -/
def LoraAct.leaves (q : LoraQueue) : LoraAct → List (LoraMsgqDataType × Fate)
  | .arrive _ _ _ _ _ =>
    if q.items.length = loraMaxMsgqLen then q.items.map (·, .purged) else []
  | .get _ r => r.toList.map (·, .taken)

/-- **The operations of a step**: its arrival is stored, and `leaves` leaves. -/
theorem LoraAct.Step.ops {q q' : LoraQueue} {a : LoraAct} (h : a.Step q q') :
    run q (loraOps a.trace) = some q' ∧ accepted (loraOps a.trace) = a.arrival.toList ∧
      fates q (loraOps a.trace) = a.leaves q := by
  cases a with
  | arrive data size rssi snr tr =>
    have hrun : run q (loraOps tr) = some q' := queueEnv_run h.run
    obtain ⟨-, ⟨hl, rfl⟩ | ⟨hf, r, hr, rfl⟩⟩ := exec_loraCallbackHandler_iff.mp h
    · refine ⟨hrun, rfl, ?_⟩
      rw [LoraAct.leaves, if_neg hl.ne]
      have hs : step q (.put (loraRecord data) true) = some (q.push _ hl) :=
        step_put_ok.mpr ⟨hl, rfl⟩
      exact (fates_cons hs []).trans rfl
    · have hok : decide (r = 0) = false := decide_eq_false hr
      have hops : loraOps [⟨receivedCall data rssi snr, ()⟩, ⟨putCall data, r⟩,
          ⟨.loraMsgqPurge, ()⟩, ⟨putCall data, (0 : ℤ)⟩] =
          [.put (loraRecord data) false, .purge, .put (loraRecord data) true] := by
        rw [← hok]
        rfl
      refine ⟨hrun, ?_, ?_⟩
      · rw [LoraAct.trace, hops]
        rfl
      · have hs : step q (.put (loraRecord data) false) = some q :=
          step_put_refused.mpr ⟨hf, rfl⟩
        rw [LoraAct.trace, hops, LoraAct.leaves, if_pos hf, fates_cons hs,
          fates_cons (step_purge q)]
        exact List.append_nil _
  | get t r =>
    have hrun : run q (loraOps (LoraAct.get t r).trace) = some q' :=
      queueEnv_run (Env.run_cons_eq_some.mpr ⟨q', h, rfl⟩)
    refine ⟨hrun, rfl, ?_⟩
    obtain ⟨v, hv, -⟩ := run_cons_eq_some.mp hrun
    exact (fates_cons hv []).trans (List.append_nil _)

/-- An arrival is at the tail afterwards. -/
theorem LoraAct.Step.newest {v v' : LoraQueue} {a : LoraAct} {m : LoraMsgqDataType}
    (h : a.Step v v') (hm : a.arrival = some m) : v'.items.getLast? = some m := by
  cases a with
  | get t r => cases hm
  | arrive data size rssi snr tr =>
    obtain rfl : loraRecord data = m := Option.some.inj hm
    obtain ⟨rfl, -⟩ := exec_loraCallbackHandler_iff.mp h
    exact BQueue.getLast?_putPurging (by decide) v (loraRecord data)

namespace LoraMsgqRun

variable {q q' : LoraQueue} {acts : List LoraAct}

/-- The queue of a run, and its history of operations. -/
theorem ops (h : LoraMsgqRun q acts q') : run q (loraOps (loraMsgqTrace acts)) = some q' ∧
    accepted (loraOps (loraMsgqTrace acts)) = arrivals acts := by
  induction h with
  | nil => exact ⟨rfl, rfl⟩
  | @cons q q₁ q' a acts hs _ ih =>
    obtain ⟨hr, ha, -⟩ := hs.ops
    have e : loraMsgqTrace (a :: acts) = a.trace ++ loraMsgqTrace acts := rfl
    rw [e, loraOps_append]
    refine ⟨run_append_eq_some.mpr ⟨q₁, hr, ih.1⟩, ?_⟩
    have e₁ : accepted (loraOps a.trace ++ loraOps (loraMsgqTrace acts)) =
        accepted (loraOps a.trace) ++ accepted (loraOps (loraMsgqTrace acts)) :=
      List.filterMap_append
    have e₂ : arrivals (a :: acts) = a.arrival.toList ++ arrivals acts := by
      cases ho : a.arrival with
      | none => exact List.filterMap_cons_none ho
      | some m => exact List.filterMap_cons_some ho
    rw [e₁, e₂, ha, ih.2]

/-- A run, taken apart at one of its steps. -/
theorem split {pre post : List LoraAct} {a : LoraAct} (h : LoraMsgqRun q (pre ++ a :: post) q') :
    ∃ v v', LoraMsgqRun q pre v ∧ a.Step v v' ∧ LoraMsgqRun v' post q' := by
  induction pre generalizing q with
  | nil =>
    obtain _ | ⟨hs, hr⟩ := h
    exact ⟨q, _, .nil q, hs, hr⟩
  | cons b pre ih =>
    obtain _ | ⟨hs, hr⟩ := h
    obtain ⟨v, v', hpre, hstep, hpost⟩ := ih hr
    exact ⟨v, v', .cons hs hpre, hstep, hpost⟩

/-- **Without reads** the run is a sequence of purging offers. -/
theorem eq_foldl (h : LoraMsgqRun q acts q') (hg : ∀ a ∈ acts, a.arrival ≠ none) :
    q' = (arrivals acts).foldl (BQueue.putPurging (by decide)) q ∧
      (arrivals acts).length = acts.length := by
  induction h with
  | nil => exact ⟨rfl, rfl⟩
  | @cons q q₁ q' a acts hs _ ih =>
    obtain ⟨e, hl⟩ := ih fun b hb => hg b (List.mem_cons_of_mem _ hb)
    cases a with
    | get t r => exact absurd rfl (hg _ List.mem_cons_self)
    | arrive data size rssi snr tr =>
      obtain ⟨rfl, -⟩ := exec_loraCallbackHandler_iff.mp hs
      exact ⟨e, congrArg Nat.succ hl⟩

/-- The queue holds a final block of the arrivals. -/
theorem suffix (h : LoraMsgqRun .empty acts q) : q.items <:+ arrivals acts :=
  h.ops.2 ▸ items_suffix h.ops.1

/-- Only a read can leave the queue empty. -/
theorem get_of_empty (h : LoraMsgqRun q acts q') (hq : q'.items = []) (hne : acts ≠ []) :
    ∃ pre t r, acts = pre ++ [.get t r] := by
  obtain ⟨pre, a, rfl⟩ := (List.eq_nil_or_concat' acts).resolve_left hne
  obtain ⟨v, v', -, hs, hr⟩ := h.split
  cases hr
  cases a with
  | get t r => exact ⟨pre, t, r, rfl⟩
  | arrive data size rssi snr tr =>
    have := LoraAct.Step.newest hs rfl
    rw [hq] at this
    cases this

/-- Without reads the length goes up to twenty and back to one. -/
theorem sawtooth (h : LoraMsgqRun .empty acts q) (hg : ∀ a ∈ acts, a.arrival ≠ none)
    (hne : acts ≠ []) :
    q.items = (arrivals acts).rtake ((acts.length - 1) % loraMaxMsgqLen + 1) := by
  obtain ⟨e, hl⟩ := h.eq_foldl hg
  have ha : arrivals acts ≠ [] := by
    rw [← List.length_pos_iff, hl]
    exact List.length_pos_iff.mpr hne
  have hlen : q.items.length = (acts.length - 1) % loraMaxMsgqLen + 1 := by
    rw [e, ← hl]
    exact length_foldl_putPurging _ _ ha
  rw [List.rtake, ← hlen]
  exact List.suffix_iff_eq_drop.mp h.suffix

/-- Packets can always arrive. -/
theorem exists_of_arrivals (ds : List (ℕ → UInt8)) (q : LoraQueue) :
    ∃ acts q', LoraMsgqRun q acts q' ∧ arrivals acts = ds.map loraRecord ∧
      (∀ a ∈ acts, a.arrival ≠ none) ∧ acts.length = ds.length := by
  induction ds generalizing q with
  | nil => exact ⟨[], q, .nil q, rfl, by simp, rfl⟩
  | cons d ds ih =>
    obtain ⟨tr, q₁, hs⟩ := exists_exec_loraCallbackHandler d 255 0 0 q
    obtain ⟨acts, q', hr, ha, hg, hl⟩ := ih q₁
    have hs : (LoraAct.arrive d 255 0 0 tr).Step q q₁ := hs
    refine ⟨_, q', .cons hs hr, congrArg (loraRecord d :: ·) ha, ?_, congrArg Nat.succ hl⟩
    exact List.forall_mem_cons.mpr ⟨nofun, hg⟩

end LoraMsgqRun

/-! ### The law -/

/-- **Purge on full.** Every invocation ends with at most two puts and leaves its record at the
tail; at every moment the records that left and then those queued are the arrivals in their order,
so the queue holds a final block of them, and it is empty only after a read; a step loses records
only as an arrival at a full queue, and then exactly the queued ones; without reads the queue holds
the last `(N - 1) % 20 + 1` of `N` arrivals. -/
theorem lora_msgq_law {acts : List LoraAct} {q : LoraQueue} (h : LoraMsgqRun .empty acts q) :
    ((fates (.empty : LoraQueue) (loraOps (loraMsgqTrace acts))).map Prod.fst ++ q.items =
      arrivals acts ∧ q.items <:+ arrivals acts ∧
      (q.items = [] → acts ≠ [] → ∃ pre t r, acts = pre ++ [.get t r])) ∧
    (∀ pre a post, acts = pre ++ a :: post → ∃ v v' : LoraQueue, LoraMsgqRun .empty pre v ∧
      a.Step v v' ∧ LoraMsgqRun v' post q ∧ fates v (loraOps a.trace) = a.leaves v ∧
      ∀ m, a.arrival = some m → v'.items.getLast? = some m) ∧
    (∀ (v : LoraQueue) data size rssi snr,
      (∃ tr v', Exec loraMsgqEnv v (loraCallbackHandler data size rssi snr) tr () v') ∧
      ∀ tr v' c, (loraCallbackHandler data size rssi snr).Performs tr c →
        loraMsgqEnv.run v tr = some v' → (tr.map Sigma.fst ++ [c]).countP KCall.isLoraPut ≤ 2) ∧
    ((∀ a ∈ acts, a.arrival ≠ none) → acts ≠ [] →
      q.items = (arrivals acts).rtake ((acts.length - 1) % loraMaxMsgqLen + 1)) := by
  refine ⟨⟨?_, h.suffix, h.get_of_empty⟩, ?_, ?_, h.sawtooth⟩
  · rw [← h.ops.2]
    exact (run_fates h.ops.1).symm
  · rintro pre a post rfl
    obtain ⟨v, v', hpre, hs, hpost⟩ := h.split
    exact ⟨v, v', hpre, hs, hpost, hs.ops.2.2, fun m => LoraAct.Step.newest hs⟩
  · exact fun v data size rssi snr => ⟨exists_exec_loraCallbackHandler data size rssi snr v,
      fun tr v' c hp hq => countP_isLoraPut_le hp hq⟩

/-- Twenty-one packets without a read, each with its number in all bytes: the last one is alone. -/
theorem lora_msgq_law_overflow : ∃ acts, ∃ q : LoraQueue, LoraMsgqRun .empty acts q ∧
    arrivals acts = (List.range 21).map (fun k => loraRecord fun _ => k.toUInt8) ∧
    (arrivals acts).map (fun m => m.rData[0]) = (List.range 21).map Nat.toUInt8 ∧
    q.items.map (fun m => m.rData[0]) = [20] ∧ q.items = [loraRecord fun _ => 20] := by
  obtain ⟨acts, q, h, ha, hg, hl⟩ := LoraMsgqRun.exists_of_arrivals
    ((List.range 21).map fun k _ => k.toUInt8) .empty
  rw [List.map_map] at ha
  rw [List.length_map, List.length_range] at hl
  have hne : acts ≠ [] := List.ne_nil_of_length_pos (by omega)
  have hq : q.items = [loraRecord fun _ => 20] := by
    rw [(lora_msgq_law h).2.2.2 hg hne, ha, hl, List.rtake, List.length_map, ← List.map_drop]
    rfl
  have hfirst : ∀ c : UInt8, (loraRecord fun _ => c).rData[0] = c :=
    fun c => Vector.getElem_ofFn _
  refine ⟨acts, q, h, ha, ?_, ?_, hq⟩
  · rw [ha, List.map_map]
    exact List.map_congr_left fun k _ => hfirst _
  · rw [hq, List.map_singleton, hfirst]

end MeshNode
