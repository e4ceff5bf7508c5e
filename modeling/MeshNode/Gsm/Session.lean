import MeshNode.Gsm.AtCommand
import MeshNode.Interact.Det
import MeshNode.Lib.Framing

/-!
# Sessions with the modem

Commands are sent one after another, with other code in between that leaves the UART and the timer
alone.

* `KCall.Sends`, `determines_sends`: the calls of a command, each with at most one answer;
* **`exec_sendAtCommand_iff`**, **`follows_sendAtCommand`**: a command has one execution, and
  whatever it has done so far is a part of it;
* `KCall.Foreign`: the calls of other code;
* `Session w bufs tr w'`: the strings `bufs` are sent, with all calls `tr`;
* `Session.uartOutput_eq`, `Session.split`: the bytes sent, and the calls of one of the strings;
* `Passes p bufs`: the program `p` is such a session, put together along its text;
* `Guarded`: a string with a completed wait before it and one before its line end;
* **`Session.guarded`**: escape strings are.
-/

namespace MeshNode

open Interact Prog Framing

/-! ### One command -/

/-- The calls of `send_at_command`. -/
def KCall.Sends : KCall → Prop
  | .uartPollOut _ | .kMsleep _ => True
  | .kTimerStart .mySyncTimer _ _ | .kTimerStatusSync .mySyncTimer => True
  | _ => False

/-- The status of the timer is the only answer that is not empty, and the kernel knows it. -/
theorem determines_sends : Determines modemEnv KCall.Sends := by
  intro w c r r' v v' hc h h'
  cases c with
  | uartPollOut c => rfl
  | kMsleep ms => rfl
  | kTimerStart timer duration period => rfl
  | kTimerStatusSync timer =>
    cases timer with
    | heartbeatTimer => exact hc.elim
    | mySyncTimer =>
      simp only [modemEnv] at h h'
      split_ifs at h h' <;> simp_all
  | _ => exact hc.elim

theorem uses_pollOut (buf : List UInt8) : Uses KCall.Sends (pollOut buf) := by
  induction buf with
  | nil => trivial
  | cons c cs ih => exact uses_perform_bind trivial fun _ => ih

theorem uses_silence : Uses KCall.Sends silence := by
  refine uses_perform_bind trivial fun _ => uses_loop (fun _ => ?_) ()
  refine uses_perform_bind trivial fun status => ?_
  change Uses _ (if status = 0 then _ else _)
  exact uses_ite trivial trivial

theorem uses_sendAtCommand (buf : List UInt8) : Uses KCall.Sends (sendAtCommand buf) := by
  refine uses_bind (uses_ite ?_ (uses_pollOut buf)) fun _ => uses_perform_bind trivial fun _ =>
    ⟨trivial, fun _ => trivial⟩
  exact uses_bind uses_silence fun _ => uses_bind (uses_pollOut buf) fun _ => uses_silence

/-- **A command has one execution.** -/
theorem exec_sendAtCommand_iff {buf : List UInt8} {w w' : ModemWorld} {tr : FwTrace} :
    Exec modemEnv w (sendAtCommand buf) tr () w' ↔
      tr = commandTrace buf ∧ w' = afterCommand buf w := by
  constructor
  · intro h
    obtain ⟨rfl, -, rfl⟩ := unique_of_uses determines_sends (uses_sendAtCommand buf) h
      (exec_sendAtCommand buf w)
    exact ⟨rfl, rfl⟩
  · rintro ⟨rfl, rfl⟩
    exact exec_sendAtCommand buf w

/-- **A command in progress** has made a part of its calls, and makes the next one. -/
theorem follows_sendAtCommand {buf : List UInt8} {w v : ModemWorld} {t : FwTrace} {c : KCall}
    (hc : (sendAtCommand buf).Performs t c) (hv : modemEnv.run w t = some v) :
    ∃ r t', commandTrace buf = t ++ ⟨c, r⟩ :: t' :=
  follows_of_uses determines_sends (uses_sendAtCommand buf) (exec_sendAtCommand buf w) hc hv

/-! ### Sessions -/

/-- The calls of code that uses neither the UART's output nor the timer. -/
def KCall.Foreign : KCall → Prop
  | .uartPollOut _ | .kTimerStart .mySyncTimer _ _ | .kTimerStatusSync .mySyncTimer => False
  | _ => True

/-- **A session**: the strings `bufs` are passed to `send_at_command` one after another. -/
inductive Session : ModemWorld → List (List UInt8) → FwTrace → ModemWorld → Prop
  | nil (w) : Session w [] [] w
  | send {w v w' buf bufs t tr} : Exec modemEnv w (sendAtCommand buf) t () v →
      Session v bufs tr w' → Session w (buf :: bufs) (t ++ tr) w'
  | other {w v w' e bufs tr} : KCall.Foreign e.1 → modemEnv w e = some v →
      Session v bufs tr w' → Session w bufs (e :: tr) w'

/-- Other code does not change the timer. -/
theorem timer_eq_of_foreign {w v : ModemWorld} {e : FwEvent} (he : KCall.Foreign e.1)
    (h : modemEnv w e = some v) : v.timer = w.timer := by
  obtain ⟨c, r⟩ := e
  cases c with
  | kTimerStart timer duration period =>
    cases timer with
    | mySyncTimer => exact he.elim
    | heartbeatTimer => cases h; rfl
  | kTimerStatusSync timer =>
    cases timer with
    | mySyncTimer => exact he.elim
    | heartbeatTimer => cases h; rfl
  | uartMsgqGet timeout =>
    simp only [modemEnv] at h
    split_ifs at h
    cases h
    rfl
  | _ => cases h; rfl

/-- Other code sends nothing. -/
theorem uartOutput_cons_foreign {e : FwEvent} (he : KCall.Foreign e.1) (tr : FwTrace) :
    uartOutput (e :: tr) = uartOutput tr := by
  obtain ⟨c, r⟩ := e
  cases c with
  | uartPollOut c => exact he.elim
  | _ => rfl

namespace Session

variable {w v w' : ModemWorld} {bufs bufs' : List (List UInt8)} {tr tr' : FwTrace}

theorem append (h : Session w bufs tr v) (h' : Session v bufs' tr' w') :
    Session w (bufs ++ bufs') (tr ++ tr') w' := by
  induction h with
  | nil => exact h'
  | send he _ ih =>
    rw [List.append_assoc]
    exact .send he (ih h')
  | other he hv _ ih => exact .other he hv (ih h')

/-- Other code only. -/
theorem of_foreign (h : ∀ e ∈ tr, KCall.Foreign e.1) (hw : modemEnv.run w tr = some w') :
    Session w [] tr w' := by
  induction tr generalizing w with
  | nil =>
    obtain rfl := Option.some.inj hw
    exact .nil w
  | cons e tr ih =>
    obtain ⟨he, htr⟩ := List.forall_mem_cons.mp h
    obtain ⟨v, hv, hw⟩ := Env.run_cons_eq_some.mp hw
    exact .other he hv (ih htr hw)

/-- **The bytes of a session**: each string and a line end. -/
theorem uartOutput_eq (h : Session w bufs tr w') :
    uartOutput tr = bufs.flatMap fun buf => buf ++ [10] := by
  induction h with
  | nil => rfl
  | send he _ ih =>
    obtain ⟨rfl, -⟩ := exec_sendAtCommand_iff.mp he
    rw [uartOutput_append, uartOutput_commandTrace, ih, List.flatMap_cons]
  | other he _ _ ih => rw [uartOutput_cons_foreign he, ih]

/-- **The calls of one of the strings**, between those of the ones before and behind it. -/
theorem split {pre post : List (List UInt8)} {buf : List UInt8}
    (h : Session w (pre ++ buf :: post) tr w') : ∃ t₁ t₂ v, tr = t₁ ++ (commandTrace buf ++ t₂) ∧
      Session w pre t₁ v ∧ Session (afterCommand buf v) post t₂ w' := by
  generalize hbufs : pre ++ buf :: post = bufs at h
  induction h generalizing pre with
  | nil => simp at hbufs
  | @send w v w' b bs t tr he hs ih =>
    cases pre with
    | nil =>
      obtain ⟨rfl, rfl⟩ := List.cons_eq_cons.mp hbufs
      obtain ⟨rfl, rfl⟩ := exec_sendAtCommand_iff.mp he
      exact ⟨[], tr, w, rfl, .nil w, hs⟩
    | cons b' pre =>
      obtain ⟨rfl, rfl⟩ := List.cons_eq_cons.mp hbufs
      obtain ⟨t₁, t₂, x, rfl, h₁, h₂⟩ := ih rfl
      exact ⟨t ++ t₁, t₂, x, (List.append_assoc _ _ _).symm, .send he h₁, h₂⟩
  | other he hv _ ih =>
    obtain ⟨t₁, t₂, x, rfl, h₁, h₂⟩ := ih hbufs
    exact ⟨_ :: t₁, t₂, x, rfl, .other he hv h₁, h₂⟩

/-- **The timer is left stopped and read**, if it was before the session. -/
theorem timer_eq (h : Session w bufs tr w') (hw : w.timer = ⟨false, 0⟩) :
    w'.timer = ⟨false, 0⟩ := by
  induction h with
  | nil => exact hw
  | send he _ ih =>
    obtain ⟨-, rfl⟩ := exec_sendAtCommand_iff.mp he
    refine ih ?_
    unfold afterCommand
    split_ifs
    · rfl
    · exact hw
  | other he hv _ ih => exact ih ((timer_eq_of_foreign he hv).trans hw)

/-- **Every further string can be sent.** -/
theorem exists_next (h : Session w bufs tr w') (buf : List UInt8) :
    Session w (bufs ++ [buf]) (tr ++ commandTrace buf) (afterCommand buf w') := by
  have hlast := Session.send (exec_sendAtCommand buf w') (.nil _)
  rw [List.append_nil] at hlast
  exact h.append hlast

end Session

/-! ### Programs that send -/

/-- Every execution of the program is a session of the strings. -/
def Passes {α : Type} (p : Fw α) (bufs : List (List UInt8)) : Prop :=
  ∀ ⦃w t a v⦄, Exec modemEnv w p t a v → Session w bufs t v

namespace Passes

variable {α β : Type} {p : Fw α} {bufs bufs' : List (List UInt8)}

theorem of_uses (hp : Uses KCall.Foreign p) : Passes p [] := fun _ _ _ _ h =>
  .of_foreign (hp.forall_mem_of_runs h.runs) h.run

theorem bind {f : α → Fw β} (hp : Passes p bufs) (hf : ∀ a, Passes (f a) bufs') :
    Passes (p.bind f) (bufs ++ bufs') := by
  intro w t b v h
  obtain ⟨t₁, t₂, a, x, rfl, h₁, h₂⟩ := exec_bind_iff.mp h
  exact (hp h₁).append (hf a h₂)

/-- Other code in front. -/
theorem bind_foreign {f : α → Fw β} (hp : Uses KCall.Foreign p) (hf : ∀ a, Passes (f a) bufs) :
    Passes (p.bind f) bufs := (of_uses hp).bind hf

theorem perform_bind {c : KCall} {f : c.Ret → Fw β} (hc : KCall.Foreign c)
    (hf : ∀ r, Passes (f r) bufs) : Passes ((perform c).bind f) bufs :=
  bind_foreign ⟨hc, fun _ => trivial⟩ hf

end Passes

theorem passes_sendAtCommand (buf : List UInt8) : Passes (sendAtCommand buf) [buf] := by
  intro w t a v h
  have hsend := Session.send h (.nil v)
  rwa [List.append_nil] at hsend

/-! ### What can be read off a session -/

/-- A string in a trace with a completed wait right before its first byte and another one between
its last byte and its line end; `earlier` was sent before. -/
def Guarded (earlier : List (List UInt8)) (buf : List UInt8) (tr : FwTrace) : Prop :=
  ∃ t₁ t₂, tr = t₁ ++ (silenceTrace ++ (pollTrace buf ++ (silenceTrace ++
    ⟨.uartPollOut 10, ()⟩ :: t₂))) ∧ uartOutput t₁ = earlier.flatMap fun b => b ++ [10]

theorem Session.guarded {w w' : ModemWorld} {pre post : List (List UInt8)} {buf : List UInt8}
    {tr : FwTrace} (h : Session w (pre ++ buf :: post) tr w') (hbuf : buf.head? = some 43) :
    Guarded pre buf tr := by
  obtain ⟨t₁, t₂, v, rfl, h₁, -⟩ := h.split
  refine ⟨t₁, ⟨.kMsleep 2000, ()⟩ :: t₂, ?_, h₁.uartOutput_eq⟩
  rw [commandTrace, if_pos hbuf]
  simp only [List.append_assoc, List.cons_append, List.nil_append]

end MeshNode
