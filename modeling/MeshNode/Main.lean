import MeshNode.Gsm.Init
import MeshNode.Gsm.Session
import MeshNode.Node.Boot

/-!
# The main program

`main` loads or generates the identity, initialises the modem and passes the lines of the console on
to it, one after another and without end.

* `mainSetup`, `consoleLoop`, `main`: the program;
* `consoleLines`: the lines that were read from the console;
* `MainRun`, **`session_of_mainRun`**: until it reads another line, the program is a session of the
  table of commands and the lines read so far; `exists_mainRun`: it comes to this for all lines;
* **`transmission_unambiguous`**: what goes out on the UART in a session.
-/

namespace MeshNode

open Interact Prog CString Framing

/-- `main` up to its loop. -/
def mainSetup (enotsup enosys : ℤ) (g : Globals) : Fw Globals := do
  let g ← loadOrGenerate g
  kcall (.printk "UUID: %s\n" [g.n.id.str.elim .null fun str => .str str.toList])
  kcall .consoleGetlineInit
  kcall (.kMsleep 5000)
  -- the result of `gsm_driver_init` is not looked at
  let _ ← gsmDriverInit enotsup enosys
  kcall (.kMsleep 10000)
  gsmModemInit
  kcall (.kMsleep 5000)
  kcall (.printk "start\n" [])
  pure g

/-- One round of `while (1)`. -/
def consoleLoop (_ : Unit) : Fw (Unit ⊕ Unit) := do
  let s ← kcall .consoleGetline
  sendAtCommand s
  pure (.inl ())

/-- `main`, for the statics at the start of a boot. -/
def main (enotsup enosys : ℤ) (g : Globals) : Fw ℤ := do
  let _ ← mainSetup enotsup enosys g
  loop consoleLoop ()
  pure 0

/-! ### Code that leaves the modem alone -/

/-- The calls that neither use nor change the state of the modem and the timer. -/
def KCall.Inert : KCall → Prop
  | .kTimerStart _ _ _ | .kTimerStatusSync _ | .uartMsgqGet _ | .uartPollOut _ => False
  | _ => True

theorem KCall.Inert.foreign (c : KCall) (hc : c.Inert) : c.Foreign := by
  cases c <;> first | exact hc.elim | trivial

/-- They may be answered in any way. -/
theorem run_of_inert {w : ModemWorld} {tr : FwTrace} (h : ∀ e ∈ tr, KCall.Inert e.1) :
    modemEnv.run w tr = some w := by
  induction tr with
  | nil => rfl
  | cons e tr ih =>
    obtain ⟨he, htr⟩ := List.forall_mem_cons.mp h
    refine Env.run_cons_eq_some.mpr ⟨w, ?_, ih htr⟩
    obtain ⟨c, r⟩ := e
    cases c <;> first | exact he.elim | rfl

theorem exec_of_inert {α : Type} {p : Fw α} {a : α} {tr : FwTrace} (hp : Uses KCall.Inert p)
    (h : p.Runs tr a) (w : ModemWorld) : Exec modemEnv w p tr a w :=
  ⟨h, run_of_inert (hp.forall_mem_of_runs h)⟩

theorem uses_generateId (uuid : CustomUuid) : Uses KCall.Inert (generateId uuid) :=
  uses_perform_bind trivial fun _ => uses_perform_bind trivial fun _ =>
    uses_perform_bind trivial fun _ => trivial

theorem uses_sramStore (backupValue : Vector UInt8 16) (uuid : CustomUuid) :
    Uses KCall.Inert (sramStore backupValue uuid) := by
  refine uses_perform_bind trivial fun ready => uses_ite ?_ ?_
  · exact uses_perform_bind trivial fun _ => uses_perform_bind trivial fun _ =>
      uses_perform_bind trivial fun _ => trivial
  · exact uses_perform_bind trivial fun _ => trivial

theorem uses_sramLoad (backupValue : Vector UInt8 16) (uuid : CustomUuid) :
    Uses KCall.Inert (sramLoad backupValue uuid) := by
  refine uses_perform_bind trivial fun ready => uses_ite ?_ ?_
  · refine uses_perform_bind trivial fun _ => uses_perform_bind trivial fun _ => ?_
    -- the test of the text must not be evaluated
    generalize localStr { uuid with uuid := backupValue } = str
    generalize isValidUuidV6 (cstr str.toList) = valid
    refine uses_ite ?_ ?_
    · exact uses_perform_bind trivial fun _ => trivial
    · exact uses_perform_bind trivial fun _ => uses_perform_bind trivial fun _ =>
        uses_perform_bind trivial fun _ => uses_perform_bind trivial fun _ => trivial
  · exact uses_perform_bind trivial fun _ => trivial

theorem uses_loadOrGenerate (g : Globals) : Uses KCall.Inert (loadOrGenerate g) := by
  refine uses_perform_bind trivial fun _ => uses_perform_bind trivial fun _ =>
    uses_bind (uses_sramLoad _ _) fun r => uses_ite ?_ trivial
  exact uses_perform_bind trivial fun _ => uses_bind (uses_generateId _) fun id =>
    uses_bind (uses_sramStore _ _) fun _ => trivial

theorem uses_gsmDriverInit (enotsup enosys : ℤ) :
    Uses KCall.Inert (gsmDriverInit enotsup enosys) := by
  refine uses_perform_bind trivial fun _ => uses_perform_bind trivial fun _ =>
    uses_perform_bind trivial fun ready => uses_ite ?_ ?_
  · refine uses_perform_bind trivial fun ret => uses_ite ?_ ?_
    · exact uses_perform_bind trivial fun _ => trivial
    · exact uses_perform_bind trivial fun _ => uses_perform_bind trivial fun _ => trivial
  · exact uses_perform_bind trivial fun _ => trivial

/-! ### The session of the program -/

theorem passes_sendCommands (cs : List (List UInt8)) : Passes (sendCommands cs) cs := by
  induction cs with
  | nil => exact .of_uses trivial
  | cons c cs ih => exact (passes_sendAtCommand c).bind fun _ => .perform_bind trivial fun _ => ih

/-- **The table of commands** is sent as a whole. -/
theorem passes_gsmModemInit : Passes gsmModemInit gsmInitCommands := passes_sendCommands _

theorem passes_mainSetup (enotsup enosys : ℤ) (g : Globals) :
    Passes (mainSetup enotsup enosys g) gsmInitCommands := by
  have hload := (uses_loadOrGenerate g).imp KCall.Inert.foreign
  have hinit := (uses_gsmDriverInit enotsup enosys).imp KCall.Inert.foreign
  refine .bind_foreign hload fun _ => .perform_bind trivial fun _ => .perform_bind trivial fun _ =>
    .perform_bind trivial fun _ => .bind_foreign hinit fun _ => .perform_bind trivial fun _ => ?_
  rw [← List.append_nil gsmInitCommands]
  exact passes_gsmModemInit.bind fun _ => .perform_bind trivial fun _ => .perform_bind trivial
    fun _ => .of_uses trivial

/-! ### The lines of the console -/

/-- The lines read from the console. -/
def consoleLines : FwTrace → List (List UInt8) :=
  List.filterMap fun | ⟨.consoleGetline, s⟩ => some s | _ => none

theorem consoleLines_append (t t' : FwTrace) :
    consoleLines (t ++ t') = consoleLines t ++ consoleLines t' := List.filterMap_append

/-- A round reads one line: the command does not read from the console. -/
theorem consoleLines_round (line : List UInt8) :
    consoleLines (⟨.consoleGetline, line⟩ :: commandTrace line) = [line] := by
  have hsends : ∀ e ∈ commandTrace line, KCall.Sends e.1 :=
    (uses_sendAtCommand line).forall_mem_of_runs (exec_sendAtCommand line ⟨[], ⟨false, 0⟩⟩).runs
  refine congrArg (line :: ·) (List.filterMap_eq_nil_iff.mpr fun e he => ?_)
  replace he := hsends e he
  obtain ⟨c, r⟩ := e
  cases c with
  | consoleGetline => exact he.elim
  | _ => rfl

/-- **The loop** sends the lines it read. -/
theorem session_consoleLoop {s s' : Unit} {w w' : ModemWorld} {tr : FwTrace}
    (h : Iterates consoleLoop s tr s') (hw : modemEnv.run w tr = some w') :
    Session w (consoleLines tr) tr w' := by
  unfold Iterates at h
  induction h generalizing w with
  | refl =>
    obtain rfl := Option.some.inj hw
    exact .nil w
  | step hb _ ih =>
    obtain ⟨v, hv, hw₂⟩ := Env.run_append_eq_some.mp hw
    obtain ⟨line, _, x, rfl, hx, h⟩ := exec_perform_bind_iff.mp ⟨hb, hv⟩
    obtain ⟨t, _, _, y, rfl, hsend, h⟩ := exec_bind_iff.mp h
    obtain ⟨rfl, -, rfl⟩ := exec_ret_iff.mp h
    obtain ⟨rfl, -⟩ := exec_sendAtCommand_iff.mp hsend
    rw [List.append_nil, consoleLines_append, consoleLines_round]
    exact .other trivial hx (.send hsend (ih hw₂))

/-- Any lines can be read and sent. -/
theorem exists_consoleLoop (lines : List (List UInt8)) (w : ModemWorld) : ∃ tr w',
    Iterates consoleLoop () tr () ∧ modemEnv.run w tr = some w' ∧ consoleLines tr = lines := by
  induction lines generalizing w with
  | nil => exact ⟨[], w, .refl (), rfl, rfl⟩
  | cons line lines ih =>
    obtain ⟨tr, w', hi, hw', rfl⟩ := ih (afterCommand line w)
    have hround : Exec modemEnv w (consoleLoop ())
        (⟨.consoleGetline, line⟩ :: (commandTrace line ++ [])) (.inl ()) (afterCommand line w) :=
      .perform_bind rfl (.bind (exec_sendAtCommand line w) (.ret _ _))
    rw [List.append_nil] at hround
    refine ⟨_, w', .step hround.runs hi, Env.run_append_eq_some.mpr ⟨_, hround.run, hw'⟩, ?_⟩
    rw [consoleLines_append, consoleLines_round, List.singleton_append]

/-! ### The whole program -/

/-- **A run of `main`** up to the point where it reads another line; `lines` are those it has
read. -/
def MainRun (enotsup enosys : ℤ) (g : Globals) (w : ModemWorld) (lines : List (List UInt8))
    (tr : FwTrace) (w' : ModemWorld) : Prop :=
  ∃ g' v t₁ t₂, tr = t₁ ++ t₂ ∧ Exec modemEnv w (mainSetup enotsup enosys g) t₁ g' v ∧
    Iterates consoleLoop () t₂ () ∧ modemEnv.run v t₂ = some w' ∧ consoleLines t₂ = lines

/-- **The program is a session**: whenever it is about to read the next line, it has sent the table
of commands and the lines read so far. -/
theorem session_of_mainRun {enotsup enosys : ℤ} {g : Globals} {w w' : ModemWorld}
    {lines : List (List UInt8)} {tr : FwTrace} (h : MainRun enotsup enosys g w lines tr w') :
    Session w (gsmInitCommands ++ lines) tr w' := by
  obtain ⟨g', v, t₁, t₂, rfl, h₁, hi, hw', rfl⟩ := h
  exact (passes_mainSetup enotsup enosys g h₁).append (session_consoleLoop hi hw')

theorem exists_exec_sendCommands (cs : List (List UInt8)) (w : ModemWorld) :
    ∃ tr v, Exec modemEnv w (sendCommands cs) tr () v := by
  induction cs generalizing w with
  | nil => exact ⟨[], w, .ret _ _⟩
  | cons c cs ih =>
    obtain ⟨tr, v, h⟩ := ih (afterCommand c w)
    exact ⟨_, v, .bind (exec_sendAtCommand c w) (.perform_bind (r := ()) rfl h)⟩

/-- **Every boot comes to the loop**, and every sequence of lines is read and sent. -/
theorem exists_mainRun (enotsup enosys : ℤ) (b : Vector UInt8 16) (w : ModemWorld)
    (lines : List (List UInt8)) : ∃ tr w', MainRun enotsup enosys (.boot b) w lines tr w' := by
  obtain ⟨g', tl, hload⟩ := exists_boots true b
  obtain ⟨tc, v, hcommands⟩ := exists_exec_sendCommands _ w
  obtain ⟨tr, w', hi, hw', hlines⟩ := exists_consoleLoop lines v
  have hload := exec_of_inert (uses_loadOrGenerate _) hload.runs w
  have hinit := exec_of_inert (uses_gsmDriverInit enotsup enosys)
    (runs_gsmDriverInit.mpr ⟨true, 0, rfl, rfl⟩) w
  have hstart : Exec modemEnv v (do kcall (.kMsleep 5000); kcall (.printk "start\n" []); pure g')
      [⟨.kMsleep 5000, ()⟩, ⟨.printk "start\n" [], ()⟩] g' v :=
    .perform_bind rfl (.perform_bind rfl (.ret g' v))
  have hsetup : ∃ t, Exec modemEnv w (mainSetup enotsup enosys (.boot b)) t g' v :=
    ⟨_, .bind hload (.perform_bind (r := ()) rfl (.perform_bind (r := ()) rfl
      (.perform_bind (r := ()) rfl (.bind hinit (.perform_bind (r := ()) rfl
        (.bind hcommands hstart))))))⟩
  obtain ⟨t, hsetup⟩ := hsetup
  exact ⟨_, w', g', v, t, tr, rfl, hsetup, hi, hw', hlines⟩

/-! ### What goes out -/

/-- No command of the table has a line end in it. -/
theorem notMem_gsmInitCommands : ∀ buf ∈ gsmInitCommands, 10 ∉ buf := by decide

/-- **Commands are unambiguous and escapes are guarded.** Until it reads another line, `main` passes
on the table of commands and the lines read so far, and it comes to this for all lines. However
strings without line ends are passed on one after another, the bytes on the UART, split at the line
ends, are these strings, and a string that starts with `+` has a completed wait right before its
bytes and one right behind them. A further command, whatever state the timer was left in, has one
execution, and all its calls are made in this order: its waits end. -/
theorem transmission_unambiguous :
    (∀ enotsup enosys g w lines tr w', MainRun enotsup enosys g w lines tr w' →
      Session w (gsmInitCommands ++ lines) tr w') ∧
    (∀ enotsup enosys b w lines, ∃ tr w', MainRun enotsup enosys (.boot b) w lines tr w') ∧
    (∀ buf ∈ gsmInitCommands, 10 ∉ buf) ∧
    ∀ w bufs tr w', Session w bufs tr w' → (∀ buf ∈ bufs, 10 ∉ buf) →
      (uartOutput tr).splitOnP (· = 10) = bufs ++ [[]] ∧
      (∀ pre buf post, bufs = pre ++ buf :: post → buf.head? = some 43 → Guarded pre buf tr) ∧
      (w.timer = ⟨false, 0⟩ → w'.timer = ⟨false, 0⟩) ∧
      ∀ buf, Session w (bufs ++ [buf]) (tr ++ commandTrace buf) (afterCommand buf w') ∧
        (∀ t v, Exec modemEnv w' (sendAtCommand buf) t () v →
          t = commandTrace buf ∧ v = afterCommand buf w') ∧
        ∀ t c v, (sendAtCommand buf).Performs t c → modemEnv.run w' t = some v →
          ∃ r t', commandTrace buf = t ++ ⟨c, r⟩ :: t' := by
  refine ⟨fun _ _ _ _ _ _ _ h => session_of_mainRun h, exists_mainRun, notMem_gsmInitCommands,
    fun w bufs tr w' h hnl => ⟨?_, ?_, h.timer_eq, fun buf => ⟨h.exists_next buf, ?_, ?_⟩⟩⟩
  · have hblocks : ∀ r ∈ bufs, ∀ b ∈ r, decide (b = 10) = false :=
      fun r hr b hb => decide_eq_false fun e => hnl r hr (e ▸ hb)
    rw [h.uartOutput_eq]
    exact splitOnP_flatMap (p := fun b => decide (b = 10)) rfl hblocks
  · rintro pre buf post rfl hbuf
    exact h.guarded hbuf
  · exact fun t v hsend => exec_sendAtCommand_iff.mp hsend
  · exact fun t c v hc hv => follows_sendAtCommand hc hv

end MeshNode
