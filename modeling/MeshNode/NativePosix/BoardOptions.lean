import MeshNode.Lib.Binary64
import MeshNode.NativePosix.CommandLine

/-!
# The options of the board

The options of the timers and of the tracing set variables of the board before it starts.

* `DoubleOps`, `BoardConfig`, `Host`: what the code computes on `double`, the variables, and what
  the code relies on;
* `cmdStopAtFound`, `cmdRtDriftFound`, ...: the callbacks;
* `calls`, `configure`: the callback that an argument leads to, and what it does to the variables;
* `cmdParseOneArg_config`, `argsLoop_config`: an argument, and all of them;
* `posixInit`: the start of the process up to `hwm_init`;
* **`posix_init_configured`**: each variable has the value of the last argument that sets it;
* `binary64Ops`, `host64`: a host that computes in binary64, `setsEndOfTime_seconds`: whole seconds
  are exact there.
-/

namespace MeshNode.Cmdline

open CString Keyed Interact

/-! ### The variables -/

/-- What the code computes on `double`; `binary64Ops` has it for 64 bits. -/
structure DoubleOps (D : Type) where
  one : D
  /-- `x < 0`. -/
  isNegative : D → Bool
  /-- `x <= 0`. -/
  isNonpositive : D → Bool
  /-- `x > -1`. -/
  isAboveMinusOne : D → Bool
  /-- `x + 1`. -/
  addOne : D → D
  /-- `x * 1e6`, as a `uint64_t`. -/
  microsU64 : D → UInt64
  /-- `x * 1e6`, as an `int64_t`. -/
  microsI64 : D → Int64

/-- The variables that the options of the timers and of the tracing set. -/
structure BoardConfig (D : Type) where
  realTimeMode : Bool
  resetRtc : Bool
  rtcOffset : Int64
  clockRatio : D
  endOfTime : UInt64
  isATty : Fin 2 → ℤ

/-- What the code relies on, the callbacks of other parts among it. -/
structure Host (D G : Type) where
  long : ℕ
  nan : D
  strtod : List UInt8 → D × List UInt8
  ops : DoubleOps D
  other : ℕ → Str → ℕ → Env D G → Except Exit (Env D G)
  junk : Vector UInt8 maxStringyLen

variable {D G : Type}

namespace BoardConfig

/-- The variables when the process starts; whether it is slowed down to real time is configured. -/
def static (O : DoubleOps D) (slowdown : Bool) : BoardConfig D where
  realTimeMode := slowdown
  resetRtc := false
  rtcOffset := 0
  clockRatio := O.one
  endOfTime := .ofNat (2 ^ 64 - 1)
  isATty := fun _ => -1

/-- `hwtimer_set_real_time_mode`. -/
def hwtimerSetRealTimeMode (b : BoardConfig D) (newRt : Bool) : BoardConfig D :=
  { b with realTimeMode := newRt }

/-- `hwtimer_reset_rtc`. -/
def hwtimerResetRtc (b : BoardConfig D) : BoardConfig D := { b with resetRtc := true }

/-- `hwtimer_set_rtc_offset`. -/
def hwtimerSetRtcOffset (b : BoardConfig D) (offset : Int64) : BoardConfig D :=
  { b with rtcOffset := offset }

/-- `hwtimer_set_rt_ratio`. -/
def hwtimerSetRtRatio (b : BoardConfig D) (ratio : D) : BoardConfig D :=
  { b with clockRatio := ratio }

/-- `hwm_set_end_of_time`. -/
def hwmSetEndOfTime (b : BoardConfig D) (newEndOfTime : UInt64) : BoardConfig D :=
  { b with endOfTime := newEndOfTime }

/-- `trace_disable_color`, `trace_enable_color` and `trace_force_color` store one value twice. -/
def setColor (b : BoardConfig D) (v : ℤ) : BoardConfig D := { b with isATty := fun _ => v }

/-- `decide_about_color`. -/
def decideAboutColor (isatty : Fin 2 → ℤ) (b : BoardConfig D) : BoardConfig D :=
  { b with isATty := fun k => if b.isATty k = -1 then isatty k else b.isATty k }

/-- `hwtimer_init`, for these variables; `realhosttime` is the time of the host. -/
def hwtimerInit (realhosttime : UInt64) (b : BoardConfig D) : BoardConfig D :=
  if b.resetRtc = false then { b with rtcOffset := b.rtcOffset + realhosttime.toInt64 } else b

end BoardConfig

/-! ### The callbacks -/

/-- The variables of the options, those of the board, and the rest. -/
abbrev BoardEnv (D G : Type) := Env D (BoardConfig D × G)

/-- Change the variables of the board. -/
def BoardEnv.modify (e : BoardEnv D G) (f : BoardConfig D → BoardConfig D) : BoardEnv D G :=
  ⟨e.vars, f e.rest.1, e.rest.2⟩

namespace Host

variable (H : Host D G)

/-- A member of `args`. -/
def arg (e : BoardEnv D G) (dest : ℕ) : D :=
  match e.vars dest with
  | .double x => x
  | _ => H.nan

/-- `cmd_stop_at_found`. -/
def cmdStopAtFound (argv : Str) (e : BoardEnv D G) : Except Exit (BoardEnv D G) :=
  if H.ops.isNegative (H.arg e 0) then
    .error (printErrorAndExit []
      (lit "Error: stop-at must be positive (" ++ argv.val ++ lit ")\n"))
  else .ok (e.modify (·.hwmSetEndOfTime (H.ops.microsU64 (H.arg e 0))))

/-- `cmd_realtime_found`. -/
def cmdRealtimeFound (e : BoardEnv D G) : BoardEnv D G := e.modify (·.hwtimerSetRealTimeMode true)

/-- `cmd_no_realtime_found`. -/
def cmdNoRealtimeFound (e : BoardEnv D G) : BoardEnv D G :=
  e.modify (·.hwtimerSetRealTimeMode false)

/-- `cmd_rtcoffset_found`. -/
def cmdRtcoffsetFound (e : BoardEnv D G) : BoardEnv D G :=
  e.modify (·.hwtimerSetRtcOffset (H.ops.microsI64 (H.arg e 1)))

/-- `cmd_rt_drift_found`. -/
def cmdRtDriftFound (e : BoardEnv D G) : Except Exit (BoardEnv D G) :=
  if !H.ops.isAboveMinusOne (H.arg e 2) then
    .error (printErrorAndExit []
      (lit "The drift needs to be > -1. Please use --help for more info\n"))
  else
    let e := e.set 3 (.double (H.ops.addOne (H.arg e 2)))
    .ok (BoardEnv.modify e (·.hwtimerSetRtRatio (H.arg e 3)))

/-- `cmd_rt_ratio_found`. -/
def cmdRtRatioFound (e : BoardEnv D G) : Except Exit (BoardEnv D G) :=
  if H.ops.isNonpositive (H.arg e 3) then
    .error (printErrorAndExit []
      (lit "The ratio needs to be > 0. Please use --help for more info\n"))
  else .ok (e.modify (·.hwtimerSetRtRatio (H.arg e 3)))

/-- `cmd_rtcreset_found`. -/
def cmdRtcresetFound (e : BoardEnv D G) : BoardEnv D G := e.modify (·.hwtimerResetRtc)

/-- The functions that options call. Those of other parts do not set the variables of the board. -/
def callback (c : Callback) (argv : Str) (offset : ℕ) (e : BoardEnv D G) :
    Except Exit (BoardEnv D G) :=
  match c with
  | .cmdRealtimeFound => .ok (cmdRealtimeFound e)
  | .cmdNoRealtimeFound => .ok (cmdNoRealtimeFound e)
  | .cmdRtDriftFound => H.cmdRtDriftFound e
  | .cmdRtRatioFound => H.cmdRtRatioFound e
  | .cmdRtcoffsetFound => .ok (H.cmdRtcoffsetFound e)
  | .cmdRtcresetFound => .ok (cmdRtcresetFound e)
  | .cmdStopAtFound => H.cmdStopAtFound argv e
  | .traceEnableColor => .ok (e.modify (·.setColor (-1)))
  | .traceDisableColor => .ok (e.modify (·.setColor 0))
  | .traceForceColor => .ok (e.modify (·.setColor 1))
  | .other n => (H.other n argv offset ⟨e.vars, e.rest.2⟩).map fun e' =>
    ⟨e'.vars, e.rest.1, e'.rest⟩

/-- The command line of the board. -/
def platform : Platform Callback D (BoardConfig D × G) :=
  ⟨H.long, H.nan, H.strtod, H.callback, H.junk⟩

end Host

/-! ### What an argument does -/

/-- The options of the timers and of the tracing. -/
def ownOptions : List (ArgsStruct Callback) := timerOptions ++ traceOptions

/-- The text behind the name and the separator. -/
def valueIn (arg : List UInt8) : List UInt8 :=
  (arg.drop (dashes arg)).drop ((nameOf arg).length + 1)

/-- The callback of the board's option that an argument names. -/
def calls (argv : Str) : Option Callback :=
  (ownOptions.find? fun el => el.option.val = nameOf argv.val).bind (·.callWhenFound)

/-- The member of `args` that a callback uses. -/
def Callback.member : Callback → Option ℕ
  | .cmdStopAtFound => some 0
  | .cmdRtcoffsetFound => some 1
  | .cmdRtDriftFound => some 2
  | .cmdRtRatioFound => some 3
  | _ => none

def Callback.isOther : Callback → Bool
  | .other _ => true
  | _ => false

/-- What a callback does to the variables when the value of its option is `x`. -/
def Callback.apply (O : DoubleOps D) (x : D) (b : BoardConfig D) : Callback → BoardConfig D
  | .cmdRealtimeFound => b.hwtimerSetRealTimeMode true
  | .cmdNoRealtimeFound => b.hwtimerSetRealTimeMode false
  | .cmdRtDriftFound => b.hwtimerSetRtRatio (O.addOne x)
  | .cmdRtRatioFound => b.hwtimerSetRtRatio x
  | .cmdRtcoffsetFound => b.hwtimerSetRtcOffset (O.microsI64 x)
  | .cmdRtcresetFound => b.hwtimerResetRtc
  | .cmdStopAtFound => b.hwmSetEndOfTime (O.microsU64 x)
  | .traceEnableColor => b.setColor (-1)
  | .traceDisableColor => b.setColor 0
  | .traceForceColor => b.setColor 1
  | .other _ => b

/-- The value is one that the callback accepts. -/
def Callback.Accepts (O : DoubleOps D) (x : D) : Callback → Prop
  | .cmdRtDriftFound => O.isAboveMinusOne x = true
  | .cmdRtRatioFound => O.isNonpositive x = false
  | .cmdStopAtFound => O.isNegative x = false
  | _ => True

/-- The number in an argument. -/
def Host.figure (H : Host D G) (argv : Str) : D := (H.strtod (valueIn argv.val)).1

/-- What an argument does to the variables. -/
def configure (H : Host D G) (b : BoardConfig D) (argv : Str) : BoardConfig D :=
  (calls argv).elim b (Callback.apply H.ops (H.figure argv) b)

/-- An option of another part. -/
def Foreign (el : ArgsStruct Callback) : Prop := ∀ c ∈ el.callWhenFound, c.isOther = true

/-- **A callback of the board**, with its value. -/
theorem callback_own {H : Host D G} {c : Callback} (hc : c.isOther = false) {argv : Str} {ret : ℕ}
    {e e' : BoardEnv D G} (h : H.callback c argv ret e = .ok e') {x : D}
    (hx : ∀ dest ∈ c.member, e.vars dest = .double x) :
    e'.rest.1 = c.apply H.ops x e.rest.1 ∧ c.Accepts H.ops x := by
  cases c with
  | other n => exact (Bool.noConfusion hc : False).elim
  | cmdRtDriftFound =>
    have hx : e.vars 2 = .double x := hx 2 rfl
    rw [Host.callback, Host.cmdRtDriftFound, Host.arg, hx] at h
    dsimp only at h
    split_ifs at h with ha
    obtain rfl := Except.ok.inj h
    exact ⟨by simp [BoardEnv.modify, Callback.apply, Env.set, Host.arg],
      by simpa [Callback.Accepts] using ha⟩
  | cmdRtRatioFound =>
    have hx : e.vars 3 = .double x := hx 3 rfl
    rw [Host.callback, Host.cmdRtRatioFound, Host.arg, hx] at h
    dsimp only at h
    split_ifs at h with ha
    obtain rfl := Except.ok.inj h
    exact ⟨rfl, by simpa [Callback.Accepts] using ha⟩
  | cmdStopAtFound =>
    have hx : e.vars 0 = .double x := hx 0 rfl
    rw [Host.callback, Host.cmdStopAtFound, Host.arg, hx] at h
    dsimp only at h
    split_ifs at h with ha
    obtain rfl := Except.ok.inj h
    exact ⟨rfl, by simpa [Callback.Accepts] using ha⟩
  | cmdRtcoffsetFound =>
    have hx : e.vars 1 = .double x := hx 1 rfl
    obtain rfl := Except.ok.inj h
    exact ⟨by simp [Host.cmdRtcoffsetFound, BoardEnv.modify, Callback.apply, Host.arg, hx], trivial⟩
  | _ =>
    obtain rfl := Except.ok.inj h
    exact ⟨rfl, trivial⟩

/-- The options of the board: each has a callback, and a value exactly if the callback uses one. -/
theorem own_option {el : ArgsStruct Callback} (h : el ∈ ownOptions) :
    el.manual = false ∧ (∃ c, el.callWhenFound = some c ∧ c.isOther = false ∧ el.dest = c.member) ∧
      (el.dest ≠ none → el.isSwitch = false ∧ el.type = 100) := by
  simp only [ownOptions, timerOptions, traceOptions, List.cons_append, List.nil_append,
    List.mem_cons, List.not_mem_nil, or_false] at h
  obtain rfl | rfl | rfl | rfl | rfl | rfl | rfl | rfl | rfl | rfl := h <;>
    exact ⟨rfl, ⟨_, rfl, rfl, rfl⟩, by simp [switchOption, doubleOption]⟩

section Argument

variable {H : Host D G} {args : List (ArgsStruct Callback)} {argv : Str} {el : ArgsStruct Callback}
  {ret : ℕ} {e e' : BoardEnv D G}

/-- An argument that is handled is taken by one option of the table. -/
theorem handles_option {P : Platform Callback D G} {e e' : Env D G} (h : Handles P args e argv e') :
    ∃ el ∈ args, ∃ ret, hits argv el = true ∧ ret ≠ 0 ∧
      cmdIsOption argv el.option (!el.isSwitch) = .ok ret ∧
      cmdHandleThisMatchedArg P argv ret el e = .ok e' := by
  rw [Handles, cmdParseOneArg] at h
  split_ifs at h with hhelp
  · cases ht : cmdPrintLongHelp P.junk args <;> simp [ht] at h
  rw [parseLoop_eq, findOption_eq] at h
  cases hf : args.find? (hits argv) with
  | none => simp [hf, Except.bind, handleFound] at h
  | some el =>
    have hh := List.find?_some hf
    rw [hf] at h
    dsimp only at h
    cases hc : cmdIsOption argv el.option (!el.isSwitch) with
    | error x => simp [hc, Except.map, Except.bind] at h
    | ok ret =>
      refine ⟨el, List.mem_of_find?_eq_some hf, ret, hh, ?_, hc, ?_⟩
      · rintro rfl
        simp [hits, hc] at hh
      · rw [hc, Except.map, Except.bind, handleFound] at h
        cases hm : cmdHandleThisMatchedArg P argv ret el e with
        | error x => simp [hm, Except.map] at h
        | ok e₁ =>
          rw [hm] at h
          exact congrArg Except.ok (Prod.mk.inj (Except.ok.inj h)).2

/-- The value of an option begins behind the separator. -/
theorem drop_eq_valueIn (hs : Sound args) (hel : el ∈ args) (hm : el.manual = false)
    (h : cmdIsOption argv el.option true = .ok ret) (hret : ret ≠ 0) :
    argv.val.drop ret = valueIn argv.val := by
  obtain ⟨ho, hsep⟩ := hs.plain el hel hm
  by_cases hd : Dashed el.option.val argv.val
  · simp [cmdIsOption_dashed ho hd] at h
  by_cases hv : ∃ v, Valued el.option.val v argv.val
  · obtain ⟨v, hv⟩ := hv
    obtain ⟨n, -, -, hdrop, hn⟩ := cmdIsOption_valued ho hv
    rw [h] at hn
    split_ifs at hn
    obtain rfl := Except.ok.inj hn
    have hname := nameOf_of_valued ho hsep hv
    obtain ⟨sep, hsep', hv⟩ := hv
    rw [hdrop, valueIn, hname, (dashed_iff (head_append_separator ho hsep')).mp hv, ← List.drop_drop,
      List.drop_left]
    rfl
  · rw [cmdIsOption_other hd fun v h => hv ⟨v, h⟩] at h
    exact absurd (Except.ok.inj h).symm hret

/-- The callback of the option that takes the argument is the one that its name leads to. -/
theorem calls_of_hits (hs : Sound args) (hown : ∀ o ∈ ownOptions, o ∈ args) (hel : el ∈ args)
    (h : hits argv el = true) :
    (el ∈ ownOptions → calls argv = el.callWhenFound) ∧ (Foreign el → calls argv = none) := by
  obtain ⟨hm, hname⟩ := nameOf_of_hits hs hel h
  have huniq : ∀ o ∈ ownOptions, o.option.val = nameOf argv.val → o = el := fun o ho he =>
    List.inj_on_of_nodup_map hs.distinct
      (List.mem_filter.mpr ⟨hown o ho, by simp [(own_option ho).1]⟩)
      (List.mem_filter.mpr ⟨hel, by simp [hm]⟩) (Subtype.ext (he.trans hname))
  rw [calls]
  cases hf : ownOptions.find? fun el => el.option.val = nameOf argv.val with
  | none =>
    refine ⟨fun ho => ?_, fun _ => rfl⟩
    simpa [hname] using List.find?_eq_none.mp hf el ho
  | some o =>
    have ho := List.mem_of_find?_eq_some hf
    obtain rfl := huniq o ho (by simpa using List.find?_some hf)
    refine ⟨fun _ => rfl, fun hfor => ?_⟩
    obtain ⟨-, ⟨c, hc, hother, -⟩, -⟩ := own_option ho
    have := hfor c hc
    simp [hother] at this

/-- A member of `args` has the number in the argument when its callback is called. -/
theorem vars_of_stored (hs : Sound args) (hel : el ∈ args) (ho : el ∈ ownOptions)
    (hc : cmdIsOption argv el.option (!el.isSwitch) = .ok ret) (hret : ret ≠ 0)
    (h : storeMatchedArg H.platform argv ret el e = .ok e') :
    ∀ dest ∈ el.dest, e'.vars dest = .double (H.figure argv) := by
  intro dest hdest
  have hdest : el.dest = some dest := hdest
  obtain ⟨hm, -, hvalue⟩ := own_option ho
  obtain ⟨hsw, htype⟩ := hvalue (by simp [hdest])
  rw [hsw] at hc
  have hw : written H.platform argv el ret = [(dest, .double (H.figure argv))] := by
    simp [written, hdest, hsw, htype, convert, Host.platform, Host.figure,
      drop_eq_valueIn hs hel hm hc hret]
  rw [storeMatchedArg_eq_ok h, hw]
  simp

/-- **An argument that is handled** sets the variables, and its number is accepted. -/
theorem handles_config (hs : Sound args) (hown : ∀ o ∈ ownOptions, o ∈ args)
    (hfor : ∀ el ∈ args, el ∈ ownOptions ∨ Foreign el) (h : Handles H.platform args e argv e') :
    e'.rest.1 = configure H e.rest.1 argv ∧ ∀ c ∈ calls argv, c.Accepts H.ops (H.figure argv) := by
  obtain ⟨el, hel, ret, hh, hret, hc, h⟩ := handles_option h
  obtain ⟨hcown, hcfor⟩ := calls_of_hits hs hown hel hh
  rw [cmdHandleThisMatchedArg] at h
  cases hst : storeMatchedArg H.platform argv ret el e with
  | error x => simp [hst, Except.bind] at h
  | ok e₁ =>
    rw [hst, Except.bind] at h
    have hrest : e₁.rest = e.rest := by rw [storeMatchedArg_eq_ok hst]
    rcases hfor el hel with ho | hf
    · obtain ⟨-, ⟨c, hcall, hother, hmember⟩, -⟩ := own_option ho
      rw [hcall] at h
      obtain ⟨hb, ha⟩ := callback_own hother h (hmember ▸ vars_of_stored hs hel ho hc hret hst)
      rw [configure, hcown ho, hcall]
      refine ⟨hrest ▸ hb, ?_⟩
      rintro _ ⟨⟩
      exact ha
    · rw [configure, hcfor hf]
      refine ⟨?_, by simp⟩
      cases hcall : el.callWhenFound with
      | none =>
        rw [hcall] at h
        obtain rfl := Except.ok.inj h
        exact congrArg Prod.fst hrest
      | some c =>
        rw [hcall] at h
        cases c with
        | other n =>
          obtain ⟨e₂, -, rfl⟩ : ∃ e₂, _ ∧ _ := by
            cases ho : H.other n argv ret ⟨e₁.vars, e₁.rest.2⟩ with
            | error x => simp [Host.platform, Host.callback, ho, Except.map] at h
            | ok e₂ =>
              exact ⟨e₂, ho, by simpa [Host.platform, Host.callback, ho, Except.map] using h⟩
          exact (congrArg Prod.fst hrest : e₁.rest.1 = e.rest.1)
        | _ => exact absurd (hf _ hcall) (by decide)

/-- **Arguments that are handled** set the variables one after the other. -/
theorem config_of_run (hs : Sound args) (hown : ∀ o ∈ ownOptions, o ∈ args)
    (hfor : ∀ el ∈ args, el ∈ ownOptions ∨ Foreign el) {before : List Str}
    (h : (Handles H.platform args).Run e before e') :
    e'.rest.1 = before.foldl (configure H) e.rest.1 ∧
      ∀ a ∈ before, ∀ c ∈ calls a, c.Accepts H.ops (H.figure a) := by
  induction h with
  | nil => exact ⟨rfl, by simp⟩
  | cons hp _ ih =>
    obtain ⟨hb, ha⟩ := handles_config hs hown hfor hp
    rw [List.foldl_cons, ← hb]
    exact ⟨ih.1, List.forall_mem_cons.mpr ⟨ha, ih.2⟩⟩

end Argument

/-! ### The start of the process -/

/-- What `posix_init` does up to `hwm_init`: the parts registered their options; the command line is
handled; the colours are decided; the timers are initialised. -/
def posixInit (H : Host D G) (isatty : Fin 2 → ℤ) (realhosttime : UInt64)
    (realloc : Realloc Callback) (parts : List (List (ArgsStruct Callback))) (argv : List Str)
    (e : BoardEnv D G) :
    Except Exit (CmdLine D (BoardConfig D × G)) :=
  (bootCmdLine H.platform realloc parts argv e).map fun c =>
    { c with env := BoardEnv.modify c.env fun b =>
        (b.decideAboutColor isatty).hwtimerInit realhosttime }

/-- What an argument makes of the real-time mode. -/
def setsRealTime (argv : Str) : Option Bool :=
  match calls argv with
  | some .cmdRealtimeFound => some true
  | some .cmdNoRealtimeFound => some false
  | _ => none

/-- What an argument makes of the ratio of simulated time to real time. -/
def setsRatio (H : Host D G) (argv : Str) : Option D :=
  match calls argv with
  | some .cmdRtDriftFound => some (H.ops.addOne (H.figure argv))
  | some .cmdRtRatioFound => some (H.figure argv)
  | _ => none

/-- What an argument makes of the offset of the clock. -/
def setsRtcOffset (H : Host D G) (argv : Str) : Option Int64 :=
  match calls argv with
  | some .cmdRtcoffsetFound => some (H.ops.microsI64 (H.figure argv))
  | _ => none

/-- What an argument makes of the end of time. -/
def setsEndOfTime (H : Host D G) (argv : Str) : Option UInt64 :=
  match calls argv with
  | some .cmdStopAtFound => some (H.ops.microsU64 (H.figure argv))
  | _ => none

/-- What an argument makes of the colours: as the terminal is, off or on. -/
def setsColor (argv : Str) : Option ℤ :=
  match calls argv with
  | some .traceEnableColor => some (-1)
  | some .traceDisableColor => some 0
  | some .traceForceColor => some 1
  | _ => none

/-- The argument leaves the clock without the time of the host. -/
def resetsRtc (argv : Str) : Option Bool :=
  match calls argv with
  | some .cmdRtcresetFound => some true
  | _ => none

/-- What an argument does to each variable. -/
theorem configure_views (H : Host D G) (b : BoardConfig D) (argv : Str) :
    (configure H b argv).realTimeMode = (setsRealTime argv).getD b.realTimeMode ∧
      (configure H b argv).clockRatio = (setsRatio H argv).getD b.clockRatio ∧
      (configure H b argv).rtcOffset = (setsRtcOffset H argv).getD b.rtcOffset ∧
      (configure H b argv).endOfTime = (setsEndOfTime H argv).getD b.endOfTime ∧
      (∀ k, (configure H b argv).isATty k = (setsColor argv).getD (b.isATty k)) ∧
      (configure H b argv).resetRtc = (resetsRtc argv).getD b.resetRtc := by
  simp only [configure, setsRealTime, setsRatio, setsRtcOffset, setsEndOfTime, setsColor, resetsRtc]
  rcases calls argv with _ | c
  · exact ⟨rfl, rfl, rfl, rfl, fun _ => rfl, rfl⟩
  · cases c <;> exact ⟨rfl, rfl, rfl, rfl, fun _ => rfl, rfl⟩

/-- The value set last by some of the arguments, or the value before. -/
def lastSet {α : Type} (sets : Str → Option α) (before : List Str) (v : α) : α :=
  ((before.filterMap sets).getLast?).getD v

theorem lastSet_concat {α : Type} {sets : Str → Option α} {a : Str} {x : α} (h : sets a = some x)
    (before : List Str) (v : α) : lastSet sets (before ++ [a]) v = x := by
  simp [lastSet, h]

/-- What is done to the variables after the command line. -/
theorem started (b : BoardConfig D) (isatty : Fin 2 → ℤ) (realhosttime : UInt64) :
    ((b.decideAboutColor isatty).hwtimerInit realhosttime).realTimeMode = b.realTimeMode ∧
      ((b.decideAboutColor isatty).hwtimerInit realhosttime).clockRatio = b.clockRatio ∧
      ((b.decideAboutColor isatty).hwtimerInit realhosttime).endOfTime = b.endOfTime ∧
      ((b.decideAboutColor isatty).hwtimerInit realhosttime).rtcOffset = b.rtcOffset +
        (if b.resetRtc = true then 0 else realhosttime.toInt64) ∧
      ∀ k, ((b.decideAboutColor isatty).hwtimerInit realhosttime).isATty k =
        if b.isATty k = -1 then isatty k else b.isATty k := by
  cases h : b.resetRtc <;> simp [BoardConfig.hwtimerInit, BoardConfig.decideAboutColor, h]

/-- **What the arguments make of each variable**, from its value when the process started. -/
theorem lastSet_of_foldl {H : Host D G} {before : List Str} {b : BoardConfig D} {slowdown : Bool}
    (hb : b = before.foldl (configure H) (.static H.ops slowdown)) :
    b.realTimeMode = lastSet setsRealTime before slowdown ∧
      b.clockRatio = lastSet (setsRatio H) before H.ops.one ∧
      b.rtcOffset = lastSet (setsRtcOffset H) before 0 ∧
      b.endOfTime = lastSet (setsEndOfTime H) before (.ofNat (2 ^ 64 - 1)) ∧
      (∀ k, b.isATty k = lastSet setsColor before (-1)) ∧
      b.resetRtc = lastSet resetsRtc before false := by
  subst hb
  have h := configure_views H
  exact ⟨view_foldl (fun b a => (h b a).1) before _, view_foldl (fun b a => (h b a).2.1) before _,
    view_foldl (fun b a => (h b a).2.2.1) before _,
    view_foldl (fun b a => (h b a).2.2.2.1) before _,
    fun k => view_foldl (v := fun b => b.isATty k) (fun b a => (h b a).2.2.2.2.1 k) before _,
    view_foldl (fun b a => (h b a).2.2.2.2.2) before _⟩

theorem mem_wholeTable_of_own {parts : List (List (ArgsStruct Callback))}
    (ht : timerOptions ∈ parts) : ∀ o ∈ ownOptions, o ∈ wholeTable parts := by
  intro o ho
  rcases List.mem_append.mp ho with ho | ho
  · exact List.mem_append_left _ (List.mem_flatten_of_mem ht ho)
  · exact List.mem_append_right _ (List.mem_append_left _ ho)

/-- An option is the board's own, or foreign, where the other parts' options are. -/
theorem own_or_foreign {parts : List (List (ArgsStruct Callback))}
    (hf : ∀ part ∈ parts, part ≠ timerOptions → ∀ el ∈ part, Foreign el) :
    ∀ el ∈ wholeTable parts, el ∈ ownOptions ∨ Foreign el := by
  intro el hel
  rcases List.mem_append.mp hel with hel | hel
  · obtain ⟨part, hpart, hel⟩ := List.mem_flatten.mp hel
    by_cases hp : part = timerOptions
    · exact .inl (List.mem_append_left _ (hp ▸ hel))
    · exact .inr (hf part hpart hp el hel)
  · rcases List.mem_append.mp hel with hel | hel
    · exact .inl (List.mem_append_right _ hel)
    · obtain rfl := List.mem_singleton.mp hel
      exact .inr nofun

/-- A command line that is handled: the arguments in front of `testargs` set the variables. -/
theorem posixInit_before {realloc : Realloc Callback} (hr : Reallocates realloc) {H : Host D G}
    {parts : List (List (ArgsStruct Callback))} (ht : timerOptions ∈ parts)
    (hf : ∀ part ∈ parts, part ≠ timerOptions → ∀ el ∈ part, Foreign el)
    (hs : Sound (wholeTable parts)) {isatty : Fin 2 → ℤ} {realhosttime : UInt64} {argv : List Str}
    {e : BoardEnv D G} {slowdown : Bool} (he : e.rest.1 = .static H.ops slowdown)
    {c : CmdLine D (BoardConfig D × G)}
    (h : posixInit H isatty realhosttime realloc parts argv e = .ok c) :
    ∃ before, (∀ a ∈ before, ¬ Dashed testargs.val a.val) ∧
      (match c.testArgs with
        | none => argv.tail = before
        | some rest => ∃ ta, Dashed testargs.val ta.val ∧ argv.tail = before ++ ta :: rest) ∧
      (∃ b, b = before.foldl (configure H) (.static H.ops slowdown) ∧
        c.env.rest.1 = (b.decideAboutColor isatty).hwtimerInit realhosttime) ∧
      ∀ a ∈ before, ∀ call ∈ calls a, call.Accepts H.ops (H.figure a) := by
  rw [posixInit] at h
  cases hc : bootCmdLine H.platform realloc parts argv e with
  | error x => simp [hc, Except.map] at h
  | ok c₁ =>
    rw [hc] at h
    obtain rfl := Except.ok.inj h
    obtain ⟨-, before, hb, hrest, hrun⟩ := bootCmdLine_run hr hc
    obtain ⟨hconf, hacc⟩ := config_of_run hs (mem_wholeTable_of_own ht) (own_or_foreign hf) hrun
    rw [he] at hconf
    exact ⟨before, hb, hrest, ⟨_, hconf, rfl⟩, hacc⟩

/-- **What the command line says is what the board does.** When the process started, its variables
are as the arguments in front of `testargs` say: the last `rt` or `no-rt` decides on the real-time
mode, the last `rt-drift` or `rt-ratio` on the ratio, the last `stop_at` on the end of time; the
clock has the last `rtc-offset` and the time of the host, without `rtc-reset`; the last option for
colours decides on them, or the terminal; and every number was accepted. -/
theorem posix_init_configured {realloc : Realloc Callback} (hr : Reallocates realloc)
    {H : Host D G} {parts : List (List (ArgsStruct Callback))} (ht : timerOptions ∈ parts)
    (hf : ∀ part ∈ parts, part ≠ timerOptions → ∀ el ∈ part, Foreign el)
    (hs : Sound (wholeTable parts)) {isatty : Fin 2 → ℤ} {realhosttime : UInt64} {argv : List Str}
    {e : BoardEnv D G} {slowdown : Bool} (he : e.rest.1 = .static H.ops slowdown)
    {c : CmdLine D (BoardConfig D × G)}
    (h : posixInit H isatty realhosttime realloc parts argv e = .ok c) :
    ∃ before, (∀ a ∈ before, ¬ Dashed testargs.val a.val) ∧
      (match c.testArgs with
        | none => argv.tail = before
        | some rest => ∃ ta, Dashed testargs.val ta.val ∧ argv.tail = before ++ ta :: rest) ∧
      c.env.rest.1.realTimeMode = lastSet setsRealTime before slowdown ∧
      c.env.rest.1.clockRatio = lastSet (setsRatio H) before H.ops.one ∧
      c.env.rest.1.endOfTime = lastSet (setsEndOfTime H) before (.ofNat (2 ^ 64 - 1)) ∧
      c.env.rest.1.rtcOffset = lastSet (setsRtcOffset H) before 0 +
        (if lastSet resetsRtc before false = true then 0 else realhosttime.toInt64) ∧
      (∀ k, c.env.rest.1.isATty k = if lastSet setsColor before (-1) = -1 then isatty k
        else lastSet setsColor before (-1)) ∧
      ∀ a ∈ before, ∀ call ∈ calls a, call.Accepts H.ops (H.figure a) := by
  obtain ⟨before, hb, hrest, ⟨b, hconf, hc⟩, hacc⟩ := posixInit_before hr ht hf hs he h
  obtain ⟨h₁, h₂, h₃, h₄, h₅, h₆⟩ := lastSet_of_foldl hconf
  obtain ⟨h₁', h₂', h₃', h₄', h₅'⟩ := started b isatty realhosttime
  simp only [h₅, h₆] at h₄' h₅'
  rw [hc]
  exact ⟨before, hb, hrest, h₁'.trans h₁, h₂'.trans h₂, h₃'.trans h₄, h₃ ▸ h₄', h₅', hacc⟩

/-! ### A host with `double` in 64 bits -/

/-- The operators of C on numbers in binary64. C defines none outside an integer type. -/
def binary64Ops : DoubleOps Binary64 where
  one := .ofRat 1
  isNegative x := x.lt (.ofRat 0)
  isNonpositive x := x.le (.ofRat 0)
  isAboveMinusOne x := (Binary64.ofRat (-1)).lt x
  addOne x := x.add (.ofRat 1)
  microsU64 x := .ofNat ((x.mul (.ofRat (10 ^ 6 : ℕ))).trunc.getD 0).toNat
  microsI64 x := .ofInt ((x.mul (.ofRat (10 ^ 6 : ℕ))).trunc.getD 0)

/-- A host with `long` of 64 bits, on which the callbacks of other parts are counted. -/
def host64 : Host Binary64 ℕ where
  long := 64
  nan := .nan
  strtod := Binary64.strtod
  ops := binary64Ops
  other _ _ _ e := .ok ⟨e.vars, e.rest + 1⟩
  junk := .replicate _ 0

/-- **Whole seconds are exact**: a `stop_at` of some seconds, below 285 years, ends the simulation
after as many of them. -/
theorem setsEndOfTime_seconds {n : ℕ} (h : n * 10 ^ 6 < 2 ^ 53) {argv : Str}
    (hargv : argv.val = lit "--stop_at=" ++ fmtU n) :
    setsEndOfTime host64 argv = some (.ofNat (n * 10 ^ 6)) ∧
      Callback.cmdStopAtFound.Accepts host64.ops (host64.figure argv) := by
  have hv : Valued (lit "stop_at") (fmtU n) argv.val := ⟨61, rfl, .inr (.inr hargv)⟩
  have hplain : (lit "stop_at").all (fun b => !isSeparator b) = true := by decide
  have hname : nameOf argv.val = lit "stop_at" :=
    nameOf_of_valued (by decide) (fun b hb => by simpa using List.all_eq_true.mp hplain b hb) hv
  have hcalls : calls argv = some .cmdStopAtFound := by
    rw [calls, hname]
    rfl
  have hfigure : host64.figure argv = .ofRat n := by
    have hvalue : valueIn argv.val = fmtU n := by
      rw [valueIn, hname, hargv]
      rfl
    rw [Host.figure, hvalue]
    exact congrArg Prod.fst (Binary64.strtod_fmtU n)
  have hn : n < 2 ^ 53 := by omega
  refine ⟨?_, ?_⟩
  · have hmul := Binary64.trunc_mul_natCast hn (n := 10 ^ 6) (by decide) h
    rw [setsEndOfTime, hcalls, hfigure]
    simp only [host64, binary64Ops, hmul, Option.getD_some, Int.toNat_natCast]
  · rw [hfigure]
    exact Binary64.not_lt_zero_natCast hn

def startEnv : BoardEnv Binary64 ℕ := ⟨fun _ => .bool false, .static host64.ops false, 0⟩

/-- Real time, colours to a file, and the end after five seconds. -/
def fiveSeconds : List Str :=
  [str "prog", str "--no-rt", str "-rt", str "--no-color", str "--force-color", str "--stop_at=5"]

theorem lastSet_fiveSeconds :
    lastSet (setsEndOfTime host64) fiveSeconds.tail (.ofNat (2 ^ 64 - 1)) = 5000000 :=
  lastSet_concat (setsEndOfTime_seconds (n := 5) (by decide) rfl).1
    [str "--no-rt", str "-rt", str "--no-color", str "--force-color"] _

theorem posix_init_configured_five : ∃ c, posixInit host64 (fun _ => 0) 7 (padded _)
      [timerOptions, [countOption]] fiveSeconds startEnv = .ok c ∧
    c.env.rest.1.realTimeMode = true ∧ c.env.rest.1.endOfTime = 5000000 ∧
    c.env.rest.1.isATty 0 = 1 := by
  have hok : (posixInit host64 (fun _ => 0) 7 (padded _) [timerOptions, [countOption]]
      fiveSeconds startEnv).toOption.map (·.testArgs) = some none := by decide +kernel
  cases h : posixInit host64 (fun _ => 0) 7 (padded _) [timerOptions, [countOption]]
      fiveSeconds startEnv with
  | error x => simp [h, Except.toOption] at hok
  | ok c =>
    rw [h] at hok
    have hnone : c.testArgs = none := Option.some.inj hok
    obtain ⟨before, -, hrest, h₁, -, h₃, -, h₅, -⟩ := posix_init_configured reallocates_padded
      (by simp) (by simp [Foreign, countOption]) sound_wholeTable rfl h
    rw [hnone] at hrest
    subst hrest
    exact ⟨c, rfl, h₁.trans (by decide +kernel), h₃.trans lastSet_fiveSeconds,
      (h₅ 0).trans (by decide +kernel)⟩

end MeshNode.Cmdline
