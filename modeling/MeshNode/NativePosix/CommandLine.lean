import MeshNode.Interact.Lts
import MeshNode.NativePosix.Arguments
import MeshNode.NativePosix.Registry

/-!
# The command line

The parts of the program register their options, the command line adds those of the tracing and
`testargs`, gives all variables their defaults and handles the arguments up to `testargs`.

* `Callback`, `timerOptions`, `traceOptions`, `testargsOptions`: the program's own options;
* `argsLoop`, `nativeHandleCmdLine`, `bootCmdLine`: the command line of a program with some parts;
* `allParts`: the tables that are registered; `bootCmdLine_eq`: unless a `realloc` refuses, their
  options are the table;
* `argsLoop_testargs`, **`testargs_handed_over`**: what follows `testargs` changes nothing but what
  is handed over;
* `Handles`, `argsLoop_run`: a loop that ends is a run of arguments that are handled;
* `bootCmdLine_run`, `vars_of_run`, **`last_setting_wins`**: afterwards a variable has the value that the last
  argument gave it, or its default;
* `argsLoop_perm`, **`registration_order`**: the order in which the parts registered changes nothing
  but the help texts.
-/

namespace MeshNode.Cmdline

open CString Interact Keyed

/-- The functions that options call. -/
inductive Callback
  | cmdRealtimeFound
  | cmdNoRealtimeFound
  | cmdRtDriftFound
  | cmdRtRatioFound
  | cmdRtcoffsetFound
  | cmdRtcresetFound
  | cmdStopAtFound
  | traceEnableColor
  | traceDisableColor
  | traceForceColor
  /-- A callback of another part. -/
  | other (n : ℕ)

/-! ### The options of the program -/

/-- An option with no value and a callback. -/
def switchOption (option name : Str) (callback : Callback) (descript : Str) : ArgsStruct Callback :=
  ⟨false, false, true, option, name, 98, none, some callback, descript⟩

/-- An option with a value of type `double`. -/
def doubleOption (option name : Str) (dest : ℕ) (callback : Callback) (descript : Str) :
    ArgsStruct Callback :=
  ⟨false, false, false, option, name, 100, some dest, some callback, descript⟩

/-- `timer_options`. The members of `args` are the variables 0 to 3. -/
def timerOptions : List (ArgsStruct Callback) := [
  switchOption (str "rt") (str "") .cmdRealtimeFound (str ("Slow down the execution to the host " ++
    "real time, or a ratio of it (see --rt-ratio below)")),
  switchOption (str "no-rt") (str "") .cmdNoRealtimeFound (str ("Do NOT slow down the execution " ++
    "to real time, but advance Zephyr's time as fast as possible and decoupled from the host " ++
    "time")),
  doubleOption (str "rt-drift") (str "dratio") 2 .cmdRtDriftFound (str ("Drift of the simulated " ++
    "clock relative to the host real time. Normally this would be set to a value of a few ppm " ++
    "(e.g. 50e-6) This option has no effect in non real time mode")),
  doubleOption (str "rt-ratio") (str "ratio") 3 .cmdRtRatioFound (str ("Relative speed of the " ++
    "simulated time vs real time. For ex. set to 2 to have simulated time pass at double the " ++
    "speed of real time. Note that both rt-drift & rt-ratio adjust the same clock speed, and " ++
    "therefore it does not make sense to use them simultaneously. This option has no effect in " ++
    "non real time mode")),
  doubleOption (str "rtc-offset") (str "time_offset") 1 .cmdRtcoffsetFound (str ("At boot offset " ++
    "the RTC clock by this amount of seconds")),
  switchOption (str "rtc-reset") (str "") .cmdRtcresetFound (str ("Start the simulated real time " ++
    "clock at 0. Otherwise it starts matching the value provided by the host real time clock")),
  doubleOption (str "stop_at") (str "time") 0 .cmdStopAtFound (str ("In simulated seconds, when " ++
    "to stop automatically"))]

/-- `trace_options`. -/
def traceOptions : List (ArgsStruct Callback) := [
  switchOption (str "color") (str "color") .traceEnableColor
    (str "(default) Enable color in traces if printing to console"),
  switchOption (str "no-color") (str "no-color") .traceDisableColor
    (str "Disable color in traces even if printing to console"),
  switchOption (str "force-color") (str "force-color") .traceForceColor
    (str "Enable color in traces even if printing to files/pipes")]

/-- `"testargs"`. -/
def testargs : Str := str "testargs"

/-- `testargs_options`. -/
def testargsOptions : List (ArgsStruct Callback) := [
  ⟨true, false, false, testargs, str "arg", 108, none, none, str ("Any argument that follows will " ++
    "be ignored by the top level, and made available for possible tests")⟩]

/-! ### Handling the command line -/

variable {C D G : Type}

/-- The text of `print_invalid_opt_error`. -/
def invalidOption (argv : Str) : List UInt8 :=
  lit "Incorrect option '" ++ argv.val ++
    lit "'. Did you misspell it? Is that feature supported in this build?\n"

/-- The loop of `native_handle_cmd_line`: what is behind `testargs`, if it is there, and the
variables. -/
def argsLoop (P : Platform C D G) (args : List (ArgsStruct C)) :
    List Str → Env D G → Except Exit (Option (List Str) × Env D G)
  | [], e => .ok (none, e)
  | argv :: rest, e =>
    match cmdIsOption argv testargs false with
    | .error x => .error x
    | .ok ret =>
      if ret ≠ 0 then .ok (some rest, e)
      else match cmdParseOneArg P argv args e with
        | .error x => .error x
        | .ok (true, e) => argsLoop P args rest e
        | .ok (false, _) =>
          match cmdPrintSwitchesHelp P.junk args with
          | some t => .error (printErrorAndExit t (invalidOption argv))
          | none => .error .fault

/-- What `native_get_cmd_line_args` and `native_get_test_cmd_line_args` return, and the
variables. -/
structure CmdLine (D G : Type) where
  args : List Str
  testArgs : Option (List Str)
  env : Env D G

/-- `native_handle_cmd_line` behind the registration of its own options. -/
def handleArgs (P : Platform C D G) (args : List (ArgsStruct C)) (argv : List Str) (e : Env D G) :
    Except Exit (CmdLine D G) :=
  (cmdArgsSetDefaults P args e).bind fun e =>
    (argsLoop P args argv.tail e).map fun r => ⟨argv, r.1, r.2⟩

/-- `native_handle_cmd_line`. -/
def nativeHandleCmdLine (P : Platform Callback D G) (realloc : Realloc Callback) (argv : List Str)
    (r : Registry Callback) (e : Env D G) : Except Exit (CmdLine D G) :=
  (nativeAddCommandLineOpts realloc r traceOptions).bind fun r =>
    (nativeAddCommandLineOpts realloc r testargsOptions).bind fun r =>
      match r.argsStruct with
      | none => .error .fault
      | some block => handleArgs P (readTable block) argv e

/-- The command line of a program whose parts registered their options before. -/
def bootCmdLine (P : Platform Callback D G) (realloc : Realloc Callback)
    (parts : List (List (ArgsStruct Callback))) (argv : List Str) (e : Env D G) :
    Except Exit (CmdLine D G) :=
  (addParts realloc parts .boot).bind fun r => nativeHandleCmdLine P realloc argv r e

/-- All that is added to the table, part by part. -/
def allParts (parts : List (List (ArgsStruct Callback))) : List (List (ArgsStruct Callback)) :=
  parts ++ [traceOptions, testargsOptions]

/-- The whole table of a program. -/
def wholeTable (parts : List (List (ArgsStruct Callback))) : List (ArgsStruct Callback) :=
  parts.flatten ++ (traceOptions ++ testargsOptions)

theorem flatten_allParts (parts : List (List (ArgsStruct Callback))) :
    (allParts parts).flatten = wholeTable parts := by
  simp [allParts, wholeTable]

/-- The options of `native_handle_cmd_line` are two parts more. -/
theorem bootCmdLine_eq_addParts (P : Platform Callback D G) (realloc : Realloc Callback)
    (parts : List (List (ArgsStruct Callback))) (argv : List Str) (e : Env D G) :
    bootCmdLine P realloc parts argv e = (addParts realloc (allParts parts) .boot).bind fun r =>
      match r.argsStruct with
      | none => .error .fault
      | some block => handleArgs P (readTable block) argv e := by
  rw [bootCmdLine, allParts, addParts_append]
  cases addParts realloc parts .boot with
  | error x => rfl
  | ok r =>
    rw [Except.bind, Except.bind, nativeHandleCmdLine, addParts]
    cases nativeAddCommandLineOpts realloc r traceOptions with
    | error x => rfl
    | ok r =>
      rw [Except.bind, Except.bind, addParts]
      cases nativeAddCommandLineOpts realloc r testargsOptions <;> rfl

/-- **The command line is handled with the whole table**, unless there was no memory for it. -/
theorem bootCmdLine_eq {realloc : Realloc Callback} (hr : Reallocates realloc)
    (P : Platform Callback D G) (parts : List (List (ArgsStruct Callback))) (argv : List Str)
    (e : Env D G) :
    bootCmdLine P realloc parts argv e = handleArgs P (wholeTable parts) argv e ∨
      bootCmdLine P realloc parts argv e = .error outOfMemory ∧
        Refused realloc (allParts parts) .boot := by
  have hm : ∀ args ∈ allParts parts, args.length ≤ (allParts parts).flatten.length :=
    fun args h => (List.sublist_flatten_of_mem h).length_le
  rw [bootCmdLine_eq_addParts]
  obtain ⟨r, h, hold, hsome, -⟩ | ⟨h, hn⟩ := holds_boot.addParts hr _ hm (Nat.zero_le _)
  · obtain ⟨block, hb⟩ := Option.ne_none_iff_exists'.mp (hsome (by simp [allParts]))
    have htable : readTable block = wholeTable parts := by
      rw [hold.readTable_eq hb, List.nil_append, flatten_allParts]
    left
    rw [h, Except.bind, hb]
    dsimp only
    rw [htable]
  · exact .inr ⟨by rw [h]; rfl, hn⟩

/-! ### The arguments behind `testargs` -/

theorem cmdIsOption_testargs (argv : Str) : cmdIsOption argv testargs false =
    .ok (if Dashed testargs.val argv.val then argv.val.length else 0) :=
  cmdIsOption_switch (by decide)

theorem length_of_dashed {body arg : List UInt8} (h : Dashed body arg) :
    body.length ≤ arg.length := by
  obtain rfl | rfl | rfl := h
  · exact le_rfl
  · exact Nat.le_succ _
  · exact Nat.le_add_right _ 2

theorem argsLoop_cons_testargs (P : Platform C D G) (args : List (ArgsStruct C)) {argv : Str}
    (h : Dashed testargs.val argv.val) (rest : List Str) (e : Env D G) :
    argsLoop P args (argv :: rest) e = .ok (some rest, e) := by
  have hpos : argv.val.length ≠ 0 := by
    have := length_of_dashed h
    have : testargs.val.length = 8 := by decide
    omega
  rw [argsLoop, cmdIsOption_testargs, if_pos h]
  simp [hpos]

/-- Any other argument is handled, or it ends the process. -/
theorem argsLoop_cons (P : Platform C D G) (args : List (ArgsStruct C)) {argv : Str}
    (h : ¬ Dashed testargs.val argv.val) (rest : List Str) (e : Env D G) :
    argsLoop P args (argv :: rest) e = match cmdParseOneArg P argv args e with
      | .error x => .error x
      | .ok (true, e) => argsLoop P args rest e
      | .ok (false, _) =>
        match cmdPrintSwitchesHelp P.junk args with
        | some t => .error (printErrorAndExit t (invalidOption argv))
        | none => .error .fault := by
  rw [argsLoop, cmdIsOption_testargs, if_neg h]
  rfl

/-- **What is behind `testargs` is not looked at.** -/
theorem argsLoop_testargs (P : Platform C D G) (args : List (ArgsStruct C)) {before : List Str}
    (hb : ∀ a ∈ before, ¬ Dashed testargs.val a.val) {ta : Str}
    (hta : Dashed testargs.val ta.val) (rest : List Str) (e : Env D G) :
    argsLoop P args (before ++ ta :: rest) e =
      (argsLoop P args before e).map fun r => (some rest, r.2) := by
  induction before generalizing e with
  | nil => exact argsLoop_cons_testargs P args hta rest e
  | cons a before ih =>
    obtain ⟨ha, hb⟩ := List.forall_mem_cons.mp hb
    rw [List.cons_append, argsLoop_cons P args ha, argsLoop_cons P args ha]
    match cmdParseOneArg P a args e with
    | .error x => rfl
    | .ok (true, e) => exact ih hb e
    | .ok (false, e) => cases cmdPrintSwitchesHelp P.junk args <;> rfl

theorem handleArgs_testargs (P : Platform C D G) (args : List (ArgsStruct C)) (prog : Str)
    {before : List Str} (hb : ∀ a ∈ before, ¬ Dashed testargs.val a.val) {ta : Str}
    (hta : Dashed testargs.val ta.val) (rest : List Str) (e : Env D G) :
    handleArgs P args (prog :: (before ++ ta :: rest)) e =
      (handleArgs P args (prog :: before) e).map fun c =>
        { c with args := prog :: (before ++ ta :: rest), testArgs := some rest } := by
  rw [handleArgs, handleArgs]
  cases cmdArgsSetDefaults P args e with
  | error x => rfl
  | ok e =>
    simp only [Except.bind, List.tail_cons, argsLoop_testargs P args hb hta]
    cases argsLoop P args before e <;> rfl

/-- **What follows `testargs` is handed over, and changes nothing else**: with anything behind it
the command line does what it does without, except that it keeps these arguments. -/
theorem testargs_handed_over (P : Platform Callback D G) (realloc : Realloc Callback)
    (parts : List (List (ArgsStruct Callback))) (prog : Str) {before : List Str}
    (hb : ∀ a ∈ before, ¬ Dashed testargs.val a.val) {ta : Str}
    (hta : Dashed testargs.val ta.val) (rest : List Str) (e : Env D G) :
    bootCmdLine P realloc parts (prog :: (before ++ ta :: rest)) e =
      (bootCmdLine P realloc parts (prog :: before) e).map fun c =>
        { c with args := prog :: (before ++ ta :: rest), testArgs := some rest } := by
  rw [bootCmdLine_eq_addParts, bootCmdLine_eq_addParts]
  cases addParts realloc (allParts parts) .boot with
  | error x => rfl
  | ok r =>
    rw [Except.bind, Except.bind]
    cases r.argsStruct with
    | none => rfl
    | some block => exact handleArgs_testargs P _ prog hb hta rest e

/-- A host whose callbacks do nothing, with `long` of 64 bits and without floating point. -/
def silentHost : Platform Callback Unit Unit :=
  ⟨64, (), fun s => ((), s.drop s.length), fun _ _ _ e => .ok e, Vector.replicate _ 0⟩

/-- An option of another part. -/
def countOption : ArgsStruct Callback :=
  ⟨false, false, false, str "count", str "n", 117, some 4, none, str "How often"⟩

def emptyEnv : Env Unit Unit := ⟨fun _ => .bool false, ()⟩

theorem testargs_handed_over_count :
    bootCmdLine silentHost (padded _) [[countOption]]
        [str "prog", str "--count=5", str "--testargs", str "-h"] emptyEnv =
      (bootCmdLine silentHost (padded _) [[countOption]] [str "prog", str "--count=5"]
        emptyEnv).map fun c =>
          { c with
            args := [str "prog", str "--count=5", str "--testargs", str "-h"]
            testArgs := some [str "-h"] } :=
  have hb : ∀ a ∈ [str "--count=5"], ¬ Dashed testargs.val a.val := by decide
  have hta : Dashed testargs.val (str "--testargs").val := by decide
  testargs_handed_over silentHost (padded _) [[countOption]] (str "prog") hb hta [str "-h"] emptyEnv

/-! ### The last setting wins -/

/-- An argument is handled. -/
def Handles (P : Platform C D G) (args : List (ArgsStruct C)) : Lts Str (Env D G) :=
  fun e argv e' => cmdParseOneArg P argv args e = .ok (true, e')

/-- **A loop that ends** stopped at `testargs` or at the end, and handled the arguments up to
there. -/
theorem argsLoop_run {P : Platform C D G} {args : List (ArgsStruct C)} {argv : List Str}
    {e : Env D G} {r : Option (List Str) × Env D G} (h : argsLoop P args argv e = .ok r) :
    ∃ before, (∀ a ∈ before, ¬ Dashed testargs.val a.val) ∧
      (match r.1 with
        | none => argv = before
        | some rest => ∃ ta, Dashed testargs.val ta.val ∧ argv = before ++ ta :: rest) ∧
      (Handles P args).Run e before r.2 := by
  induction argv generalizing e with
  | nil =>
    obtain rfl := Except.ok.inj h
    exact ⟨[], by simp, rfl, .nil e⟩
  | cons a argv ih =>
    by_cases ha : Dashed testargs.val a.val
    · rw [argsLoop_cons_testargs P args ha] at h
      obtain rfl := Except.ok.inj h
      exact ⟨[], by simp, ⟨a, ha, rfl⟩, .nil e⟩
    · rw [argsLoop_cons P args ha] at h
      cases hp : cmdParseOneArg P a args e with
      | error x => simp [hp] at h
      | ok p =>
        obtain ⟨b, e₁⟩ := p
        rw [hp] at h
        cases b with
        | false => cases hs : cmdPrintSwitchesHelp P.junk args <;> simp [hs] at h
        | true =>
          obtain ⟨before, hb, hr, hrun⟩ := ih h
          refine ⟨a :: before, List.forall_mem_cons.mpr ⟨ha, hb⟩, ?_, .cons hp hrun⟩
          cases hr₁ : r.1 with
          | none =>
            rw [hr₁] at hr
            exact congrArg _ hr
          | some rest =>
            rw [hr₁] at hr
            obtain ⟨ta, hta, rfl⟩ := hr
            exact ⟨ta, hta, rfl⟩

/-- **Arguments that are handled** make their assignments. -/
theorem vars_of_run {P : Platform C D G} {args : List (ArgsStruct C)} {before : List Str}
    {e e' : Env D G} (h : (Handles P args).Run e before e') {x : ℕ} (hx : Untouched P x) :
    e'.vars x = assign e.vars (before.flatMap (writes P args)) x := by
  induction h with
  | nil => rfl
  | cons hp _ ih =>
    rw [ih, List.flatMap_cons, assign_append]
    exact assign_congr (cmdParseOneArg_vars hx hp) _

/-- **A command line that is handled**: the arguments in front of `testargs` were handled one after
the other, from the defaults on. -/
theorem bootCmdLine_run {realloc : Realloc Callback} (hr : Reallocates realloc)
    {P : Platform Callback D G} {parts : List (List (ArgsStruct Callback))} {argv : List Str}
    {e : Env D G} {c : CmdLine D G} (h : bootCmdLine P realloc parts argv e = .ok c) :
    c.args = argv ∧ ∃ before, (∀ a ∈ before, ¬ Dashed testargs.val a.val) ∧
      (match c.testArgs with
        | none => argv.tail = before
        | some rest => ∃ ta, Dashed testargs.val ta.val ∧ argv.tail = before ++ ta :: rest) ∧
      (Handles P (wholeTable parts)).Run
        { e with vars := assign e.vars (defaults P (wholeTable parts)) } before c.env := by
  obtain heq | ⟨heq, -⟩ := bootCmdLine_eq hr P parts argv e
  swap
  · simp [heq] at h
  rw [heq, handleArgs] at h
  cases hd : cmdArgsSetDefaults P (wholeTable parts) e with
  | error x => simp [hd, Except.bind] at h
  | ok e₁ =>
    rw [hd, Except.bind] at h
    obtain rfl := cmdArgsSetDefaults_eq_ok P hd
    cases hl : argsLoop P (wholeTable parts) argv.tail
        { e with vars := assign e.vars (defaults P (wholeTable parts)) } with
    | error x => simp [hl, Except.map] at h
    | ok r =>
      rw [hl] at h
      obtain rfl := Except.ok.inj h
      exact ⟨rfl, argsLoop_run hl⟩

/-- **The last setting wins**: when the command line was handled, every variable that no callback
writes has the value of the last argument in front of `testargs` that is an option for it, and
without such an argument its default. -/
theorem last_setting_wins {realloc : Realloc Callback} (hr : Reallocates realloc)
    {P : Platform Callback D G} {parts : List (List (ArgsStruct Callback))} {argv : List Str}
    {e : Env D G} {c : CmdLine D G} (h : bootCmdLine P realloc parts argv e = .ok c) :
    c.args = argv ∧ ∃ before, (∀ a ∈ before, ¬ Dashed testargs.val a.val) ∧
      (match c.testArgs with
        | none => argv.tail = before
        | some rest => ∃ ta, Dashed testargs.val ta.val ∧ argv.tail = before ++ ta :: rest) ∧
      ∀ x, Untouched P x → c.env.vars x =
        ((((defaults P (wholeTable parts) ++ before.flatMap (writes P (wholeTable parts))).filter
          (·.1 = x)).getLast?).map Prod.snd).getD (e.vars x) := by
  obtain ⟨hargs, before, hb, hrest, hrun⟩ := bootCmdLine_run hr h
  refine ⟨hargs, before, hb, hrest, fun x hx => ?_⟩
  rw [← assign_apply, assign_append, vars_of_run hrun hx]

/-- The count is 7, not 5 and not 9, which is behind `testargs`. -/
theorem last_setting_wins_count :
    ∃ c, bootCmdLine silentHost (padded _) [[countOption]]
        [str "prog", str "--count=5", str "-count:7", str "--testargs", str "--count=9"] emptyEnv =
          .ok c ∧
      c.env.vars 4 = .u32 7 := by
  have hok : (bootCmdLine silentHost (padded _) [[countOption]]
      [str "prog", str "--count=5", str "-count:7", str "--testargs", str "--count=9"]
        emptyEnv).toOption.map (·.testArgs) = some (some [str "--count=9"]) := by decide +kernel
  cases h : bootCmdLine silentHost (padded _) [[countOption]]
      [str "prog", str "--count=5", str "-count:7", str "--testargs", str "--count=9"]
        emptyEnv with
  | error x => simp [h, Except.toOption] at hok
  | ok c =>
    rw [h] at hok
    have htest : c.testArgs = some [str "--count=9"] := Option.some.inj hok
    obtain ⟨-, before, -, hrest, hvars⟩ := last_setting_wins reallocates_padded h
    rw [htest] at hrest
    obtain ⟨ta, -, hrest⟩ := hrest
    -- what is in front of `testargs` are the first two arguments
    have hsplit : [str "--count=5", str "-count:7"] ++ [str "--testargs", str "--count=9"] =
        before ++ [ta, str "--count=9"] := hrest
    obtain ⟨rfl, -⟩ := List.append_inj' hsplit rfl
    refine ⟨c, rfl, (hvars 4 ?_).trans (by rfl)⟩
    rintro _ argv ret e e' hcb
    rw [Except.ok.inj hcb]

/-! ### The order of registration -/

/-- How the process ends, but for what is on its standard output. -/
def Exit.hideStdout : Exit → Exit
  | .exit code _ stderr => .exit code [] stderr
  | .fault => .fault

/-- **One argument** is handled alike with the table in any order. -/
theorem cmdParseOneArg_perm (P : Platform C D G) {args args' : List (ArgsStruct C)}
    (hs : Sound args) (h : args.Perm args') (argv : Str) (e : Env D G) :
    (cmdParseOneArg P argv args e).mapError Exit.hideStdout =
      (cmdParseOneArg P argv args' e).mapError Exit.hideStdout := by
  obtain ⟨_, _, -, -, -, ht, -⟩ := cmdPrintLongHelp_eq P.junk args
  obtain ⟨_, _, -, -, -, ht', -⟩ := cmdPrintLongHelp_eq P.junk args'
  rw [cmdParseOneArg, cmdParseOneArg]
  split_ifs
  · rw [ht, ht']
    rfl
  · rw [parseLoop_eq, parseLoop_eq, findOption_perm hs h]

theorem argsLoop_perm (P : Platform C D G) {args args' : List (ArgsStruct C)} (hs : Sound args)
    (h : args.Perm args') (argv : List Str) (e : Env D G) :
    (argsLoop P args argv e).mapError Exit.hideStdout =
      (argsLoop P args' argv e).mapError Exit.hideStdout := by
  induction argv generalizing e with
  | nil => rfl
  | cons a argv ih =>
    by_cases ha : Dashed testargs.val a.val
    · rw [argsLoop_cons_testargs P args ha, argsLoop_cons_testargs P args' ha]
    · obtain ⟨_, _, -, -, ht, -⟩ := cmdPrintLongHelp_eq P.junk args
      obtain ⟨_, _, -, -, ht', -⟩ := cmdPrintLongHelp_eq P.junk args'
      have hp := cmdParseOneArg_perm P hs h a e
      rw [argsLoop_cons P args ha, argsLoop_cons P args' ha, ht, ht']
      match hr : cmdParseOneArg P a args e, hr' : cmdParseOneArg P a args' e with
      | .error x, .error x' =>
        rw [hr, hr'] at hp
        exact congrArg Except.error (Except.error.inj hp)
      | .error x, .ok r' => simp [hr, hr', Except.mapError] at hp
      | .ok r, .error x' => simp [hr, hr', Except.mapError] at hp
      | .ok (b, e₁), .ok r' =>
        rw [hr, hr'] at hp
        obtain rfl := Except.ok.inj hp
        cases b with
        | true => exact ih e₁
        | false => rfl

theorem handleArgs_perm (P : Platform C D G) {args args' : List (ArgsStruct C)} (hs : Sound args)
    (h : args.Perm args') (argv : List Str) (e : Env D G) :
    (handleArgs P args argv e).mapError Exit.hideStdout =
      (handleArgs P args' argv e).mapError Exit.hideStdout := by
  have htyped : ∀ el ∈ args', el.dest ≠ none → el.type ∈ typeLetters :=
    fun el hel => hs.typed el (h.mem_iff.mpr hel)
  rw [handleArgs, handleArgs, exists_defaults P hs.typed, exists_defaults P htyped,
    defaults_perm P hs h, Except.bind, Except.bind]
  have hl := argsLoop_perm P hs h argv.tail
    { e with vars := assign e.vars (defaults P args') }
  match hr : argsLoop P args argv.tail _, hr' : argsLoop P args' argv.tail _ with
  | .error x, .error x' =>
    rw [hr, hr'] at hl
    exact congrArg Except.error (Except.error.inj hl)
  | .error x, .ok r' => simp [hr, hr', Except.mapError] at hl
  | .ok r, .error x' => simp [hr, hr', Except.mapError] at hl
  | .ok r, .ok r' =>
    rw [hr, hr'] at hl
    obtain rfl := Except.ok.inj hl
    rfl

/-- **The order of registration does not matter**: with a sound table, a program whose parts
register in another order handles every command line in the same way and to the same end, but for
the order of its help texts, where there is memory for the options in either order. -/
theorem registration_order {realloc : Realloc Callback} (hr : Reallocates realloc)
    (P : Platform Callback D G) {parts parts' : List (List (ArgsStruct Callback))}
    (h : parts.Perm parts') (hmem : ¬ Refused realloc (allParts parts) .boot)
    (hmem' : ¬ Refused realloc (allParts parts') .boot) (hs : Sound (wholeTable parts))
    (argv : List Str) (e : Env D G) :
    (bootCmdLine P realloc parts argv e).mapError Exit.hideStdout =
      (bootCmdLine P realloc parts' argv e).mapError Exit.hideStdout := by
  obtain heq | ⟨-, hn⟩ := bootCmdLine_eq hr P parts argv e
  swap
  · exact absurd hn hmem
  obtain heq' | ⟨-, hn⟩ := bootCmdLine_eq hr P parts' argv e
  swap
  · exact absurd hn hmem'
  rw [heq, heq']
  exact handleArgs_perm P hs (h.flatten.append_right _) argv e

/-- The options of the program itself are a sound table, and leave room for others. -/
theorem sound_wholeTable : Sound (wholeTable [timerOptions, [countOption]]) :=
  ⟨by decide +kernel, by decide +kernel, by decide +kernel, by decide +kernel⟩

theorem registration_order_count :
    (bootCmdLine silentHost (padded _) [timerOptions, [countOption]] [str "prog", str "-h"]
        emptyEnv).mapError Exit.hideStdout =
      (bootCmdLine silentHost (padded _) [[countOption], timerOptions] [str "prog", str "-h"]
        emptyEnv).mapError Exit.hideStdout :=
  registration_order reallocates_padded silentHost (.swap _ _ _) (not_refused_padded _ _)
    (not_refused_padded _ _) sound_wholeTable _ _

end MeshNode.Cmdline
