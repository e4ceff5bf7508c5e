import MeshNode.Lib.Keyed
import MeshNode.NativePosix.Help

/-!
# Arguments

An argument is handled by the first option of the table that it matches: a value is read and stored,
and a callback called. Floating point, the callbacks and what an array on the stack holds before it
is written are parameters.

* `Value`, `Platform`, `Env`: values of variables, the parameters, what handling changes;
* `cmdReadOptionValue`, `cmdArgsSetDefaults`, `cmdHandleThisMatchedArg`, `cmdParseOneArg`;
* `findOption`, `parseLoop_eq`: the search and the handling apart from each other;
* `defaults`, `cmdArgsSetDefaults_eq_ok`, `writes`, `parseOneArg_vars`: both as assignments;
* `Sound`: option tables in which no name is used twice, `eq_of_matches`: then at most one option
  matches an argument;
* `findOption_perm`, `defaults_perm`: the order of a sound table does not matter.
-/

namespace MeshNode.Cmdline

open CString Keyed

/-- A variable with its value, of type `D` for `double`. -/
inductive Value (D : Type)
  | bool (b : Bool)
  | string (s : Option (List UInt8))
  | u32 (n : UInt32)
  | u64 (n : UInt64)
  | i32 (z : Int32)
  | i64 (z : Int64)
  | double (x : D)

/-- The variables that options point to, and everything else that callbacks change. -/
structure Env (D G : Type) where
  vars : ℕ → Value D
  rest : G

/-- What the code relies on. -/
structure Platform (C D G : Type) where
  /-- The bits of `long`. -/
  long : ℕ
  nan : D
  strtod : List UInt8 → D × List UInt8
  callback : C → Str → ℕ → Env D G → Except Exit (Env D G)
  junk : Vector UInt8 maxStringyLen

variable {C D G : Type}

/-- Store into the variable at an address. -/
def Env.set (e : Env D G) (dest : ℕ) (v : Value D) : Env D G :=
  { e with vars := Function.update e.vars dest v }

/-! ### Reading a value -/

/-- What a text is as a value of some type. -/
inductive Conversion (D : Type)
  /-- The type is not understood. -/
  | unknown
  /-- `error` is set. -/
  | wrong
  /-- The value, and the text at `endptr`. -/
  | value (v : Value D) (rest : List UInt8)

/-- The values of a boolean option. -/
def readBool (s : List UInt8) : Option Bool :=
  if strcaseeq s (lit "false") then some false
  else if s = lit "0" then some false
  else if strcaseeq s (lit "true") then some true
  else if s = lit "1" then some true
  else none

/-- The `switch` of `cmd_read_option_value`. -/
def convert (P : Platform C D G) (type : UInt8) (s : List UInt8) : Conversion D :=
  if type = 98 then
    match readBool s with
    | some b => .value (.bool b) []
    | none => .wrong
  else if type = 115 then .value (.string (some s)) []
  else if type = 117 then .value (.u32 (.ofNat (strtoul P.long s).1)) (strtoul P.long s).2
  else if type = 85 then .value (.u64 (.ofNat (strtoul 64 s).1)) (strtoul 64 s).2
  else if type = 105 then .value (.i32 (.ofInt (strtol P.long s).1)) (strtol P.long s).2
  else if type = 73 then .value (.i64 (.ofInt (strtol 64 s).1)) (strtol 64 s).2
  else if type = 100 then .value (.double (P.strtod s).1) (P.strtod s).2
  else .unknown

/-- `CMD_TYPE_ERROR`. -/
def typeError (type : UInt8) : List UInt8 :=
  lit "Coding error: type " ++ type :: lit " not understood"

def valueError (option : Str) (s : List UInt8) : List UInt8 :=
  lit "Error reading value of " ++ option.val ++ lit " '" ++ s ++
    lit "'. Use --help for usage information\n"

/-- `cmd_read_option_value`. What is stored before an error is lost with the process. -/
def cmdReadOptionValue (P : Platform C D G) (s : List UInt8) (dest : ℕ) (type : UInt8)
    (option : Str) (e : Env D G) : Except Exit (Env D G) :=
  match convert P type s with
  | .unknown => .error (printErrorAndExit [] (typeError type))
  | .wrong => .error (printErrorAndExit [] (valueError option s))
  | .value v rest =>
    if rest = [] then .ok (e.set dest v) else .error (printErrorAndExit [] (valueError option s))

/-! ### Defaults -/

/-- The value `cmd_args_set_defaults` gives a variable of some type, if it is understood. -/
def defaultOf (P : Platform C D G) (type : UInt8) : Option (Value D) :=
  if type = 98 then some (.bool false)
  else if type = 115 then some (.string none)
  else if type = 117 then some (.u32 (.ofNat (2 ^ 32 - 1)))
  else if type = 85 then some (.u64 (.ofNat (2 ^ 64 - 1)))
  else if type = 105 then some (.i32 (.ofInt (2 ^ 31 - 1)))
  else if type = 73 then some (.i64 (.ofInt (2 ^ 63 - 1)))
  else if type = 100 then some (.double P.nan)
  else none

/-- `cmd_args_set_defaults`. -/
def cmdArgsSetDefaults (P : Platform C D G) :
    List (ArgsStruct C) → Env D G → Except Exit (Env D G)
  | [], e => .ok e
  | el :: rest, e =>
    match el.dest with
    | none => cmdArgsSetDefaults P rest e
    | some dest =>
      if el.type = 0 then cmdArgsSetDefaults P rest e
      else match defaultOf P el.type with
        | some v => cmdArgsSetDefaults P rest (e.set dest v)
        | none => .error (printErrorAndExit [] (typeError el.type))

/-! ### Handling an argument -/

def switchError : List UInt8 :=
  lit "Programming error: I only know how to automatically read boolean switches\n"

/-- The storing half of `cmd_handle_this_matched_arg`. -/
def storeMatchedArg (P : Platform C D G) (argv : Str) (offset : ℕ) (el : ArgsStruct C)
    (e : Env D G) : Except Exit (Env D G) :=
  match el.dest with
  | none => .ok e
  | some dest =>
    if el.isSwitch then
      if el.type = 98 then .ok (e.set dest (.bool true))
      else .error (printErrorAndExit [] switchError)
    else cmdReadOptionValue P (argv.val.drop offset) dest el.type el.option e

/-- `cmd_handle_this_matched_arg`. -/
def cmdHandleThisMatchedArg (P : Platform C D G) (argv : Str) (offset : ℕ) (el : ArgsStruct C)
    (e : Env D G) : Except Exit (Env D G) :=
  (storeMatchedArg P argv offset el e).bind fun e =>
    match el.callWhenFound with
    | none => .ok e
    | some c => P.callback c argv offset e

/-- The loop of `cmd_parse_one_arg`. -/
def parseLoop (P : Platform C D G) (argv : Str) :
    List (ArgsStruct C) → Env D G → Except Exit (Bool × Env D G)
  | [], e => .ok (false, e)
  | el :: rest, e =>
    if el.manual then parseLoop P argv rest e
    else match cmdIsOption argv el.option (!el.isSwitch) with
      | .error x => .error x
      | .ok ret =>
        if ret ≠ 0 then (cmdHandleThisMatchedArg P argv ret el e).map fun e => (true, e)
        else parseLoop P argv rest e

/-- `cmd_parse_one_arg`. -/
def cmdParseOneArg (P : Platform C D G) (argv : Str) (args : List (ArgsStruct C)) (e : Env D G) :
    Except Exit (Bool × Env D G) :=
  if cmdIsHelpOption argv then
    match cmdPrintLongHelp P.junk args with
    | some t => .error (.exit 0 t [])
    | none => .error .fault
  else parseLoop P argv args e

/-! ### The search -/

/-- The option that handles an argument and where its value begins. -/
def findOption (argv : Str) : List (ArgsStruct C) → Except Exit (Option (ArgsStruct C × ℕ))
  | [] => .ok none
  | el :: rest =>
    if el.manual then findOption argv rest
    else match cmdIsOption argv el.option (!el.isSwitch) with
      | .error x => .error x
      | .ok ret => if ret ≠ 0 then .ok (some (el, ret)) else findOption argv rest

/-- Handle the option that was found. -/
def handleFound (P : Platform C D G) (argv : Str) (e : Env D G) :
    Option (ArgsStruct C × ℕ) → Except Exit (Bool × Env D G)
  | none => .ok (false, e)
  | some (el, ret) => (cmdHandleThisMatchedArg P argv ret el e).map fun e => (true, e)

/-- **The loop searches, then handles.** -/
theorem parseLoop_eq (P : Platform C D G) (argv : Str) (args : List (ArgsStruct C)) (e : Env D G) :
    parseLoop P argv args e = (findOption argv args).bind (handleFound P argv e) := by
  induction args with
  | nil => rfl
  | cons el rest ih =>
    rw [parseLoop, findOption]
    split_ifs with hm
    · exact ih
    · cases cmdIsOption argv el.option (!el.isSwitch) with
      | error x => rfl
      | ok ret =>
        dsimp only
        split_ifs with h
        · rfl
        · exact ih

/-- The option takes the argument, or ends the process over it. -/
def hits (argv : Str) (el : ArgsStruct C) : Bool :=
  !el.manual && match cmdIsOption argv el.option (!el.isSwitch) with
    | .ok 0 => false
    | _ => true

/-- The search stops at the first option of the table that takes the argument. -/
theorem findOption_eq (argv : Str) (args : List (ArgsStruct C)) : findOption argv args =
    match args.find? (hits argv) with
    | none => .ok none
    | some el => (cmdIsOption argv el.option (!el.isSwitch)).map fun ret => some (el, ret) := by
  induction args with
  | nil => rfl
  | cons el rest ih =>
    rw [findOption, List.find?_cons]
    cases hm : el.manual with
    | true => simpa [hits, hm] using ih
    | false =>
      cases hc : cmdIsOption argv el.option (!el.isSwitch) with
      | error x => simp [hits, hm, hc, Except.map]
      | ok ret =>
        cases ret with
        | zero => simpa [hits, hm, hc] using ih
        | succ n => simp [hits, hm, hc, Except.map]

/-! ### Sound tables -/

/-- The letters of the types that have storage, and 0 for none. -/
def typeLetters : List UInt8 := [0, 98, 115, 117, 85, 105, 73, 100]

/-- A table whose names have no dashes in front and no separators, and are used once; its variables
have one type each. -/
structure Sound (args : List (ArgsStruct C)) : Prop where
  plain : ∀ el ∈ args, el.manual = false →
    el.option.val.head? ≠ some 45 ∧ ∀ b ∈ el.option.val, isSeparator b = false
  distinct : ((args.filter fun el => !el.manual).map (·.option)).Nodup
  typed : ∀ el ∈ args, el.dest ≠ none → el.type ∈ typeLetters
  agree : ∀ el ∈ args, ∀ el' ∈ args, el.dest ≠ none → el.dest = el'.dest → el.type = el'.type

/-- The name an argument gives: behind the dashes, up to the separator. -/
def nameOf (arg : List UInt8) : List UInt8 :=
  (arg.drop (dashes arg)).takeWhile fun b => !isSeparator b

theorem nameOf_of_dashed {option arg : List UInt8} (ho : option.head? ≠ some 45)
    (hs : ∀ b ∈ option, isSeparator b = false) (h : Dashed option arg) : nameOf arg = option := by
  rw [nameOf, (dashed_iff ho).mp h]
  exact List.takeWhile_eq_self_iff.mpr fun b hb => by simp [hs b hb]

theorem nameOf_of_valued {option v arg : List UInt8} (ho : option.head? ≠ some 45)
    (hs : ∀ b ∈ option, isSeparator b = false) (h : Valued option v arg) : nameOf arg = option := by
  obtain ⟨sep, hsep, h⟩ := h
  rw [nameOf, (dashed_iff (head_append_separator ho hsep)).mp h,
    List.takeWhile_append_of_pos fun b hb => by simp [hs b hb],
    List.takeWhile_cons_of_neg (by simp [hsep]), List.append_nil]

/-- **An option takes only arguments that give its name.** -/
theorem nameOf_of_hits {args : List (ArgsStruct C)} (hs : Sound args) {argv : Str}
    {el : ArgsStruct C} (hel : el ∈ args) (h : hits argv el = true) :
    el.manual = false ∧ nameOf argv.val = el.option.val := by
  rw [hits, Bool.and_eq_true, Bool.not_eq_true'] at h
  obtain ⟨hm, h⟩ := h
  obtain ⟨ho, hsep⟩ := hs.plain el hel hm
  refine ⟨hm, ?_⟩
  by_cases hd : Dashed el.option.val argv.val
  · exact nameOf_of_dashed ho hsep hd
  by_cases hv : ∃ v, Valued el.option.val v argv.val
  · exact nameOf_of_valued ho hsep hv.choose_spec
  · exfalso
    have hzero : cmdIsOption argv el.option (!el.isSwitch) = .ok 0 := by
      cases el.isSwitch with
      | true => rw [Bool.not_true, cmdIsOption_switch ho, if_neg hd]
      | false => exact cmdIsOption_other hd fun v h => hv ⟨v, h⟩
    rw [hzero] at h
    exact Bool.false_ne_true h

/-- At most one option of a sound table takes an argument. -/
theorem eq_of_hits {args : List (ArgsStruct C)} (hs : Sound args) {argv : Str}
    {el el' : ArgsStruct C} (hel : el ∈ args) (hel' : el' ∈ args) (h : hits argv el = true)
    (h' : hits argv el' = true) : el = el' := by
  obtain ⟨hm, hn⟩ := nameOf_of_hits hs hel h
  obtain ⟨hm', hn'⟩ := nameOf_of_hits hs hel' h'
  exact List.inj_on_of_nodup_map hs.distinct (List.mem_filter.mpr ⟨hel, by simp [hm]⟩)
    (List.mem_filter.mpr ⟨hel', by simp [hm']⟩) (Subtype.ext (hn.symm.trans hn'))

/-- **The search does not depend on the order** of a sound table. -/
theorem findOption_perm {args args' : List (ArgsStruct C)} (hs : Sound args)
    (h : args.Perm args') (argv : Str) : findOption argv args = findOption argv args' := by
  rw [findOption_eq, findOption_eq,
    find?_eq_of_perm h fun el hel el' hel' => eq_of_hits hs hel hel']

/-! ### Everything as assignments -/

/-- The assignments of `cmd_args_set_defaults`. -/
def defaults (P : Platform C D G) (args : List (ArgsStruct C)) : List (ℕ × Value D) :=
  args.filterMap fun el => el.dest.bind fun dest => (defaultOf P el.type).map fun v => (dest, v)

theorem defaultOf_zero (P : Platform C D G) : defaultOf P 0 = none := by
  simp [defaultOf]

/-- **The defaults are assignments**, one for every variable of an understood type. -/
theorem cmdArgsSetDefaults_eq_ok (P : Platform C D G) {args : List (ArgsStruct C)}
    {e e' : Env D G} (h : cmdArgsSetDefaults P args e = .ok e') :
    e' = { e with vars := assign e.vars (defaults P args) } := by
  induction args generalizing e with
  | nil => exact (Except.ok.inj h).symm
  | cons el rest ih =>
    rw [cmdArgsSetDefaults] at h
    cases hd : el.dest with
    | none =>
      rw [hd] at h
      simpa [defaults, hd] using ih h
    | some dest =>
      rw [hd] at h
      dsimp only at h
      split_ifs at h with h0
      · simpa [defaults, hd, h0, defaultOf_zero] using ih h
      · cases hv : defaultOf P el.type with
        | none => simp [hv] at h
        | some v =>
          rw [hv] at h
          simpa [defaults, hd, hv, Env.set] using ih h

/-- With understood types only there is no other result. -/
theorem exists_defaults (P : Platform C D G) {args : List (ArgsStruct C)}
    (ht : ∀ el ∈ args, el.dest ≠ none → el.type ∈ typeLetters) (e : Env D G) :
    cmdArgsSetDefaults P args e = .ok { e with vars := assign e.vars (defaults P args) } := by
  suffices h : ∃ e', cmdArgsSetDefaults P args e = .ok e' by
    obtain ⟨e', h⟩ := h
    rw [h, cmdArgsSetDefaults_eq_ok P h]
  induction args generalizing e with
  | nil => exact ⟨e, rfl⟩
  | cons el rest ih =>
    obtain ⟨hel, hrest⟩ := List.forall_mem_cons.mp ht
    rw [cmdArgsSetDefaults]
    cases hd : el.dest with
    | none => exact ih hrest e
    | some dest =>
      dsimp only
      split_ifs with h0
      · exact ih hrest e
      · have : ∃ v, defaultOf P el.type = some v := by
          have := hel (by simp [hd])
          simp only [typeLetters, List.mem_cons, List.not_mem_nil, or_false, h0, false_or] at this
          obtain h | h | h | h | h | h | h := this <;> exact ⟨_, by rw [h]; rfl⟩
        obtain ⟨v, hv⟩ := this
        rw [hv]
        exact ih hrest _

/-- **The defaults do not depend on the order** of a sound table. -/
theorem defaults_perm (P : Platform C D G) {args args' : List (ArgsStruct C)} (hs : Sound args)
    (h : args.Perm args') (f : ℕ → Value D) :
    assign f (defaults P args) = assign f (defaults P args') := by
  refine assign_perm (h.filterMap _) ?_ f
  rintro w hw w' hw' hdest
  obtain ⟨el, hel, hw⟩ := List.mem_filterMap.mp hw
  obtain ⟨el', hel', hw'⟩ := List.mem_filterMap.mp hw'
  obtain ⟨d, hd, hw⟩ := Option.bind_eq_some_iff.mp hw
  obtain ⟨d', hd', hw'⟩ := Option.bind_eq_some_iff.mp hw'
  obtain ⟨v, hv, rfl⟩ := Option.map_eq_some_iff.mp hw
  obtain ⟨v', hv', rfl⟩ := Option.map_eq_some_iff.mp hw'
  obtain rfl : d = d' := hdest
  have := hs.agree el hel el' hel' (by simp [hd]) (hd.trans hd'.symm)
  exact Option.some.inj (hv.symm.trans (this ▸ hv'))

/-- The assignments that an option makes for an argument. -/
def written (P : Platform C D G) (argv : Str) (el : ArgsStruct C) (ret : ℕ) :
    List (ℕ × Value D) :=
  match el.dest with
  | none => []
  | some dest =>
    if el.isSwitch then [(dest, .bool true)]
    else match convert P el.type (argv.val.drop ret) with
      | .value v _ => [(dest, v)]
      | _ => []

/-- The assignments that an argument makes. -/
def writes (P : Platform C D G) (args : List (ArgsStruct C)) (argv : Str) : List (ℕ × Value D) :=
  match findOption argv args with
  | .ok (some (el, ret)) => written P argv el ret
  | _ => []

theorem storeMatchedArg_eq_ok {P : Platform C D G} {argv : Str} {ret : ℕ} {el : ArgsStruct C}
    {e e' : Env D G} (h : storeMatchedArg P argv ret el e = .ok e') :
    e' = { e with vars := assign e.vars (written P argv el ret) } := by
  rw [storeMatchedArg] at h
  rw [written]
  cases hd : el.dest with
  | none =>
    rw [hd] at h
    exact (Except.ok.inj h).symm
  | some dest =>
    rw [hd] at h
    dsimp only at h ⊢
    split_ifs at h ⊢ with hsw hb
    · exact (Except.ok.inj h).symm
    · rw [cmdReadOptionValue] at h
      cases hc : convert P el.type (argv.val.drop ret) with
      | unknown => simp [hc] at h
      | wrong => simp [hc] at h
      | value v rest =>
        simp only [hc] at h
        split_ifs at h
        exact (Except.ok.inj h).symm

/-- A variable that no callback changes. -/
def Untouched (P : Platform C D G) (x : ℕ) : Prop :=
  ∀ c argv ret e e', P.callback c argv ret e = .ok e' → e'.vars x = e.vars x

theorem cmdHandleThisMatchedArg_vars {P : Platform C D G} {argv : Str} {ret : ℕ}
    {el : ArgsStruct C} {e e' : Env D G} {x : ℕ} (hx : Untouched P x)
    (h : cmdHandleThisMatchedArg P argv ret el e = .ok e') :
    e'.vars x = assign e.vars (written P argv el ret) x := by
  rw [cmdHandleThisMatchedArg] at h
  cases hs : storeMatchedArg P argv ret el e with
  | error x => simp [hs, Except.bind] at h
  | ok e₁ =>
    have hvars : e₁.vars = assign e.vars (written P argv el ret) :=
      congrArg Env.vars (storeMatchedArg_eq_ok hs)
    rw [hs, Except.bind] at h
    rw [← hvars]
    cases hc : el.callWhenFound with
    | none =>
      rw [hc] at h
      rw [Except.ok.inj h]
    | some c =>
      rw [hc] at h
      exact hx c argv ret e₁ e' h

/-- **An argument that is handled** makes its assignments. -/
theorem cmdParseOneArg_vars {P : Platform C D G} {argv : Str} {args : List (ArgsStruct C)}
    {b : Bool} {e e' : Env D G} {x : ℕ} (hx : Untouched P x)
    (h : cmdParseOneArg P argv args e = .ok (b, e')) :
    e'.vars x = assign e.vars (writes P args argv) x := by
  rw [cmdParseOneArg] at h
  split_ifs at h with hhelp
  · cases ht : cmdPrintLongHelp P.junk args <;> simp [ht] at h
  rw [parseLoop_eq] at h
  rw [writes]
  cases hf : findOption argv args with
  | error x => simp [hf, Except.bind] at h
  | ok r =>
    rw [hf, Except.bind] at h
    cases r with
    | none =>
      obtain ⟨-, rfl⟩ := Prod.mk.inj (Except.ok.inj h)
      rfl
    | some r =>
      rw [handleFound] at h
      cases hh : cmdHandleThisMatchedArg P argv r.2 r.1 e with
      | error x => simp [hh, Except.map] at h
      | ok e₁ =>
        rw [hh] at h
        obtain ⟨-, rfl⟩ := Prod.mk.inj (Except.ok.inj h)
        exact cmdHandleThisMatchedArg_vars hx hh

end MeshNode.Cmdline
