import MeshNode.NativePosix.BoardOptions

/-!
# Settings as arguments

A setting of a variable is written as an argument: `--<option>` for a switch, `--<option>=<value>`
with the value in its text for the others. The command line reads it back.

* `textOf`, `OfType`: the text of a value, **`convert_textOf`**: it is read as the value;
* `Returns`: a callback that ends nothing and writes no variable;
* `Setting`, `write`: a setting that can be given, and the argument for it;
* `not_special_of_write`, `cmdIsOption_write`, `cmdParseOneArg_write`: the argument is one of the
  option, and handled by storing the value;
* **`command_line_round_trip`**: settings that are written as arguments are what is read.
-/

namespace MeshNode.Cmdline

open CString Keyed

variable {C D G : Type}

/-! ### Values -/

/-- The text of a value. -/
def textOf : Value D → List UInt8
  | .bool b => if b then lit "true" else lit "false"
  | .string s => s.getD []
  | .u32 n => fmtU n.toNat
  | .u64 n => fmtU n.toNat
  | .i32 z => fmtI z.toInt
  | .i64 z => fmtI z.toInt
  | .double _ => []

/-- A value of the type with this letter, but for `double`. An empty string cannot be given. -/
def OfType (P : Platform C D G) (type : UInt8) : Value D → Prop
  | .bool _ => type = 98
  | .string s => type = 115 ∧ s.getD [] ≠ [] ∧ s ≠ none
  | .u32 _ => type = 117 ∧ 32 ≤ P.long
  | .u64 _ => type = 85
  | .i32 _ => type = 105 ∧ 32 ≤ P.long
  | .i64 _ => type = 73
  | .double _ => False

theorem textOf_ne_nil {P : Platform C D G} {type : UInt8} {v : Value D} (h : OfType P type v) :
    textOf v ≠ [] := by
  cases v with
  | bool b =>
    have : lit "true" ≠ [] ∧ lit "false" ≠ [] := by decide
    cases b
    · exact this.2
    · exact this.1
  | string s => exact h.2.1
  | u32 n => exact fmtU_ne_nil _
  | u64 n => exact fmtU_ne_nil _
  | i32 z =>
    rw [textOf, fmtI]
    split_ifs
    · exact List.cons_ne_nil _ _
    · exact fmtU_ne_nil _
  | i64 z =>
    rw [textOf, fmtI]
    split_ifs
    · exact List.cons_ne_nil _ _
    · exact fmtU_ne_nil _
  | double x => exact h.elim

/-- **The text of a value is read as the value.** -/
theorem convert_textOf {P : Platform C D G} {type : UInt8} {v : Value D} (h : OfType P type v) :
    convert P type (textOf v) = .value v [] := by
  cases v with
  | bool b =>
    obtain rfl : type = 98 := h
    cases b <;> rfl
  | string s =>
    obtain ⟨rfl, -, hs⟩ := h
    obtain ⟨s, rfl⟩ := Option.ne_none_iff_exists'.mp hs
    rfl
  | u32 n =>
    obtain ⟨rfl, hlong⟩ := h
    have hn : n.toNat < 2 ^ P.long := n.toNat_lt.trans_le (Nat.pow_le_pow_right (by decide) hlong)
    simp [convert, textOf, strtoul_fmtU hn]
  | u64 n =>
    obtain rfl : type = 85 := h
    simp [convert, textOf, strtoul_fmtU n.toNat_lt]
  | i32 z =>
    obtain ⟨rfl, hlong⟩ := h
    have hpow : (2 : ℤ) ^ 31 ≤ 2 ^ (P.long - 1) := by
      exact_mod_cast Nat.pow_le_pow_right (n := 2) (by decide) (by omega : 31 ≤ P.long - 1)
    have h₁ := z.le_toInt
    have h₂ := z.toInt_lt
    simp [convert, textOf, strtol_fmtI (w := P.long) (z := z.toInt) (by omega) (by omega)]
  | i64 z =>
    obtain rfl : type = 73 := h
    simp [convert, textOf, strtol_fmtI (w := 64) (z := z.toInt) z.le_toInt z.toInt_lt]
  | double x => exact h.elim

/-! ### Settings -/

/-- The callback returns, and leaves the variables alone. -/
def Returns (P : Platform C D G) (c : C) : Prop :=
  ∀ argv ret e, ∃ g, P.callback c argv ret e = .ok ⟨e.vars, g⟩

/-- A setting: an option and the value for its variable, if it has one. -/
structure Setting (P : Platform C D G) (args : List (ArgsStruct C)) where
  el : ArgsStruct C
  value : Value D
  mem : el ∈ args
  notManual : el.manual = false
  /-- The name of a switch is not taken by the help or by `testargs`. -/
  ofSwitch : el.isSwitch = true → el.type = 98 ∧ value = .bool true ∧
    cmdIsHelpOption el.option = false ∧ el.option ≠ testargs
  ofValue : el.isSwitch = false → OfType P el.type value
  returns : ∀ c ∈ el.callWhenFound, Returns P c

/-- The argument for a setting. -/
def write {P : Platform C D G} {args : List (ArgsStruct C)} (s : Setting P args) : List UInt8 :=
  if s.el.isSwitch then 45 :: 45 :: s.el.option.val
  else 45 :: 45 :: (s.el.option.val ++ 61 :: textOf s.value)

/-- The assignment that a setting stands for. -/
def Setting.assigned {P : Platform C D G} {args : List (ArgsStruct C)} (s : Setting P args) :
    List (ℕ × Value D) :=
  (s.el.dest.map fun dest => (dest, s.value)).toList

/-- A text with a `=` is none of the three words for help. -/
theorem strcaseeq_eq_false {s t : List UInt8} (hs : 61 ∈ s) (ht : 61 ∉ t.map tolower) :
    strcaseeq s t = false := by
  rw [strcaseeq, beq_eq_false_iff_ne]
  intro h
  exact ht (h ▸ List.mem_map.mpr ⟨61, hs, rfl⟩)

section Write

variable {P : Platform C D G} {args : List (ArgsStruct C)} {argv : Str}

/-- A written setting is no help option and not `testargs`. -/
theorem not_special_of_write (hs : Sound args) (s : Setting P args) (h : argv.val = write s) :
    cmdIsHelpOption argv = false ∧ ¬ Dashed testargs.val argv.val := by
  obtain ⟨ho, hsep⟩ := hs.plain s.el s.mem s.notManual
  have htest : testargs.val.head? ≠ some 45 := by decide
  cases hsw : s.el.isSwitch with
  | true =>
    have hbody : argv.val.drop (dashes argv.val) = s.el.option.val := by
      rw [h, write, if_pos hsw]
      rfl
    obtain ⟨-, -, hhelp, hne⟩ := s.ofSwitch hsw
    have hself : s.el.option.val.drop (dashes s.el.option.val) = s.el.option.val :=
      drop_dashes_of_dashed ho (.inl rfl)
    constructor
    · rw [cmdIsHelpOption, hself] at hhelp
      rw [cmdIsHelpOption, hbody, hhelp]
    · rw [dashed_iff htest, hbody]
      exact fun h => hne (Subtype.ext h)
  | false =>
    have hbody : argv.val.drop (dashes argv.val) = s.el.option.val ++ 61 :: textOf s.value := by
      rw [h, write, hsw]
      rfl
    have hmem : (61 : UInt8) ∈ s.el.option.val ++ 61 :: textOf s.value := by simp
    constructor
    · rw [cmdIsHelpOption, hbody]
      simp only [Bool.or_eq_false_iff]
      exact ⟨⟨strcaseeq_eq_false hmem (by decide), strcaseeq_eq_false hmem (by decide)⟩,
        strcaseeq_eq_false hmem (by decide)⟩
    · rw [dashed_iff htest, hbody]
      intro h
      rw [h] at hmem
      exact absurd hmem (by decide)

/-- A written setting is an argument of its option, with the value behind it. -/
theorem cmdIsOption_write (hs : Sound args) (s : Setting P args) (h : argv.val = write s) :
    ∃ n, n ≠ 0 ∧ cmdIsOption argv s.el.option (!s.el.isSwitch) = .ok n ∧
      (s.el.isSwitch = false → argv.val.drop n = textOf s.value) := by
  obtain ⟨ho, hsep⟩ := hs.plain s.el s.mem s.notManual
  cases hsw : s.el.isSwitch with
  | true =>
    have hd : Dashed s.el.option.val argv.val := .inr (.inr (by rw [h, write, if_pos hsw]))
    refine ⟨argv.val.length, ?_, ?_, fun h => absurd h (by simp)⟩
    · rw [h, write, if_pos hsw]
      simp
    · rw [Bool.not_true, cmdIsOption_switch ho, if_pos hd]
  | false =>
    have hv : Valued s.el.option.val (textOf s.value) argv.val :=
      ⟨61, rfl, .inr (.inr (by rw [h, write, hsw]; rfl))⟩
    obtain ⟨n, hn, -, hdrop, hc⟩ := cmdIsOption_valued ho hv
    rw [if_neg (textOf_ne_nil (s.ofValue hsw))] at hc
    exact ⟨n, hn, hc, fun _ => hdrop⟩

/-- **A written setting is handled** by storing its value. -/
theorem cmdParseOneArg_write (hs : Sound args) (s : Setting P args) (h : argv.val = write s)
    (e : Env D G) :
    ∃ g, cmdParseOneArg P argv args e = .ok (true, ⟨assign e.vars s.assigned, g⟩) := by
  obtain ⟨hhelp, -⟩ := not_special_of_write hs s h
  obtain ⟨n, hn, hc, hdrop⟩ := cmdIsOption_write hs s h
  obtain ⟨k, rfl⟩ := Nat.exists_eq_succ_of_ne_zero hn
  have hhits : hits argv s.el = true := by
    rw [hits, hc, s.notManual]
    rfl
  -- no other option of the table takes the argument
  have hfind : args.find? (hits argv) = some s.el := by
    cases hf : args.find? (hits argv) with
    | none => exact absurd hhits (List.find?_eq_none.mp hf s.el s.mem)
    | some el =>
      exact congrArg some
        (eq_of_hits hs (List.mem_of_find?_eq_some hf) s.mem (List.find?_some hf) hhits)
  have hstore : storeMatchedArg P argv (k + 1) s.el e =
      .ok ⟨assign e.vars s.assigned, e.rest⟩ := by
    rw [storeMatchedArg, Setting.assigned]
    cases s.el.dest with
    | none => rfl
    | some dest =>
      cases hsw : s.el.isSwitch with
      | true =>
        obtain ⟨htype, hvalue, -⟩ := s.ofSwitch hsw
        simp [htype, hvalue, Env.set]
      | false => simp [cmdReadOptionValue, hdrop hsw, convert_textOf (s.ofValue hsw), Env.set]
  rw [cmdParseOneArg, hhelp, if_neg Bool.false_ne_true, parseLoop_eq, findOption_eq, hfind]
  simp only [hc, Except.map, Except.bind, handleFound, cmdHandleThisMatchedArg, hstore]
  cases hcall : s.el.callWhenFound with
  | none => exact ⟨e.rest, rfl⟩
  | some c =>
    obtain ⟨g, hg⟩ := s.returns c hcall argv (k + 1) ⟨assign e.vars s.assigned, e.rest⟩
    exact ⟨g, by simp only [hg]⟩

/-- **A run of written settings.** -/
theorem argsLoop_write (hs : Sound args) {settings : List (Setting P args)} {argvs : List Str}
    (h : argvs.map Subtype.val = settings.map write) (e : Env D G) :
    ∃ g, argsLoop P args argvs e =
      .ok (none, ⟨assign e.vars (settings.flatMap Setting.assigned), g⟩) := by
  induction settings generalizing argvs e with
  | nil =>
    obtain rfl : argvs = [] := List.map_eq_nil_iff.mp h
    exact ⟨e.rest, rfl⟩
  | cons s settings ih =>
    obtain ⟨a, argvs, rfl⟩ := List.exists_cons_of_ne_nil (l := argvs) (by rintro rfl; simp at h)
    obtain ⟨ha, h⟩ := List.cons.inj h
    obtain ⟨g, hg⟩ := cmdParseOneArg_write hs s ha e
    rw [argsLoop_cons P args (not_special_of_write hs s ha).2, hg, List.flatMap_cons, assign_append]
    exact ih h _

end Write

/-- **Settings come back**: in a sound table, settings that are written as arguments, each value in
its text, are what the variables hold after the command line was handled, the last one of a variable
winning over the others and over the default; where there is memory for the options. -/
theorem command_line_round_trip {realloc : Realloc Callback} (hr : Reallocates realloc)
    {P : Platform Callback D G} {parts : List (List (ArgsStruct Callback))}
    (hmem : ¬ Refused realloc (allParts parts) .boot) (hs : Sound (wholeTable parts))
    (settings : List (Setting P (wholeTable parts))) (prog : Str) {argvs : List Str}
    (h : argvs.map Subtype.val = settings.map write) (e : Env D G) :
    ∃ g, bootCmdLine P realloc parts (prog :: argvs) e = .ok ⟨prog :: argvs, none,
      ⟨assign e.vars (defaults P (wholeTable parts) ++ settings.flatMap Setting.assigned), g⟩⟩ := by
  obtain heq | ⟨-, hn⟩ := bootCmdLine_eq hr P parts (prog :: argvs) e
  swap
  · exact absurd hn hmem
  obtain ⟨g, hg⟩ := argsLoop_write hs h
    { e with vars := assign e.vars (defaults P (wholeTable parts)) }
  refine ⟨g, ?_⟩
  rw [heq, handleArgs, exists_defaults P hs.typed, Except.bind, List.tail_cons, hg, assign_append]
  rfl

/-- An option of another part, with a callback. -/
def pageOption : ArgsStruct Callback := { countOption with callWhenFound := some (.other 0) }

theorem sound_pageOption : Sound (wholeTable [timerOptions, [pageOption]]) :=
  ⟨by decide +kernel, by decide +kernel, by decide +kernel, by decide +kernel⟩

/-- The count set to 7. -/
def countSeven : Setting host64.platform (wholeTable [timerOptions, [pageOption]]) where
  el := pageOption
  value := .u32 7
  mem := by simp [wholeTable]
  notManual := rfl
  ofSwitch h := absurd h (by decide)
  ofValue _ := ⟨rfl, by decide⟩
  returns c hc := by
    obtain rfl := Option.some.inj hc
    exact fun argv ret e => ⟨(e.rest.1, e.rest.2 + 1), rfl⟩

/-- Real time: the first option of the timers. -/
def realTime : Setting host64.platform (wholeTable [timerOptions, [pageOption]]) where
  el := timerOptions.head (List.cons_ne_nil _ _)
  value := .bool true
  mem := List.mem_append_left _
    (List.mem_flatten_of_mem List.mem_cons_self (List.head_mem (List.cons_ne_nil _ _)))
  notManual := rfl
  ofSwitch _ := ⟨rfl, rfl, by decide, by decide⟩
  ofValue h := absurd h (by decide)
  returns c hc := by
    obtain rfl := Option.some.inj hc
    exact fun argv ret e => ⟨({ e.rest.1 with realTimeMode := true }, e.rest.2), rfl⟩

theorem command_line_round_trip_count :
    ∃ g, bootCmdLine host64.platform (padded _) [timerOptions, [pageOption]]
        [str "prog", str "--rt", str "--count=7"] startEnv =
      .ok ⟨[str "prog", str "--rt", str "--count=7"], none,
        ⟨assign startEnv.vars (defaults host64.platform (wholeTable [timerOptions, [pageOption]]) ++
          [(4, .u32 7)]), g⟩⟩ := by
  have h : [str "--rt", str "--count=7"].map Subtype.val = [realTime, countSeven].map write := by
    simp only [List.map_cons, List.map_nil]
    decide +kernel
  exact command_line_round_trip reallocates_padded (not_refused_padded _ _) sound_pageOption
    [realTime, countSeven] (str "prog") h startEnv

end MeshNode.Cmdline
