import MeshNode.Lib.Strto

/-!
# Options of the command line

An argument is compared with the name of an option. A switch is written `[-[-]]<option>`, an option
with a value `[-[-]]<option>{:|=}<value>`; without the value the process ends.

* `Str`, `ArgsStruct`, `Exit`: strings, the entries of an option table, how the process ends;
* `cmdIsOption`, `isOptionLoop`: the comparison, `cmdIsHelpOption`: the one for the help options;
* `Dashed`, `Valued`: the two forms of the documentation;
* `cmdIsOption_switch`, `cmdIsOption_valued_iff`, `cmdIsOption_error_iff`: the comparison computes
  them;
* **`option_forms`**: all of it, for every argument and option.
-/

namespace MeshNode.Cmdline

open CString

/-- A string: the bytes before its NUL. -/
abbrev Str := {s : List UInt8 // (0 : UInt8) ∉ s}

/-- A string literal. -/
def str (s : String) : Str := ⟨cstr (lit s), zero_notMem_cstr _⟩

/-- An entry of an option table that is not its end marker. Variables are given by an address,
callbacks by their name in `C`. -/
structure ArgsStruct (C : Type) where
  manual : Bool
  isMandatory : Bool
  isSwitch : Bool
  option : Str
  name : Str
  type : UInt8
  dest : Option ℕ
  callWhenFound : Option C
  descript : Str

/-- The process is over. -/
inductive Exit
  /-- `posix_exit` with this code, after these texts on the two streams. -/
  | exit (code : ℕ) (stdout stderr : List UInt8)
  /-- A write outside an object. -/
  | fault
  deriving DecidableEq, Repr

/-- `posix_print_error_and_exit`, after `stdout` was printed. -/
def printErrorAndExit (stdout stderr : List UInt8) : Exit := .exit 1 stdout stderr

/-! ### The comparison -/

/-- The dashes skipped in front of an argument, two at most. -/
def dashes : List UInt8 → ℕ
  | 45 :: 45 :: _ => 2
  | 45 :: _ => 1
  | _ => 0

/-- `':'` or `'='`. -/
def isSeparator (b : UInt8) : Bool := b = 58 || b = 61

/-- The loop that compares `arg[of]` on with the rest of the option: where it leaves `of`, and
`none` where the function returns 0. The end of a list is the NUL of a string. -/
def isOptionLoop : List UInt8 → List UInt8 → ℕ → Option ℕ
  | [], [], of => some of
  | b :: _, [], of => if isSeparator b then some (of + 1) else none
  | [], _ :: _, _ => none
  | b :: arg, c :: option, of => if b ≠ c then none else isOptionLoop arg option (of + 1)

def valueMissing (arg : Str) : List UInt8 :=
  lit "Incorrect option syntax '" ++ arg.val ++
    lit "'. The value should follow the options. For example --ratio=3\n"

/-- `cmd_is_option`. -/
def cmdIsOption (arg option : Str) (withValue : Bool) : Except Exit ℕ :=
  let of := dashes arg.val
  if withValue = false then
    if arg.val.drop of ≠ option.val then .ok 0 else .ok (of + option.val.length)
  else
    match isOptionLoop (arg.val.drop of) option.val of with
    | none => .ok 0
    | some of =>
      if arg.val.drop of = [] then .error (printErrorAndExit [] (valueMissing arg)) else .ok of

/-- `cmd_is_help_option`. -/
def cmdIsHelpOption (arg : Str) : Bool :=
  let arg := arg.val.drop (dashes arg.val)
  strcaseeq arg (lit "?") || strcaseeq arg (lit "h") || strcaseeq arg (lit "help")

/-! ### The two forms -/

/-- `[-[-]]<body>`. -/
def Dashed (body arg : List UInt8) : Prop :=
  arg = body ∨ arg = 45 :: body ∨ arg = 45 :: 45 :: body

instance (body arg : List UInt8) : Decidable (Dashed body arg) :=
  inferInstanceAs (Decidable (_ ∨ _ ∨ _))

/-- `[-[-]]<option>{:|=}<value>`. -/
def Valued (option value arg : List UInt8) : Prop :=
  ∃ sep, isSeparator sep = true ∧ Dashed (option ++ sep :: value) arg

theorem drop_dashes_of_dashed {body arg : List UInt8} (hb : body.head? ≠ some 45)
    (h : Dashed body arg) : arg.drop (dashes arg) = body := by
  obtain rfl | rfl | rfl := h
  · unfold dashes
    split
    · exact absurd rfl hb
    · exact absurd rfl hb
    · rfl
  · unfold dashes
    split
    · next h => exact absurd (by rw [(List.cons.inj h).2, List.head?_cons]) hb
    · rfl
    · next h => exact absurd rfl (h _)
  · rfl

/-- What is behind the dashes is the body. -/
theorem dashed_drop_dashes (arg : List UInt8) : Dashed (arg.drop (dashes arg)) arg := by
  unfold dashes
  split
  · exact .inr (.inr rfl)
  · exact .inr (.inl rfl)
  · exact .inl rfl

/-- **The dashes skipped are those of the documentation**, unless the body has its own. -/
theorem dashed_iff {body arg : List UInt8} (hb : body.head? ≠ some 45) :
    Dashed body arg ↔ arg.drop (dashes arg) = body :=
  ⟨drop_dashes_of_dashed hb, fun h => h ▸ dashed_drop_dashes arg⟩

theorem dashes_le (arg : List UInt8) : dashes arg ≤ arg.length := by
  unfold dashes
  split <;> simp

theorem head_append_separator {option value : List UInt8} {sep : UInt8}
    (h : option.head? ≠ some 45) (hsep : isSeparator sep = true) :
    (option ++ sep :: value).head? ≠ some 45 := by
  cases option with
  | nil =>
    rintro h'
    obtain rfl := Option.some.inj h'
    exact absurd hsep (by decide)
  | cons c option => exact h

/-! ### What the comparison computes -/

theorem isOptionLoop_eq_some {body option : List UInt8} {of k : ℕ} :
    isOptionLoop body option of = some k ↔ body = option ∧ k = of + option.length ∨
      ∃ sep v, isSeparator sep = true ∧ body = option ++ sep :: v ∧ k = of + option.length + 1 := by
  induction option generalizing body of with
  | nil =>
    cases body with
    | nil =>
      rw [isOptionLoop, Option.some.injEq]
      constructor
      · rintro rfl
        exact .inl ⟨rfl, rfl⟩
      · rintro (⟨-, rfl⟩ | ⟨sep, v, -, h, -⟩)
        · rfl
        · exact absurd h (List.cons_ne_nil _ _).symm
    | cons b body =>
      rw [isOptionLoop, Option.ite_none_right_eq_some, Option.some.injEq]
      constructor
      · rintro ⟨hb, rfl⟩
        exact .inr ⟨b, body, hb, rfl, rfl⟩
      · rintro (⟨h, -⟩ | ⟨sep, v, hsep, h, rfl⟩)
        · exact absurd h (List.cons_ne_nil _ _)
        · obtain ⟨rfl, rfl⟩ := List.cons.inj h
          exact ⟨hsep, rfl⟩
  | cons c option ih =>
    cases body with
    | nil => simp [isOptionLoop]
    | cons b body =>
      by_cases hbc : b = c
      · subst hbc
        simp [isOptionLoop, ih, add_comm, add_left_comm]
      · simp [isOptionLoop, hbc]

section

variable {arg option : Str}

theorem cmdIsOption_switch (ho : option.val.head? ≠ some 45) :
    cmdIsOption arg option false =
      .ok (if Dashed option.val arg.val then arg.val.length else 0) := by
  have hlen : arg.val.length = dashes arg.val + (arg.val.drop (dashes arg.val)).length := by
    have := dashes_le arg.val
    rw [List.length_drop]
    omega
  simp only [cmdIsOption, dashed_iff ho, if_true, ite_not]
  split_ifs with h
  · rw [hlen, h]
  · rfl

/-- The exit for a value that is missing. -/
theorem cmdIsOption_dashed (ho : option.val.head? ≠ some 45) (h : Dashed option.val arg.val) :
    cmdIsOption arg option true = .error (printErrorAndExit [] (valueMissing arg)) := by
  have hbody := (dashed_iff ho).mp h
  have hloop : isOptionLoop (arg.val.drop (dashes arg.val)) option.val (dashes arg.val) =
      some (dashes arg.val + option.val.length) := isOptionLoop_eq_some.mpr (.inl ⟨hbody, rfl⟩)
  have hend : arg.val.drop (dashes arg.val + option.val.length) = [] := by
    rw [← List.drop_drop, hbody, List.drop_length]
  simp [cmdIsOption, hloop, hend]

/-- An option with its separator: a value there is found, none is missed. -/
theorem cmdIsOption_valued (ho : option.val.head? ≠ some 45) {v : List UInt8}
    (h : Valued option.val v arg.val) :
    ∃ n, n ≠ 0 ∧ n ≤ arg.val.length ∧ arg.val.drop n = v ∧ cmdIsOption arg option true =
      if v = [] then .error (printErrorAndExit [] (valueMissing arg)) else .ok n := by
  obtain ⟨sep, hsep, h⟩ := h
  have hbody := (dashed_iff (head_append_separator ho hsep)).mp h
  have hloop : isOptionLoop (arg.val.drop (dashes arg.val)) option.val (dashes arg.val) =
      some (dashes arg.val + option.val.length + 1) :=
    isOptionLoop_eq_some.mpr (.inr ⟨sep, v, hsep, hbody, rfl⟩)
  have hend : arg.val.drop (dashes arg.val + option.val.length + 1) = v := by
    rw [Nat.add_assoc, ← List.drop_drop, hbody, ← List.drop_drop, List.drop_left]
    rfl
  have hlen := congrArg List.length hbody
  have hd := dashes_le arg.val
  rw [List.length_drop, List.length_append, List.length_cons] at hlen
  exact ⟨_, Nat.succ_ne_zero _, by omega, hend, by simp [cmdIsOption, hloop, hend]⟩

/-- Everything else is another option. -/
theorem cmdIsOption_other (h₁ : ¬ Dashed option.val arg.val)
    (h₂ : ∀ v, ¬ Valued option.val v arg.val) : cmdIsOption arg option true = .ok 0 := by
  have hloop : isOptionLoop (arg.val.drop (dashes arg.val)) option.val (dashes arg.val) = none := by
    refine Option.eq_none_iff_forall_ne_some.mpr fun k hk => ?_
    have hbody := dashed_drop_dashes arg.val
    obtain ⟨h, -⟩ | ⟨sep, v, hsep, h, -⟩ := isOptionLoop_eq_some.mp hk
    · exact h₁ (h ▸ hbody)
    · exact h₂ v ⟨sep, hsep, h ▸ hbody⟩
  simp [cmdIsOption, hloop]

/-- The three forms exclude each other. -/
theorem not_dashed_of_valued (ho : option.val.head? ≠ some 45) {v : List UInt8}
    (h : Valued option.val v arg.val) : ¬ Dashed option.val arg.val := fun hd => by
  obtain ⟨sep, hsep, h⟩ := h
  have := ((dashed_iff ho).mp hd).symm.trans ((dashed_iff (head_append_separator ho hsep)).mp h)
  simpa using congrArg List.length this

theorem valued_unique (ho : option.val.head? ≠ some 45) {v v' : List UInt8}
    (h : Valued option.val v arg.val) (h' : Valued option.val v' arg.val) : v = v' := by
  obtain ⟨sep, hsep, h⟩ := h
  obtain ⟨sep', hsep', h'⟩ := h'
  have := ((dashed_iff (head_append_separator ho hsep)).mp h).symm.trans
    ((dashed_iff (head_append_separator ho hsep')).mp h')
  exact (List.cons.inj (List.append_cancel_left this)).2

end

/-- **The syntax of options**: a switch is matched, and an option with a value is found up to the
value, in exactly the documented forms; the process ends when exactly the value is missing. -/
theorem option_forms (arg option : Str) (ho : option.val.head? ≠ some 45) :
    cmdIsOption arg option false =
        .ok (if Dashed option.val arg.val then arg.val.length else 0) ∧
      (∀ n ≠ 0, cmdIsOption arg option true = .ok n ↔ n ≤ arg.val.length ∧
        arg.val.drop n ≠ [] ∧ Valued option.val (arg.val.drop n) arg.val) ∧
      (∀ e, cmdIsOption arg option true = .error e ↔ e = .exit 1 [] (valueMissing arg) ∧
        (Dashed option.val arg.val ∨ Valued option.val [] arg.val)) ∧
      (cmdIsOption arg option true = .ok 0 ↔
        ¬ Dashed option.val arg.val ∧ ∀ v, ¬ Valued option.val v arg.val) := by
  refine ⟨cmdIsOption_switch ho, ?_⟩
  by_cases hd : Dashed option.val arg.val
  · have hv : ∀ v, ¬ Valued option.val v arg.val := fun v h => not_dashed_of_valued ho h hd
    simp [cmdIsOption_dashed ho hd, hd, hv, printErrorAndExit, eq_comm]
  by_cases hv : ∃ v, Valued option.val v arg.val
  · obtain ⟨v, hv⟩ := hv
    obtain ⟨n, hn, hle, hdrop, h⟩ := cmdIsOption_valued ho hv
    have huniq : ∀ v', Valued option.val v' arg.val ↔ v' = v :=
      fun v' => ⟨fun h => valued_unique ho h hv, fun h => h ▸ hv⟩
    by_cases hnil : v = []
    · subst hnil
      simp only [h, if_true, huniq, hd, false_or, and_true, printErrorAndExit]
      refine ⟨fun m _ => ?_, fun e => ?_, ?_⟩
      · simp
      · simp [eq_comm]
      · simp
    · simp only [h, if_neg hnil, huniq, hd, false_or]
      refine ⟨fun m hm => ?_, fun e => ?_, ?_⟩
      · rw [Except.ok.injEq]
        constructor
        · rintro rfl
          exact ⟨hle, hdrop ▸ hnil, hdrop⟩
        · rintro ⟨hm, -, h'⟩
          have := congrArg List.length (hdrop.trans h'.symm)
          rw [List.length_drop, List.length_drop] at this
          omega
      · simp [Ne.symm hnil]
      · simp [hn]
  · have hv' : ∀ v, ¬ Valued option.val v arg.val := fun v h => hv ⟨v, h⟩
    simp only [cmdIsOption_other hd hv', hd, hv', false_or, and_false, iff_false, reduceCtorEq,
      implies_true, not_false_eq_true, and_self, and_true, Except.ok.injEq]
    exact fun n hn => hn.symm

theorem option_forms_ratio :
    cmdIsOption (str "--rt-ratio=3") (str "rt-ratio") true = .ok 11 ∧
      cmdIsOption (str "-rt-ratio:") (str "rt-ratio") true =
        .error (.exit 1 [] (valueMissing (str "-rt-ratio:"))) :=
  ⟨((option_forms (str "--rt-ratio=3") (str "rt-ratio") (by decide)).2.1 11 (by decide)).mpr
      ⟨by decide, by decide, 61, rfl, .inr (.inr (by decide))⟩,
    ((option_forms (str "-rt-ratio:") (str "rt-ratio") (by decide)).2.2.1 _).mpr
      ⟨rfl, .inr ⟨58, rfl, .inr (.inl (by decide))⟩⟩⟩

end MeshNode.Cmdline
