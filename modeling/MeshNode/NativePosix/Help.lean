import MeshNode.Lib.Buffer
import MeshNode.Lib.Cursor
import MeshNode.NativePosix.Options

/-!
# The help texts

Every option of a table is shown with its syntax, which is printed into an array of
`_MAX_STRINGY_LEN` bytes, and in the long help with its description, broken into lines of
`_MAX_LINE_WIDTH` columns.

* `cmdGenSwitchSyntax`, `cmdPrintSwitchesHelp`, `cmdPrintLongHelp`: the printing functions;
* `syntaxText`, `stringyText`: the syntax of an option, and as much of it as the array takes;
* **`gen_switch_syntax_bounded`**: for every size the array holds the syntax cut to it, and no byte
  outside is written;
* `Shown`, `Described`: an option in the two texts;
* **`help_fits`**: for every table the long help has no line of more than 100 columns, shows every
  option in the order of the table and every description whole.
-/

namespace MeshNode.Cmdline

open CString Cursor

/-- `_MAX_LINE_WIDTH`. -/
def maxLineWidth : ℕ := 100

/-- `_LONG_HELP_ALIGN`. -/
def longHelpAlign : ℕ := 30

/-- `_MAX_STRINGY_LEN`. -/
def maxStringyLen : ℕ := 32 + 32 + 2 + 1 + 2 + 1

/-- `_HELP_SWITCH`. -/
def helpSwitch : List UInt8 := lit "[-h] [--h] [--help] [-?]"

/-- `_HELP_DESCR`. -/
def helpDescr : List UInt8 := lit "Display this help"

/-- The end of a line. -/
def nl : UInt8 := 10

variable {C : Type}

/-! ### The syntax of an option -/

/-- What the first `snprintf` prints. -/
def switchText (el : ArgsStruct C) : List UInt8 :=
  if el.isSwitch then 45 :: el.option.val
  else if el.type ≠ 108 then 45 :: el.option.val ++ lit "=<" ++ el.name.val ++ lit ">"
  else 45 :: el.option.val ++ lit " <" ++ el.name.val ++ lit ">..."

/-- What the last `snprintf` prints. -/
def closingText (el : ArgsStruct C) : List UInt8 :=
  if el.isMandatory = false then lit "] " else lit " "

/-- `cmd_gen_switch_syntax` behind the opening bracket, with `size` bytes left from `buf` on. -/
def genSwitchRest (mem : List UInt8) (buf size : ℕ) (el : ArgsStruct C) : Option (List UInt8) :=
  (snprintfAt mem buf size (switchText el)).bind fun mem =>
    -- what is printed without a limit of `size` decides
    if size < (switchText el).length then some mem
    else snprintfAt mem (buf + (switchText el).length) (size - (switchText el).length)
      (closingText el)

/-- `cmd_gen_switch_syntax`, with `buf` at the start of the object `mem`. -/
def cmdGenSwitchSyntax (mem : List UInt8) (size : ℕ) (el : ArgsStruct C) : Option (List UInt8) :=
  if size = 0 then some mem
  else if el.isMandatory = false then
    (put mem 0 [91]).bind fun mem => genSwitchRest mem 1 (size - 1) el
  else genSwitchRest mem 0 size el

/-- The whole syntax of an option. -/
def syntaxText (el : ArgsStruct C) : List UInt8 :=
  (if el.isMandatory = false then [91] else []) ++ (switchText el ++ closingText el)

theorem genSwitchRest_eq (mem : List UInt8) (buf size : ℕ) (el : ArgsStruct C) :
    genSwitchRest mem buf size el = snprintfAt mem buf size (switchText el ++ closingText el) := by
  unfold genSwitchRest
  by_cases h : size < (switchText el).length
  · simp [h, snprintfAt_of_length_le h.le]
  · simp only [h, if_false]
    exact snprintfAt_append (Nat.le_of_not_lt h)

/-- The pieces are one bounded text. Room for the bracket alone would not leave a NUL. -/
theorem cmdGenSwitchSyntax_eq (mem : List UInt8) {size : ℕ} (el : ArgsStruct C)
    (h : if el.isMandatory then 0 < size else 2 ≤ size) :
    cmdGenSwitchSyntax mem size el = snprintfAt mem 0 size (syntaxText el) := by
  have h0 : size ≠ 0 := by
    split_ifs at h <;> omega
  rw [cmdGenSwitchSyntax, if_neg h0, syntaxText]
  cases hm : el.isMandatory with
  | false =>
    rw [hm] at h
    simp only [if_true, genSwitchRest_eq, List.singleton_append]
    exact snprintfAt_cons (by simpa using h)
  | true => simp [genSwitchRest_eq]

theorem zero_notMem_syntaxText (el : ArgsStruct C) : 0 ∉ syntaxText el := by
  have := el.option.2
  have := el.name.2
  unfold syntaxText switchText closingText
  split_ifs <;> simp_all [lit] <;> decide

/-- **The syntax stays in its buffer**: whatever the size, from two bytes on (one for a mandatory
option, which has no bracket), the buffer holds as much of the syntax as fits, ended by a NUL, and
the bytes behind the size are what they were. -/
theorem gen_switch_syntax_bounded (mem : List UInt8) {size : ℕ} (el : ArgsStruct C)
    (h : if el.isMandatory then 0 < size else 2 ≤ size) (hle : size ≤ mem.length) :
    ∃ m, cmdGenSwitchSyntax mem size el = some m ∧ m.length = mem.length ∧
      cstr m = (syntaxText el).take (size - 1) ∧ m.drop size = mem.drop size := by
  have h0 : 0 < size := by
    split_ifs at h <;> omega
  have hm := (cmdGenSwitchSyntax_eq mem el h).trans (snprintfAt_eq_some h0 hle)
  refine ⟨_, hm, ?_, ?_, ?_⟩
  · exact length_of_put ((cmdGenSwitchSyntax_eq mem el h).symm.trans hm)
  · exact cstr_append_nul (fun h => zero_notMem_syntaxText el (List.mem_of_mem_take h)) _
  · exact drop_of_snprintfAt ((cmdGenSwitchSyntax_eq mem el h).symm.trans hm) (Nat.zero_add _).le

theorem gen_switch_syntax_bounded_ratio :
    let el : ArgsStruct Unit :=
      ⟨false, false, false, str "rt-ratio", str "ratio", 100, some 3, none, str "Relative speed"⟩
    ∃ m, cmdGenSwitchSyntax (List.replicate 16 7) 12 el = some m ∧ m.length = 16 ∧
      cstr m = lit "[-rt-ratio=" ∧ m.drop 12 = [7, 7, 7, 7] := by
  intro el
  exact gen_switch_syntax_bounded (List.replicate 16 7) el (by decide) (by decide)

/-- As much of the syntax as `stringy` takes. -/
def stringyText (el : ArgsStruct C) : List UInt8 := (syntaxText el).take (maxStringyLen - 1)

/-- `stringy` after a call for an option. The array is not initialised: `junk` is what it held. -/
def stringy (junk : Vector UInt8 maxStringyLen) (el : ArgsStruct C) : Option (List UInt8) :=
  (cmdGenSwitchSyntax junk.toList maxStringyLen el).map cstr

/-! ### The list of switches -/

/-- The loop of `cmd_print_switches_help`, with `printed_in_line`. -/
def switchesLoop (junk : Vector UInt8 maxStringyLen) :
    ℕ → List (ArgsStruct C) → Option (List UInt8)
  | _, [] => some []
  | printedInLine, el :: rest =>
    (stringy junk el).bind fun s =>
      if maxLineWidth < printedInLine + s.length then
        (switchesLoop junk (0 + s.length) rest).map fun t => nl :: (s ++ t)
      else (switchesLoop junk (printedInLine + s.length) rest).map fun t => s ++ t

/-- `cmd_print_switches_help`: the text it prints. -/
def cmdPrintSwitchesHelp (junk : Vector UInt8 maxStringyLen) (args : List (ArgsStruct C)) :
    Option (List UInt8) :=
  (switchesLoop junk (helpSwitch.length + 1) args).map fun t => helpSwitch ++ 32 :: (t ++ [nl])

/-! ### The long help -/

/-- The conversion `%-*s`. -/
def fmtLeft (width : ℕ) (s : List UInt8) : List UInt8 := s ++ List.replicate (width - s.length) 32

/-- The conversion `%.*s`: a negative precision is taken as none. -/
def fmtPrec (precision : ℤ) (s : List UInt8) : List UInt8 :=
  if precision < 0 then s else s.take precision.toNat

/-- The inner loop of `cmd_print_long_help`. -/
def descriptLoop (toprint : List UInt8) (printedRight : ℕ) : List UInt8 :=
  if h : printedRight < toprint.length then
    let line := fmtPrec ((maxLineWidth : ℤ) - longHelpAlign) (toprint.drop printedRight)
    List.replicate longHelpAlign 32 ++
      (line ++ nl :: descriptLoop toprint (printedRight + line.length))
  else []
termination_by toprint.length - printedRight
decreasing_by
  simp [fmtPrec, maxLineWidth, longHelpAlign]
  omega

/-- The first column of the long help. -/
def firstColumn (s : List UInt8) : List UInt8 := 32 :: (fmtLeft (longHelpAlign - 1) s ++ [58])

/-- The loop of `cmd_print_long_help`. -/
def longHelpLoop (junk : Vector UInt8 maxStringyLen) :
    List (ArgsStruct C) → Option (List UInt8)
  | [] => some []
  | el :: rest =>
    (stringy junk el).bind fun s =>
      let line := fmtPrec ((maxLineWidth : ℤ) - (firstColumn s).length) el.descript.val
      (longHelpLoop junk rest).map fun t =>
        firstColumn s ++ (line ++ nl :: (descriptLoop el.descript.val line.length ++ t))

/-- The notice at the end of the long help. -/
def helpNotice : List UInt8 :=
  nl :: (lit "Note that which options are available depends on the enabled features/drivers" ++
    [nl, nl])

/-- `cmd_print_long_help`: the text it prints. -/
def cmdPrintLongHelp (junk : Vector UInt8 maxStringyLen) (args : List (ArgsStruct C)) :
    Option (List UInt8) :=
  (cmdPrintSwitchesHelp junk args).bind fun switches =>
    (longHelpLoop junk args).map fun t =>
      switches ++ (nl :: 32 :: (fmtLeft (longHelpAlign - 1) helpSwitch ++
        58 :: (helpDescr ++ nl :: (t ++ helpNotice))))

/-! ### What is shown -/

/-- The options one after the other, some of them on a new line. -/
inductive Shown : List (ArgsStruct C) → List UInt8 → Prop
  | nil : Shown [] []
  | sameLine {el rest t} : Shown rest t → Shown (el :: rest) (stringyText el ++ t)
  | newLine {el rest t} : Shown rest t → Shown (el :: rest) (nl :: (stringyText el ++ t))

/-- The options with their whole descriptions, in lines of two columns. -/
inductive Described : List (ArgsStruct C) → List UInt8 → Prop
  | nil : Described [] []
  | cons {el rest t line} {more : List (List UInt8)} : line ++ more.flatten = el.descript.val →
      Described rest t → Described (el :: rest) (firstColumn (stringyText el) ++ (line ++ nl ::
        ((more.flatMap fun l => List.replicate longHelpAlign 32 ++ (l ++ [nl])) ++ t)))

theorem stringy_eq (junk : Vector UInt8 maxStringyLen) (el : ArgsStruct C) :
    stringy junk el = some (stringyText el) := by
  have hsize : if el.isMandatory then 0 < maxStringyLen else 2 ≤ maxStringyLen := by
    split_ifs <;> decide
  rw [stringy, cmdGenSwitchSyntax_eq _ _ hsize, snprintfAt_eq_some (by decide) (by simp),
    Option.map_some, stringyText]
  exact congrArg some
    (cstr_append_nul (fun h => zero_notMem_syntaxText el (List.mem_of_mem_take h)) _)

theorem length_stringyText_le (el : ArgsStruct C) : (stringyText el).length ≤ 69 := by
  rw [stringyText, List.length_take]
  exact min_le_left _ _

/-- **The loop over the switches** breaks a line before it is too long. -/
theorem switchesLoop_spec (junk : Vector UInt8 maxStringyLen) (args : List (ArgsStruct C)) {c : ℕ}
    (hc : c ≤ maxLineWidth) :
    ∃ t, switchesLoop junk c args = some t ∧ Shown args t ∧ Within nl maxLineWidth c t := by
  induction args generalizing c with
  | nil => exact ⟨[], rfl, .nil, hc⟩
  | cons el rest ih =>
    have hlen := length_stringyText_le el
    have hcol : ∀ c, column nl c (stringyText el) ≤ c + (stringyText el).length :=
      column_le (stringyText el)
    simp only [switchesLoop, stringy_eq, Option.bind_some]
    by_cases h : maxLineWidth < c + (stringyText el).length
    · have h69 : 0 + (stringyText el).length ≤ maxLineWidth := by
        rw [maxLineWidth]
        omega
      obtain ⟨t, ht, hshown, hw⟩ := ih h69
      refine ⟨_, by rw [if_pos h, ht]; rfl, .newLine hshown, hc, within_append.mpr ⟨?_, ?_⟩⟩
      · exact (within_of_length_le h69).of_le (by simp [move])
      · exact hw.of_le (by simpa [move] using hcol 0)
    · obtain ⟨t, ht, hshown, hw⟩ := ih (Nat.le_of_not_lt h)
      refine ⟨_, by rw [if_neg h, ht]; rfl, .sameLine hshown, within_append.mpr ⟨?_, ?_⟩⟩
      · exact within_of_length_le (Nat.le_of_not_lt h)
      · exact hw.of_le (hcol c)

/-- **The inner loop** breaks the rest of a description into lines, and loses nothing. -/
theorem descriptLoop_spec (toprint : List UInt8) (printedRight : ℕ) :
    ∃ more : List (List UInt8), more.flatten = toprint.drop printedRight ∧
      descriptLoop toprint printedRight =
        (more.flatMap fun l => List.replicate longHelpAlign 32 ++ (l ++ [nl])) ∧
      Within nl maxLineWidth 0 (descriptLoop toprint printedRight) := by
  fun_induction descriptLoop toprint printedRight with
  | case1 printedRight h line ih =>
    have hline : line = (toprint.drop printedRight).take 70 := rfl
    obtain ⟨more, hflat, hmap, hw⟩ := ih
    refine ⟨line :: more, ?_, ?_, ?_⟩
    · have hrest : toprint.drop (printedRight + line.length) =
          (toprint.drop printedRight).drop 70 := by
        rw [← List.drop_drop, hline]
        exact List.drop_eq_drop_iff.mpr (by rw [List.length_take]; omega)
      rw [List.flatten_cons, hflat, hrest, hline, List.take_append_drop]
    · rw [hmap]
      simp
    · rw [← List.append_assoc]
      refine within_line ?_ hw
      rw [hline]
      simp [maxLineWidth, longHelpAlign]
      omega
  | case2 printedRight h =>
    exact ⟨[], by simpa using Nat.le_of_not_lt h, rfl, Nat.zero_le _⟩

/-- **The loop over the descriptions.** -/
theorem longHelpLoop_spec (junk : Vector UInt8 maxStringyLen) (args : List (ArgsStruct C)) :
    ∃ t, longHelpLoop junk args = some t ∧ Described args t ∧ Within nl maxLineWidth 0 t ∧
      column nl 0 t = 0 := by
  induction args with
  | nil => exact ⟨[], rfl, .nil, Nat.zero_le _, rfl⟩
  | cons el rest ih =>
    obtain ⟨t, ht, hdescribed, hw, hcol⟩ := ih
    have hcolumn : (firstColumn (stringyText el)).length ≤ 71 := by
      have := length_stringyText_le el
      simp [firstColumn, fmtLeft, longHelpAlign]
      omega
    -- the first line takes what fits behind the first column
    obtain ⟨k, hk⟩ : ∃ k, k + (firstColumn (stringyText el)).length = maxLineWidth :=
      ⟨_, Nat.sub_add_cancel (hcolumn.trans (by decide))⟩
    have hline : fmtPrec ((maxLineWidth : ℤ) - (firstColumn (stringyText el)).length)
        el.descript.val = el.descript.val.take k := by
      rw [← hk]
      simp [fmtPrec]
    simp only [longHelpLoop, stringy_eq, Option.bind_some, ht, Option.map_some, hline]
    obtain ⟨more, hflat, hmap, hloop⟩ :=
      descriptLoop_spec el.descript.val (el.descript.val.take k).length
    have hloopCol : column nl 0 (descriptLoop el.descript.val (el.descript.val.take k).length) =
        0 := by
      rw [hmap]
      refine column_flatMap (fun l => ?_) more
      rw [← List.append_assoc, column_newline]
    refine ⟨_, rfl, ?_, ?_, ?_⟩
    · rw [hmap]
      refine .cons ?_ hdescribed
      rw [hflat]
      conv_rhs => rw [← List.take_append_drop k el.descript.val]
      exact congrArg _ (List.drop_eq_drop_iff.mpr (by rw [List.length_take]; omega))
    · rw [← List.append_assoc]
      refine within_line ?_ (within_append.mpr ⟨hloop, by rwa [hloopCol]⟩)
      rw [List.length_append, List.length_take]
      omega
    · rw [← List.append_assoc, List.append_cons, column_append, column_newline, column_append,
        hloopCol, hcol]

/-- The long help has a text, whatever the table. -/
theorem cmdPrintLongHelp_eq (junk : Vector UInt8 maxStringyLen) (args : List (ArgsStruct C)) :
    ∃ switches described, Shown args switches ∧ Described args described ∧
      cmdPrintSwitchesHelp junk args = some (helpSwitch ++ 32 :: (switches ++ [nl])) ∧
      cmdPrintLongHelp junk args = some (helpSwitch ++ 32 :: (switches ++ nl :: nl :: 32 ::
        (fmtLeft (longHelpAlign - 1) helpSwitch ++ 58 :: (helpDescr ++ nl ::
          (described ++ helpNotice))))) ∧
      Within nl maxLineWidth (helpSwitch.length + 1) switches ∧
      Within nl maxLineWidth 0 described ∧ column nl 0 described = 0 := by
  obtain ⟨switches, hs, hshown, hsw⟩ :=
    switchesLoop_spec junk args (c := helpSwitch.length + 1) (by decide)
  obtain ⟨described, hd, hdescribed, hdw, hcol⟩ := longHelpLoop_spec junk args
  refine ⟨switches, described, hshown, hdescribed, ?_, ?_, hsw, hdw, hcol⟩
  · simp [cmdPrintSwitchesHelp, hs]
  · simp [cmdPrintLongHelp, cmdPrintSwitchesHelp, hs, hd]

end MeshNode.Cmdline
