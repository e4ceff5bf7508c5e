import MeshNode.Lib.Buffer
import MeshNode.NativePosix.Options

/-!
# The table of options

Every part of the program adds its options to one table, which ends with an entry without a name.
The table is kept in memory from `realloc`, which is a parameter.

* `Cell`, `Registry`, `Registry.boot`: the entries in memory, the variables of the registry;
* `nativeAddCommandLineOpts`: add the options of one part, `readTable`: what a loop over the table
  sees;
* `Reallocates`: what `realloc` keeps;
* `Holds`: the memory holds a table, its end marker and some room, `Denied`: there is no more room,
  **`Holds.add`**: one part more;
* `addParts`, `Refused`: any number of parts, and one of them that got no memory;
* **`registered_whole`**: after any number of parts the table is their options in order, no write
  was outside the memory, and the room that is not used is bounded.
-/

namespace MeshNode.Cmdline

open CString

variable {C : Type}

/-- An entry of a table in memory: `none` is the one of `ARG_TABLE_ENDMARKER`. -/
abbrev Cell (C : Type) := Option (ArgsStruct C)

/-- The variables of the registry; `argsStruct` is `none` while it is `NULL`. -/
structure Registry (C : Type) where
  argsStruct : Option (List (Cell C))
  usedArgs : ℕ
  argsAval : ℕ

def Registry.boot : Registry C := ⟨none, 0, 0⟩

/-- `ARGS_ALLOC_CHUNK_SIZE`. -/
def argsAllocChunkSize : ℕ := 20

/-- `realloc` to a number of entries. -/
abbrev Realloc (C : Type) := Option (List (Cell C)) → ℕ → Option (List (Cell C))

def outOfMemory : Exit := printErrorAndExit [] (lit "Could not allocate memory")

/-- The growing of the table. -/
def growArgs (realloc : Realloc C) (count : ℕ) (r : Registry C) : Except Exit (Registry C) :=
  let growby := if count < argsAllocChunkSize then argsAllocChunkSize else count
  match realloc r.argsStruct (r.argsAval + growby) with
  | none => .error outOfMemory
  | some block => .ok { r with argsStruct := some block, argsAval := r.argsAval + growby }

/-- The `memcpy` of the entries and their end marker. -/
def copyArgs (args : List (ArgsStruct C)) (r : Registry C) : Except Exit (Registry C) :=
  match r.argsStruct.bind fun block => put block r.usedArgs (args.map some ++ [none]) with
  | none => .error .fault
  | some block => .ok { r with argsStruct := some block, usedArgs := r.usedArgs + args.length }

/-- `native_add_command_line_opts` of the entries in front of an end marker. -/
def nativeAddCommandLineOpts (realloc : Realloc C) (r : Registry C) (args : List (ArgsStruct C)) :
    Except Exit (Registry C) :=
  let count := args.length + 1
  if r.argsAval ≤ r.usedArgs + count then (growArgs realloc count r).bind (copyArgs args)
  else copyArgs args r

/-- What a loop up to the end marker sees. -/
def readTable : List (Cell C) → List (ArgsStruct C)
  | some el :: rest => el :: readTable rest
  | _ => []

/-- `realloc` returns memory of the size asked for, with the old contents when it grows. -/
def Reallocates (realloc : Realloc C) : Prop :=
  ∀ old n new, realloc old n = some new → new.length = n ∧
    ∀ block, old = some block → block.length ≤ n → block <+: new

/-! ### The table in memory -/

/-- The memory holds a table with its end marker, or there is no memory yet. -/
structure Holds (table : List (ArgsStruct C)) (r : Registry C) : Prop where
  used : r.usedArgs = table.length
  block : match r.argsStruct with
    | none => table = [] ∧ r.argsAval = 0
    | some block => block.length = r.argsAval ∧ table.map some ++ [none] <+: block

theorem holds_boot : Holds [] (Registry.boot (C := C)) := ⟨rfl, rfl, rfl⟩

theorem readTable_append (table : List (ArgsStruct C)) (rest : List (Cell C)) :
    readTable (table.map some ++ none :: rest) = table := by
  induction table with
  | nil => rfl
  | cons el table ih => rw [List.map_cons, List.cons_append, readTable, ih]

/-- A loop over the memory sees the table. -/
theorem Holds.readTable_eq {table : List (ArgsStruct C)} {r : Registry C} (h : Holds table r)
    {block : List (Cell C)} (hb : r.argsStruct = some block) : readTable block = table := by
  have := h.block
  rw [hb] at this
  obtain ⟨rest, rfl⟩ := this.2
  rw [List.append_assoc]
  exact readTable_append table rest

variable {realloc : Realloc C} {table : List (ArgsStruct C)} {r : Registry C}

/-- Entries are copied over the end marker, with their own behind them. -/
theorem copyArgs_eq (args : List (ArgsStruct C)) (hu : r.usedArgs = table.length)
    {block : List (Cell C)} (hb : r.argsStruct = some block) (hlen : block.length = r.argsAval)
    (hpre : table.map some <+: block) (hroom : table.length + (args.length + 1) ≤ r.argsAval) :
    ∃ block', copyArgs args r =
        .ok { r with argsStruct := some block', usedArgs := r.usedArgs + args.length } ∧
      block'.length = r.argsAval ∧ (table ++ args).map some ++ [none] <+: block' := by
  obtain ⟨rest, rfl⟩ := hpre
  obtain ⟨q, t, rfl, hq⟩ : ∃ q t, rest = q ++ t ∧ q.length = (args.map some ++ [none]).length := by
    refine ⟨rest.take (args.length + 1), rest.drop (args.length + 1),
      (List.take_append_drop _ _).symm, ?_⟩
    simp only [List.length_append, List.length_map, List.length_take, List.length_singleton] at *
    omega
  have hput : put (table.map some ++ (q ++ t)) r.usedArgs (args.map some ++ [none]) =
      some (table.map some ++ (args.map some ++ [none] ++ t)) := by
    rw [hu, ← List.length_map (f := (some : _ → Cell C))]
    exact put_block hq
  refine ⟨_, by rw [copyArgs, hb, Option.bind_some, hput], ?_, t, by simp⟩
  rw [← hlen]
  simp only [List.length_append] at *
  omega

/-- The memory starts with the table. -/
theorem Holds.prefix_of_block (h : Holds table r) {block : List (Cell C)}
    (hb : r.argsStruct = some block) : table.map some <+: block ∧ table.length < r.argsAval := by
  have hblock := h.block
  rw [hb] at hblock
  obtain ⟨hlen, hpre⟩ := hblock
  refine ⟨(List.prefix_append _ _).trans hpre, ?_⟩
  have := hpre.length_le
  simp only [List.length_append, List.length_map, List.length_singleton] at this
  omega

/-- Grown memory starts with the table too, and has room for more. -/
theorem Holds.grow (hr : Reallocates realloc) (h : Holds table r) {n : ℕ} (hn : r.argsAval ≤ n)
    {block : List (Cell C)} (hb : realloc r.argsStruct n = some block) :
    block.length = n ∧ table.map some <+: block ∧ table.length ≤ r.argsAval := by
  obtain ⟨hlen, hkeep⟩ := hr _ _ _ hb
  refine ⟨hlen, ?_⟩
  cases ho : r.argsStruct with
  | none =>
    have hblock := h.block
    rw [ho] at hblock
    obtain ⟨rfl, -⟩ := hblock
    exact ⟨List.nil_prefix, Nat.zero_le _⟩
  | some old =>
    obtain ⟨hpre, hlt⟩ := h.prefix_of_block ho
    have hold := h.block
    rw [ho] at hold
    exact ⟨hpre.trans (hkeep old ho (by omega)), hlt.le⟩

/-- There is no room for more options, and `realloc` returns `NULL` when it is asked for it. -/
def Registry.Denied (realloc : Realloc C) (args : List (ArgsStruct C)) (r : Registry C) : Prop :=
  r.argsAval ≤ r.usedArgs + (args.length + 1) ∧
    realloc r.argsStruct (r.argsAval + max argsAllocChunkSize (args.length + 1)) = none

/-- **One part more**: the table goes on with its options, or there was no memory for them. -/
theorem Holds.add (hr : Reallocates realloc) (h : Holds table r) (args : List (ArgsStruct C)) :
    (∃ r', nativeAddCommandLineOpts realloc r args = .ok r' ∧ Holds (table ++ args) r' ∧
      r'.argsStruct ≠ none ∧ (r'.argsAval = r.argsAval ∨
        r'.argsAval ≤ r'.usedArgs + 1 + max argsAllocChunkSize (args.length + 1))) ∨
    nativeAddCommandLineOpts realloc r args = .error outOfMemory ∧ r.Denied realloc args := by
  have hused := h.used
  by_cases hfull : r.argsAval ≤ r.usedArgs + (args.length + 1)
  · obtain ⟨growby, hgrow⟩ : ∃ k, (if args.length + 1 < argsAllocChunkSize then argsAllocChunkSize
      else args.length + 1) = k := ⟨_, rfl⟩
    have hmax : growby = max argsAllocChunkSize (args.length + 1) := by
      rw [← hgrow]
      split_ifs <;> omega
    simp only [nativeAddCommandLineOpts, if_pos hfull, growArgs, hgrow]
    cases hb : realloc r.argsStruct (r.argsAval + growby) with
    | none => exact .inr ⟨rfl, hfull, hmax ▸ hb⟩
    | some block =>
      obtain ⟨hlen, hpre, hle⟩ := h.grow hr (Nat.le_add_right _ _) hb
      obtain ⟨block', hcopy, hlen', hpre'⟩ := copyArgs_eq args
        (r := { r with argsStruct := some block, argsAval := r.argsAval + growby })
        hused rfl hlen hpre (by dsimp only; omega)
      refine .inl ⟨_, hcopy, ⟨?_, hlen', hpre'⟩, by simp, .inr ?_⟩
      · simp [hused]
      · dsimp only
        omega
  · simp only [nativeAddCommandLineOpts, if_neg hfull]
    cases ho : r.argsStruct with
    | none =>
      have hblock := h.block
      rw [ho] at hblock
      omega
    | some block =>
      obtain ⟨hpre, hlt⟩ := h.prefix_of_block ho
      have hblock := h.block
      rw [ho] at hblock
      obtain ⟨block', hcopy, hlen', hpre'⟩ :=
        copyArgs_eq args hused ho hblock.1 hpre (by omega)
      exact .inl ⟨_, hcopy, ⟨by simp [hused], hlen', hpre'⟩, by simp, .inl rfl⟩

/-! ### Any number of parts -/

/-- The parts add their options one after the other. -/
def addParts (realloc : Realloc C) : List (List (ArgsStruct C)) → Registry C →
    Except Exit (Registry C)
  | [], r => .ok r
  | args :: parts, r => (nativeAddCommandLineOpts realloc r args).bind (addParts realloc parts)

theorem addParts_append (parts parts' : List (List (ArgsStruct C))) (r : Registry C) :
    addParts realloc (parts ++ parts') r =
      (addParts realloc parts r).bind (addParts realloc parts') := by
  induction parts generalizing r with
  | nil => rfl
  | cons args parts ih =>
    rw [List.cons_append, addParts, addParts]
    cases nativeAddCommandLineOpts realloc r args with
    | error x => rfl
    | ok r => exact ih r

/-- After some of the parts there is no memory for the next one. -/
def Refused (realloc : Realloc C) (parts : List (List (ArgsStruct C))) (r : Registry C) : Prop :=
  ∃ pre args post r', parts = pre ++ args :: post ∧ addParts realloc pre r = .ok r' ∧
    r'.Denied realloc args

theorem Refused.cons {args : List (ArgsStruct C)} {parts : List (List (ArgsStruct C))}
    {r' : Registry C} (hr : nativeAddCommandLineOpts realloc r args = .ok r')
    (h : Refused realloc parts r') : Refused realloc (args :: parts) r := by
  obtain ⟨pre, args', post, r'', rfl, hpre, hd⟩ := h
  exact ⟨args :: pre, args', post, r'', rfl, by rw [addParts, hr]; exact hpre, hd⟩

/-- **A run of parts** goes on from a table that is held. -/
theorem Holds.addParts (hr : Reallocates realloc) {m : ℕ} (parts : List (List (ArgsStruct C)))
    (hm : ∀ args ∈ parts, args.length ≤ m) (h : Holds table r)
    (hslack : r.argsAval ≤ r.usedArgs + 1 + max argsAllocChunkSize (m + 1)) :
    (∃ r', addParts realloc parts r = .ok r' ∧ Holds (table ++ parts.flatten) r' ∧
      (parts ≠ [] → r'.argsStruct ≠ none) ∧
      r'.argsAval ≤ r'.usedArgs + 1 + max argsAllocChunkSize (m + 1)) ∨
    Cmdline.addParts realloc parts r = .error outOfMemory ∧ Refused realloc parts r := by
  induction parts generalizing table r with
  | nil => exact .inl ⟨r, rfl, by simpa using h, by simp, hslack⟩
  | cons args parts ih =>
    obtain ⟨hargs, hparts⟩ := List.forall_mem_cons.mp hm
    rw [Cmdline.addParts]
    obtain ⟨r₁, h₁, hold, hsome, hroom⟩ | ⟨h₁, hd⟩ := h.add hr args
    · have hslack₁ : r₁.argsAval ≤ r₁.usedArgs + 1 + max argsAllocChunkSize (m + 1) := by
        have hu := h.used
        have hu₁ := hold.used
        rw [List.length_append] at hu₁
        omega
      rw [h₁, Except.bind]
      obtain ⟨r', h', hold', hsome', hslack'⟩ | ⟨h', hd⟩ := ih hparts hold hslack₁
      · refine .inl ⟨r', h', by simpa using hold', fun _ => ?_, hslack'⟩
        cases parts with
        | nil =>
          obtain rfl := Except.ok.inj h'
          exact hsome
        | cons args' parts => exact hsome' (List.cons_ne_nil _ _)
      · exact .inr ⟨h', hd.cons h₁⟩
    · rw [h₁]
      exact .inr ⟨rfl, [], args, parts, r, rfl, rfl, hd⟩

/-- **The registered table is whole**: with any `realloc` that does its part, the options of any
number of parts stand in the table in their order, in front of its end marker and inside the memory,
with a bounded number of entries to spare; or `realloc` returned `NULL` when a part needed memory,
and the process says so. -/
theorem registered_whole (hr : Reallocates realloc) (parts : List (List (ArgsStruct C)))
    (hne : parts ≠ []) {m : ℕ} (hm : ∀ args ∈ parts, args.length ≤ m) :
    (∃ r block, addParts realloc parts .boot = .ok r ∧ r.argsStruct = some block ∧
      block.length = r.argsAval ∧ r.usedArgs < r.argsAval ∧
      (∃ rest, block = parts.flatten.map some ++ none :: rest) ∧
      readTable block = parts.flatten ∧
      r.argsAval ≤ parts.flatten.length + 1 + max argsAllocChunkSize (m + 1)) ∨
    addParts realloc parts .boot = .error outOfMemory ∧ Refused realloc parts .boot := by
  obtain ⟨r, h, hold, hsome, hslack⟩ | h :=
    holds_boot.addParts hr parts hm (Nat.zero_le _)
  · obtain ⟨block, hb⟩ := Option.ne_none_iff_exists'.mp (hsome hne)
    rw [List.nil_append] at hold
    have hblock := hold.block
    rw [hb] at hblock
    obtain ⟨hlen, rest, hrest⟩ := hblock
    have hused := hold.used
    refine .inl ⟨r, block, h, hb, hlen, ?_, ⟨rest, by simpa using hrest.symm⟩,
      hold.readTable_eq hb, by omega⟩
    exact hused ▸ (hold.prefix_of_block hb).2
  · exact .inr h

/-- A `realloc` that always returns memory, with end markers behind the old contents. -/
def padded (C : Type) : Realloc C := fun old n =>
  some ((old.getD [] ++ List.replicate n none).take n)

theorem reallocates_padded : Reallocates (padded C) := by
  rintro old n new h
  obtain rfl := Option.some.inj h
  refine ⟨by simp, fun block hb hle => ?_⟩
  subst hb
  rw [Option.getD_some, List.take_append, List.take_of_length_le hle]
  exact List.prefix_append _ _

/-- It refuses nothing. -/
theorem not_refused_padded (parts : List (List (ArgsStruct C))) (r : Registry C) :
    ¬ Refused (padded C) parts r := by
  rintro ⟨pre, args, post, r', -, -, -, h⟩
  exact Option.some_ne_none _ h

theorem registered_whole_padded :
    let el : ArgsStruct Unit :=
      ⟨false, false, true, str "rt", str "", 98, none, none, str "Slow down the execution"⟩
    ∃ r block, addParts (padded Unit) [[el], [], [el, el]] .boot = .ok r ∧
      r.argsStruct = some block ∧ readTable block = [el, el, el] ∧ r.argsAval ≤ 24 := by
  intro el
  obtain ⟨r, block, h, hb, -, -, -, htable, hroom⟩ | ⟨-, hn⟩ :=
    registered_whole (m := 2) reallocates_padded [[el], [], [el, el]] (by simp) (by simp)
  · exact ⟨r, block, h, hb, htable, hroom⟩
  · exact absurd hn (not_refused_padded _ _)

end MeshNode.Cmdline
