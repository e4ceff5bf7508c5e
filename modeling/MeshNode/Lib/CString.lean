import Mathlib.Data.List.Basic
import Mathlib.Data.List.Infix
import Mathlib.Data.List.TakeWhile
import Mathlib.Data.Vector.Basic
import Mathlib.Tactic.Common

/-!
# Strings of C

Memory is read from a pointer to the end of the object it points into. A string is what stands
before the first NUL. The functions follow the descriptions of ISO C.

* `cstr`, `strstr`, `isspace`, `isdigit`, `atoi`: reading functions;
* `strtok`: the tokenizer, which writes into the array it scans and keeps a position between calls;
* `firstTok`, `afterTok`, `OneWord`: the token and the remaining text, on strings;
* **`strtok_some`**, **`strtok_none`**: the destructive tokenizer computes these two;
* `fmt02x`, `snprintf`: formatted output of bytes into an array of given length.
-/

namespace CString

/-- The string at the start of some memory. -/
def cstr (mem : List UInt8) : List UInt8 := mem.takeWhile (· ≠ 0)

/-- The ASCII bytes of a literal. -/
def lit (s : String) : List UInt8 := s.toList.map Char.toUInt8

theorem cstr_append_nul {s : List UInt8} (hs : 0 ∉ s) (tail : List UInt8) :
    cstr (s ++ 0 :: tail) = s := by
  rw [cstr, List.takeWhile_append_of_pos]
  · simp
  · intro b hb
    simpa using fun e : b = 0 => hs (e ▸ hb)

theorem zero_notMem_cstr (mem : List UInt8) : 0 ∉ cstr mem := fun h => by
  simpa using List.mem_takeWhile_imp h

/-- Memory that has a NUL is its string, the NUL and the rest. -/
theorem exists_tail_of_zero_mem {mem : List UInt8} (h : 0 ∈ mem) :
    ∃ tail, mem = cstr mem ++ 0 :: tail := by
  obtain ⟨s, tail, rfl, hs⟩ := List.eq_append_cons_of_mem h
  exact ⟨tail, by rw [cstr_append_nul hs]⟩

/-- Where `needle` first occurs in `hay`. -/
def strstr (hay needle : List UInt8) : Option ℕ :=
  if needle.isPrefixOf hay then some 0
  else match hay with
    | [] => none
    | _ :: rest => (strstr rest needle).map (· + 1)

theorem strstr_isSome_iff (hay needle : List UInt8) :
    (strstr hay needle).isSome ↔ needle <:+: hay := by
  induction hay with
  | nil =>
    unfold strstr
    split_ifs with h
    · simpa using List.isPrefixOf_iff_prefix.mp h
    · simpa using h
  | cons b hay ih =>
    unfold strstr
    split_ifs with h
    · simpa using (List.isPrefixOf_iff_prefix.mp h).isInfix
    · rw [List.isPrefixOf_iff_prefix] at h
      rw [Option.isSome_map, ih, List.infix_cons_iff]
      simp [h]

section Scan

variable {α : Type} {p : α → Bool} {c : α}

/-- A scan stops at the first letter behind a text that does not pass. -/
theorem takeWhile_append_cons (hc : p c = false) (s x : List α) :
    (s ++ c :: x).takeWhile p = s.takeWhile p := by
  rw [List.takeWhile_append, List.takeWhile_cons_of_neg (by simp [hc]), List.append_nil]
  split_ifs with h
  · exact ((List.takeWhile_prefix p).eq_of_length h).symm
  · rfl

theorem dropWhile_append_cons (hc : p c = false) (s x : List α) :
    (s ++ c :: x).dropWhile p = s.dropWhile p ++ c :: x := by
  rw [List.dropWhile_append, List.dropWhile_cons_of_neg (by simp [hc])]
  split_ifs with h
  · rw [List.isEmpty_iff.mp h, List.nil_append]
  · rfl

end Scan

/-! ### Numbers -/

def isspace (c : UInt8) : Bool := c = 32 || (9 ≤ c && c ≤ 13)

def isdigit (c : UInt8) : Bool := 48 ≤ c && c ≤ 57

/-- The value of a string of decimal digits. -/
def decimal (ds : List UInt8) : ℕ := ds.foldl (fun n d => 10 * n + (d.toNat - 48)) 0

/-- The decimal number at the start of a string. Outside the range of `int` C leaves the result
undefined; here it is the number itself. -/
def atoi (s : List UInt8) : ℤ :=
  match s.dropWhile isspace with
  | 45 :: t => -(decimal (t.takeWhile isdigit) : ℤ)
  | 43 :: t => decimal (t.takeWhile isdigit)
  | t => decimal (t.takeWhile isdigit)

theorem isspace_of_isdigit {d : UInt8} (h : isdigit d = true) : isspace d = false := by
  simp only [isdigit, Bool.and_eq_true, decide_eq_true_eq, UInt8.le_iff_toNat_le] at h
  have h₁ : d ≠ 32 := by rintro rfl; exact absurd h.1 (by decide)
  have h₂ : ¬ d ≤ 13 := by
    rw [UInt8.le_iff_toNat_le]
    have : (48 : UInt8).toNat = 48 := rfl
    have : (13 : UInt8).toNat = 13 := rfl
    omega
  simp [isspace, h₁, h₂]

/-- **Digits after blanks are read as their value.** -/
theorem atoi_digits {sp ds : List UInt8} (hsp : ∀ c ∈ sp, isspace c = true)
    (hds : ∀ d ∈ ds, isdigit d = true) : atoi (sp ++ ds) = decimal ds := by
  have h₁ : (sp ++ ds).dropWhile isspace = ds := by
    rw [List.dropWhile_append_of_pos hsp]
    cases ds with
    | nil => rfl
    | cons d ds =>
      rw [List.dropWhile_cons_of_neg]
      simp [isspace_of_isdigit (hds d List.mem_cons_self)]
  have h₂ : ds.takeWhile isdigit = ds := List.takeWhile_eq_self_iff.mpr hds
  unfold atoi
  rw [h₁]
  split
  · exact absurd (hds 45 List.mem_cons_self) (by decide)
  · exact absurd (hds 43 List.mem_cons_self) (by decide)
  · rw [h₂]

/-- **A text that is no number is not read** behind another one. -/
theorem atoi_append {c : UInt8} {x : List UInt8} (hs : isspace c = false) (hd : isdigit c = false)
    (h0 : atoi (c :: x) = 0) (s : List UInt8) : atoi (s ++ c :: x) = atoi s := by
  have hsplit := dropWhile_append_cons hs s x
  have hdigits := fun t => takeWhile_append_cons hd t x
  cases hw : s.dropWhile isspace with
  | nil =>
    have hx : (c :: x).dropWhile isspace = c :: x := List.dropWhile_cons_of_neg (by simp [hs])
    have hz : atoi s = 0 := by rw [atoi, hw]; rfl
    rw [hz, ← h0, atoi, hsplit, hw, List.nil_append, atoi, hx]
  | cons b t =>
    rw [atoi, atoi, hsplit, hw, List.cons_append]
    by_cases h₁ : b = 45
    · subst h₁
      exact congrArg (fun ds => -(decimal ds : ℤ)) (hdigits t)
    by_cases h₂ : b = 43
    · subst h₂
      exact congrArg (fun ds => (decimal ds : ℤ)) (hdigits t)
    · have h := hdigits (b :: t)
      rw [List.cons_append] at h
      simp [h₁, h₂, h]

/-! ### The tokenizer -/

/-- A call of `strtok`: the array afterwards, where the token starts, the position kept. -/
structure Tok (n : ℕ) where
  mem : Vector UInt8 n
  token : Option ℕ
  save : ℕ

/-- `strtok` from position `start`: skip delimiters, cut the token off with a NUL and keep the
position behind it. -/
def strtok {n : ℕ} (mem : Vector UInt8 n) (start : ℕ) (delim : List UInt8) : Tok n :=
  let s := cstr (mem.toList.drop start)
  let rest := s.dropWhile (· ∈ delim)
  let i := start + (s.takeWhile (· ∈ delim)).length
  let j := i + (rest.takeWhile (· ∉ delim)).length
  if rest = [] then ⟨mem, none, i⟩
  else if (rest.takeWhile (· ∉ delim)).length = rest.length then ⟨mem, some i, j⟩
  else ⟨mem.setIfInBounds j 0, some i, j + 1⟩

/-- The first token of a string. -/
def firstTok (delim s : List UInt8) : List UInt8 :=
  (s.dropWhile (· ∈ delim)).takeWhile (· ∉ delim)

/-- What follows the first token and the delimiter behind it. -/
def afterTok (delim s : List UInt8) : List UInt8 :=
  ((s.dropWhile (· ∈ delim)).dropWhile (· ∉ delim)).tail

theorem mem_of_mem_afterTok {delim s : List UInt8} {b : UInt8} (h : b ∈ afterTok delim s) :
    b ∈ s :=
  (List.dropWhile_suffix _).mem ((List.dropWhile_suffix _).mem (List.mem_of_mem_tail h))

/-- A string with at most one token and nothing behind it. -/
def OneWord (delim s : List UInt8) : Prop := (s.dropWhile (· ∈ delim)).dropWhile (· ∉ delim) = []

instance (delim s : List UInt8) : Decidable (OneWord delim s) := inferInstanceAs (Decidable (_ = _))

/-- **A token that goes on behind a text** is all of the first one if the text is one word. -/
theorem afterTok_of_oneWord {delim s x t : List UInt8} {c d : UInt8} (hs : OneWord delim s)
    (hc : c ∉ delim) (hx : ∀ b ∈ x, b ∉ delim) (hd : d ∈ delim) :
    afterTok delim (s ++ c :: (x ++ d :: t)) = t := by
  have hw : ∀ b ∈ s.dropWhile (· ∈ delim), decide (b ∉ delim) = true :=
    List.dropWhile_eq_nil_iff.mp hs
  have hx : ∀ b ∈ c :: x, decide (b ∉ delim) = true :=
    List.forall_mem_cons.mpr ⟨decide_eq_true hc, fun b hb => decide_eq_true (hx b hb)⟩
  have hskip : (s ++ c :: (x ++ d :: t)).dropWhile (· ∈ delim) =
    s.dropWhile (· ∈ delim) ++ c :: (x ++ d :: t) := dropWhile_append_cons (by simpa using hc) _ _
  rw [afterTok, hskip, List.dropWhile_append_of_pos hw, ← List.cons_append,
    List.dropWhile_append_of_pos hx, List.dropWhile_cons_of_neg (by simpa using hd), List.tail_cons]

/-- Otherwise the first token ends in the text. -/
theorem afterTok_append {delim s : List UInt8} (hs : ¬ OneWord delim s) (x : List UInt8) :
    afterTok delim (s ++ x) = afterTok delim s ++ x := by
  have h₁ : s.dropWhile (· ∈ delim) ≠ [] := fun h => hs (by rw [OneWord, h]; rfl)
  rw [afterTok, List.dropWhile_append, if_neg (mt List.isEmpty_iff.mp h₁), List.dropWhile_append,
    if_neg (mt List.isEmpty_iff.mp hs), List.tail_append_of_ne_nil hs]
  rfl

section Strtok

variable {n start : ℕ} {mem : Vector UInt8 n} {delim s tail : List UInt8}

/-- **A string of delimiters has no token**, and nothing is written. -/
theorem strtok_none (hm : mem.toList.drop start = s ++ 0 :: tail) (hs : 0 ∉ s)
    (h : s.dropWhile (· ∈ delim) = []) :
    (strtok mem start delim).token = none ∧ (strtok mem start delim).mem = mem := by
  simp only [strtok, hm, cstr_append_nul hs, h, if_true, and_self]

/-- A string is its delimiters in front, its first token, and what is behind. -/
theorem eq_lead_append_token (delim s : List UInt8) : s = s.takeWhile (· ∈ delim) ++
    (firstTok delim s ++ (s.dropWhile (· ∈ delim)).dropWhile (· ∉ delim)) := by
  rw [firstTok, List.takeWhile_append_dropWhile, List.takeWhile_append_dropWhile]

theorem zero_notMem_firstTok (hs : 0 ∉ s) : 0 ∉ firstTok delim s := fun h0 => hs <| by
  rw [eq_lead_append_token delim s]
  exact List.mem_append_right _ (List.mem_append_left _ h0)

/-- The memory from the first token on. -/
theorem drop_token (hm : mem.toList.drop start = s ++ 0 :: tail) (delim : List UInt8) (k : ℕ) :
    mem.toList.drop (start + (s.takeWhile (· ∈ delim)).length + k) = (firstTok delim s ++
      ((s.dropWhile (· ∈ delim)).dropWhile (· ∉ delim) ++ 0 :: tail)).drop k := by
  have hsplit : s ++ 0 :: tail = s.takeWhile (· ∈ delim) ++ (firstTok delim s ++
      ((s.dropWhile (· ∈ delim)).dropWhile (· ∉ delim) ++ 0 :: tail)) := by
    rw [← List.append_assoc (firstTok delim s), ← List.append_assoc, ← eq_lead_append_token]
  rw [Nat.add_assoc, ← List.drop_drop, hm, hsplit, List.drop_length_add_append]

/-- **Otherwise the token is cut off**: it can be read at the returned position, and the kept
position is that of the remaining text. -/
theorem strtok_some (hm : mem.toList.drop start = s ++ 0 :: tail) (hs : 0 ∉ s)
    (h : s.dropWhile (· ∈ delim) ≠ []) :
    ∃ i, (strtok mem start delim).token = some i ∧
      cstr ((strtok mem start delim).mem.toList.drop i) = firstTok delim s ∧
      (strtok mem start delim).mem.toList.drop (strtok mem start delim).save =
        afterTok delim s ++ 0 :: tail := by
  have hdrop := drop_token hm delim
  have htok : (s.dropWhile (· ∈ delim)).takeWhile (· ∉ delim) = firstTok delim s := rfl
  have htok0 : 0 ∉ firstTok delim s := zero_notMem_firstTok hs
  have hlen : (firstTok delim s).length = (s.dropWhile (· ∈ delim)).length ↔
      (s.dropWhile (· ∈ delim)).dropWhile (· ∉ delim) = [] := by
    have hrest := congrArg List.length
      (List.takeWhile_append_dropWhile (p := (· ∉ delim)) (l := s.dropWhile (· ∈ delim)))
    rw [List.length_append] at hrest
    rw [← List.length_eq_zero_iff, firstTok]
    omega
  refine ⟨start + (s.takeWhile (· ∈ delim)).length, ?_⟩
  unfold strtok
  simp only [hm, cstr_append_nul hs, if_neg h, htok, hlen]
  rw [afterTok]
  generalize (s.dropWhile (· ∈ delim)).dropWhile (· ∉ delim) = more at hdrop ⊢
  have h0 := hdrop 0
  rw [Nat.add_zero, List.drop_zero] at h0
  split_ifs with hmore
  · -- the token ends at the NUL of the string
    subst hmore
    refine ⟨rfl, ?_, ?_⟩
    · rw [h0, List.nil_append, cstr_append_nul htok0]
    · rw [hdrop, List.drop_left]
      rfl
  · -- the delimiter behind the token is overwritten
    obtain ⟨d, more', rfl⟩ := List.exists_cons_of_ne_nil hmore
    refine ⟨rfl, ?_, ?_⟩
    · rw [Vector.toList_setIfInBounds, List.drop_set, if_neg (by omega), h0,
        Nat.add_sub_cancel_left, List.set_append_right _ _ le_rfl, Nat.sub_self]
      exact cstr_append_nul htok0 _
    · simp only [Vector.toList_setIfInBounds, List.drop_set]
      rw [if_pos (by omega), Nat.add_assoc, hdrop, ← List.drop_drop, List.drop_left]
      rfl

end Strtok

/-! ### Formatted output -/

def hexDigit (x : UInt8) : UInt8 := if x < 10 then 48 + x else 87 + x

/-- The conversion `%02x` of a byte. -/
def fmt02x (b : UInt8) : List UInt8 := [hexDigit (b >>> 4), hexDigit (b &&& 15)]

/-- Write some bytes to the start of an array. -/
def overwrite {n : ℕ} (dst : Vector UInt8 n) (w : List UInt8) : Vector UInt8 n :=
  Vector.ofFn fun i => w.getD i dst[i]

/-- `snprintf` of a text into an array: at most `len - 1` bytes and a NUL. -/
def snprintf {n : ℕ} (dst : Vector UInt8 n) (len : ℕ) (text : List UInt8) : Vector UInt8 n :=
  overwrite dst (if len = 0 then [] else text.take (len - 1) ++ [0])

theorem toList_overwrite {n : ℕ} (dst : Vector UInt8 n) {w : List UInt8} (h : w.length ≤ n) :
    (overwrite dst w).toList = w ++ dst.toList.drop w.length := by
  refine List.ext_getElem (by simp; omega) fun i h₁ h₂ => ?_
  rw [List.getElem_append]
  split_ifs with hi
  · simp [overwrite, hi]
  · have : w.length + (i - w.length) = i := by omega
    simp [overwrite, List.getElem?_eq_none (Nat.le_of_not_lt hi), this]

end CString
