import MeshNode.Node.Uuid

/-!
# The format of identifiers

The firmware checks an identifier with `is_valid_uuid_v6`, the unit tests with a function of their
own. Both read the characters in another order, and both return early.

* `validateUuidFormat`: the function of the unit tests, with every access to the string checked;
* `IsUuidV6Text`: the grammar;
* `WellPlaced`: one test of all characters, and `okAt_all_iff`, `hyphens_all_iff`: what both
  functions test in their own order;
* `Pieces`, **`Pieces.wellPlaced_iff`**: a text of the right length, cut where the dashes belong;
* `isValidUuidV6_eq_some`, `validateUuidFormat_eq_some`: each accepts the grammar;
* **`validators_agree`**: on every string both give the same answer, that of the grammar.
-/

namespace MeshNode

open CString

/-! ### The function of the unit tests -/

/-- Test the characters at some positions, up to the first failure; `none` if one of the accesses is
behind the NUL. -/
def allAt (ok : ℕ → UInt8 → Bool) (s : List UInt8) : List ℕ → Option Bool
  | [] => pure true
  | i :: is => do
    let c ← charAt s i
    if ok i c then allAt ok s is else pure false

/-- `validate_uuid_format`, on a string without its NUL. -/
def validateUuidFormat (s : List UInt8) : Option Bool :=
  if s.length ≠ 36 then pure false else do
    let hyphens ← allAt (fun _ c => c = dash) s [8, 13, 18, 23]
    if ¬ hyphens then pure false else do
      let c ← charAt s 14
      if c ≠ 54 then pure false else
        -- the loop skips the positions of the hyphens without an access
        allAt (fun _ c => isxdigit c) s
          ((List.range 36).filter fun i => ¬ (i = 8 ∨ i = 13 ∨ i = 18 ∨ i = 23))

/-! ### The grammar -/

/-- A text of the form `hex{8}-hex{4}-6hex{3}-hex{4}-hex{12}`. -/
def IsUuidV6Text (s : List UInt8) : Prop :=
  ∃ a b c d e, s = a ++ dash :: (b ++ dash :: (54 :: c ++ dash :: (d ++ dash :: e))) ∧
    a.length = 8 ∧ b.length = 4 ∧ c.length = 3 ∧ d.length = 4 ∧ e.length = 12 ∧
    ∀ x ∈ a ++ b ++ c ++ d ++ e, isxdigit x = true

/-! ### One test of all characters -/

/-- Every character is in its place, and the version is 6. -/
def WellPlaced (s : List UInt8) : Prop :=
  (∀ i < 36, okAt i (s.getD i 0) = true) ∧ s.getD 14 0 = 54

theorem charAt_of_le {s : List UInt8} {i : ℕ} (h : i ≤ s.length) :
    charAt s i = some (s.getD i 0) := by
  unfold charAt
  rcases h.lt_or_eq with h | rfl
  · rw [List.getElem?_append_left h, List.getD_eq_getElem?_getD, List.getElem?_eq_getElem h]
    rfl
  · simp

theorem allAt_eq {ok : ℕ → UInt8 → Bool} {s : List UInt8} {is : List ℕ}
    (h : ∀ i ∈ is, i ≤ s.length) : allAt ok s is = some (is.all fun i => ok i (s.getD i 0)) := by
  induction is with
  | nil => rfl
  | cons i is ih =>
    obtain ⟨hi, his⟩ := List.forall_mem_cons.mp h
    rw [allAt, charAt_of_le hi, List.all_cons]
    change (if ok i (s.getD i 0) = true then allAt ok s is else some false) = _
    cases ok i (s.getD i 0) with
    | true => rw [if_pos rfl, ih his, Bool.true_and]
    | false => rfl

theorem checkFormat_eq_allAt (s : List UInt8) (is : List ℕ) :
    checkFormat s is = allAt okAt s is := by
  induction is with
  | nil => rfl
  | cons i is ih =>
    rw [checkFormat, allAt, ih]

/-- **The firmware's validator** tests every character and then the version. -/
theorem isValidUuidV6_of_length {s : List UInt8} (h : s.length = uuidStrLen - 1) :
    isValidUuidV6 s = some ((List.range (uuidStrLen - 1)).all (fun i => okAt i (s.getD i 0)) &&
      decide (s.getD 14 0 = 54)) := by
  have hle : ∀ i ∈ List.range (uuidStrLen - 1), i ≤ s.length := fun i hi =>
    h ▸ (List.mem_range.mp hi).le
  have hc : charAt s 14 = some (s.getD 14 0) := charAt_of_le (h ▸ by decide)
  unfold isValidUuidV6
  rw [if_neg (not_not.mpr h), checkFormat_eq_allAt, allAt_eq hle, hc]
  generalize s.getD 14 0 = c
  cases (List.range (uuidStrLen - 1)).all fun i => okAt i (s.getD i 0) with
  | true => by_cases h54 : c = 54 <;> simp [h54]
  | false => rfl

/-- **The validator of the tests** tests the hyphens, the version and the digits. -/
theorem validateUuidFormat_of_length {s : List UInt8} (h : s.length = 36) : validateUuidFormat s =
    some ([8, 13, 18, 23].all (fun i => s.getD i 0 = dash) && (decide (s.getD 14 0 = 54) &&
      ((List.range 36).filter fun i => ¬ (i = 8 ∨ i = 13 ∨ i = 18 ∨ i = 23)).all
        fun i => isxdigit (s.getD i 0))) := by
  have hdash : ∀ i ∈ [8, 13, 18, 23], i ≤ s.length := h ▸ by decide
  have hle : ∀ i ∈ (List.range 36).filter fun i => ¬ (i = 8 ∨ i = 13 ∨ i = 18 ∨ i = 23),
      i ≤ s.length := fun i hi => h ▸ (List.mem_range.mp (List.mem_of_mem_filter hi)).le
  have hc : charAt s 14 = some (s.getD 14 0) := charAt_of_le (h ▸ by decide)
  unfold validateUuidFormat
  rw [if_neg (not_not.mpr h), allAt_eq hdash, allAt_eq hle, hc]
  generalize s.getD 14 0 = c, List.all _ (fun i => isxdigit (s.getD i 0)) = digits
  cases [8, 13, 18, 23].all fun i => decide (s.getD i 0 = dash) with
  | true => by_cases h54 : c = 54 <;> simp [h54]
  | false => rfl

/-- Both tests mean that every character is in its place. -/
theorem okAt_all_iff (s : List UInt8) :
    ((List.range 36).all (fun i => okAt i (s.getD i 0)) && decide (s.getD 14 0 = 54)) = true ↔
      WellPlaced s := by
  rw [Bool.and_eq_true, List.all_eq_true, decide_eq_true_eq]
  exact and_congr_left fun _ => forall_congr' fun i => imp_congr_left List.mem_range

theorem hyphens_all_iff (s : List UInt8) :
    ([8, 13, 18, 23].all (fun i => s.getD i 0 = dash) && (decide (s.getD 14 0 = 54) &&
      ((List.range 36).filter fun i => ¬ (i = 8 ∨ i = 13 ∨ i = 18 ∨ i = 23)).all
        fun i => isxdigit (s.getD i 0))) = true ↔ WellPlaced s := by
  rw [Bool.and_eq_true, Bool.and_eq_true, List.all_eq_true, List.all_eq_true, decide_eq_true_eq]
  constructor
  · rintro ⟨hd, hv, hx⟩
    refine ⟨fun i hi => ?_, hv⟩
    unfold okAt
    split_ifs with hp
    · exact hd i (by simpa using hp)
    · exact hx i (List.mem_filter.mpr ⟨List.mem_range.mpr hi, decide_eq_true hp⟩)
  · rintro ⟨hok, hv⟩
    refine ⟨fun i hi => ?_, hv, fun i hi => ?_⟩
    · have hp : i = 8 ∨ i = 13 ∨ i = 18 ∨ i = 23 := by simpa using hi
      have := hok i (by omega)
      rwa [okAt, if_pos hp] at this
    · obtain ⟨hr, hp⟩ := List.mem_filter.mp hi
      have := hok i (List.mem_range.mp hr)
      rwa [okAt, if_neg (of_decide_eq_true hp)] at this

/-! ### The pieces of a text -/

/-- The pieces of a text of 36 characters: its five groups, the version split off the third, and the
characters between them. -/
structure Pieces where
  (a b c d e : List UInt8)
  (p q v r t : UInt8)
  a_length : a.length = 8
  b_length : b.length = 4
  c_length : c.length = 3
  d_length : d.length = 4
  e_length : e.length = 12

/-- The text. -/
def Pieces.text (x : Pieces) : List UInt8 :=
  x.a ++ x.p :: (x.b ++ x.q :: (x.v :: x.c ++ x.r :: (x.d ++ x.t :: x.e)))

theorem exists_append_cons {s : List UInt8} {n : ℕ} (h : n < s.length) :
    ∃ a x t, s = a ++ x :: t ∧ a.length = n :=
  ⟨s.take n, s[n], s.drop (n + 1), by rw [← List.drop_eq_getElem_cons h, List.take_append_drop],
    List.length_take_of_le h.le⟩

/-- Every text of 36 characters has its pieces. -/
theorem exists_pieces {s : List UInt8} (h : s.length = 36) : ∃ x : Pieces, x.text = s := by
  obtain ⟨a, p, s₁, rfl, ha⟩ := exists_append_cons (s := s) (n := 8) (by omega)
  rw [List.length_append, List.length_cons] at h
  obtain ⟨b, q, s₂, rfl, hb⟩ := exists_append_cons (s := s₁) (n := 4) (by omega)
  rw [List.length_append, List.length_cons] at h
  obtain ⟨vc, r, s₃, rfl, hc⟩ := exists_append_cons (s := s₂) (n := 4) (by omega)
  rw [List.length_append, List.length_cons] at h
  obtain ⟨d, t, e, rfl, hd⟩ := exists_append_cons (s := s₃) (n := 4) (by omega)
  rw [List.length_append, List.length_cons] at h
  obtain ⟨v, c, rfl⟩ := List.exists_cons_of_length_pos (l := vc) (by omega)
  exact ⟨⟨a, b, c, d, e, p, q, v, r, t, ha, hb, Nat.succ.inj hc, hd, by omega⟩, rfl⟩

/-- Digits at positions without a dash. -/
theorem zipIdx_all_okAt {s : List UInt8} {k : ℕ}
    (h : ∀ i < s.length, ¬ (k + i = 8 ∨ k + i = 13 ∨ k + i = 18 ∨ k + i = 23)) :
    ((s.zipIdx k).all fun p => okAt p.2 p.1) = s.all isxdigit := by
  induction s generalizing k with
  | nil => rfl
  | cons c s ih =>
    have h₀ := h 0 (Nat.succ_pos _)
    rw [Nat.add_zero] at h₀
    rw [List.zipIdx_cons, List.all_cons, List.all_cons, okAt, if_neg h₀,
      ih fun i hi => (Nat.add_right_comm k 1 i ▸ h (i + 1) (Nat.succ_lt_succ hi) : _)]
    rfl

theorem forall_getD_iff (s : List UInt8) : (∀ i < s.length, okAt i (s.getD i 0) = true) ↔
    (s.zipIdx.all fun p => okAt p.2 p.1) = true := by
  rw [List.all_eq_true]
  constructor
  · rintro h ⟨c, i⟩ hm
    have hi : s[i]? = some c := List.mem_zipIdx_iff_getElem?.mp hm
    have := h i (List.getElem?_eq_some_iff.mp hi).1
    rwa [List.getD_eq_getElem?_getD, hi] at this
  · intro h i hi
    have := h (s[i], i) (List.mem_zipIdx_iff_getElem?.mpr (List.getElem?_eq_getElem hi))
    simpa [hi] using this

theorem Pieces.getD_version (x : Pieces) : x.text.getD 14 0 = x.v := by
  have ha := x.a_length
  have hb := x.b_length
  rw [List.getD_eq_getElem?_getD, Pieces.text, List.getElem?_append_right (by omega), ha,
    List.getElem?_cons_succ, List.getElem?_append_right (by omega), hb]
  rfl

theorem Pieces.text_length (x : Pieces) : x.text.length = 36 := by
  have ha := x.a_length
  have hb := x.b_length
  have hc := x.c_length
  have hd := x.d_length
  have he := x.e_length
  simp only [Pieces.text, List.cons_append, List.length_append, List.length_cons]
  omega

/-- **A text is well placed** if its groups are digits, with dashes between them and the version. -/
theorem Pieces.wellPlaced_iff (x : Pieces) : WellPlaced x.text ↔
    (x.p = dash ∧ x.q = dash ∧ x.r = dash ∧ x.t = dash) ∧ x.v = 54 ∧
    ∀ y ∈ x.a ++ x.b ++ x.c ++ x.d ++ x.e, isxdigit y = true := by
  have ha := x.a_length
  have hb := x.b_length
  have hc := x.c_length
  have hd := x.d_length
  have he := x.e_length
  rw [WellPlaced, ← x.text_length, forall_getD_iff, x.getD_version, Pieces.text]
  simp only [List.zipIdx_append, List.zipIdx_cons, List.cons_append, List.all_append,
    List.all_cons, ha, hb, hc, hd]
  rw [zipIdx_all_okAt (by omega), zipIdx_all_okAt (by omega), zipIdx_all_okAt (by omega),
    zipIdx_all_okAt (by omega), zipIdx_all_okAt (by omega)]
  -- the positions 8, 13, 18 and 23 are those of the dashes, 14 is that of the version
  change (_ && (decide (x.p = dash) && (_ && (decide (x.q = dash) && (isxdigit x.v &&
    (_ && (decide (x.r = dash) && (_ && (decide (x.t = dash) && _))))))))) = true ∧ _ ↔ _
  simp only [Bool.and_eq_true, decide_eq_true_eq, List.all_eq_true, List.forall_mem_append]
  have hv : x.v = 54 → isxdigit x.v = true := fun h => h ▸ rfl
  tauto

/-! ### The validators -/

/-- **The grammar** is that of the well placed texts. -/
theorem isUuidV6Text_iff (s : List UInt8) : IsUuidV6Text s ↔ s.length = 36 ∧ WellPlaced s := by
  constructor
  · rintro ⟨a, b, c, d, e, rfl, ha, hb, hc, hd, he, hx⟩
    let x : Pieces := ⟨a, b, c, d, e, dash, dash, 54, dash, dash, ha, hb, hc, hd, he⟩
    exact ⟨x.text_length, x.wellPlaced_iff.mpr ⟨⟨rfl, rfl, rfl, rfl⟩, rfl, hx⟩⟩
  · rintro ⟨hlen, hw⟩
    obtain ⟨x, rfl⟩ := exists_pieces hlen
    obtain ⟨⟨hp, hq, hr, ht⟩, hv, hx⟩ := x.wellPlaced_iff.mp hw
    refine ⟨x.a, x.b, x.c, x.d, x.e, ?_, x.a_length, x.b_length, x.c_length, x.d_length,
      x.e_length, hx⟩
    rw [Pieces.text, hp, hq, hr, ht, hv]

/-- **The firmware accepts the grammar**, and does not read behind the NUL. -/
theorem isValidUuidV6_eq_some (s : List UInt8) :
    ∃ b, isValidUuidV6 s = some b ∧ (b = true ↔ IsUuidV6Text s) := by
  rw [isUuidV6Text_iff]
  by_cases h : s.length = 36
  · exact ⟨_, isValidUuidV6_of_length h, (okAt_all_iff s).trans (iff_and_self.mpr fun _ => h)⟩
  · exact ⟨false, if_pos h, by simp [h]⟩

/-- **The tests accept the grammar** as well. -/
theorem validateUuidFormat_eq_some (s : List UInt8) :
    ∃ b, validateUuidFormat s = some b ∧ (b = true ↔ IsUuidV6Text s) := by
  rw [isUuidV6Text_iff]
  by_cases h : s.length = 36
  · exact ⟨_, validateUuidFormat_of_length h,
      (hyphens_all_iff s).trans (iff_and_self.mpr fun _ => h)⟩
  · exact ⟨false, if_pos h, by simp [h]⟩

/-- **Two validators, one grammar.** On every string both validators come to an answer without
reading behind the NUL, it is the same, and it is that of the grammar. -/
theorem validators_agree (s : List UInt8) : ∃ b, isValidUuidV6 s = some b ∧
    validateUuidFormat s = some b ∧ (b = true ↔ IsUuidV6Text s) := by
  obtain ⟨b, hb, hgrammar⟩ := isValidUuidV6_eq_some s
  obtain ⟨b', hb', hgrammar'⟩ := validateUuidFormat_eq_some s
  obtain rfl : b = b' := Bool.eq_iff_iff.mpr (hgrammar.trans hgrammar'.symm)
  exact ⟨b, hb, hb', hgrammar⟩

end MeshNode
