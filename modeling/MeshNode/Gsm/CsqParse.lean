import MeshNode.Gsm.Signal

/-!
# Lines that contain a reply

The receive loop looks for `+CSQ` anywhere in a line, but takes the line apart from its start. A
text before the reply may have words of its own, and then the number is looked for in the wrong
place.

* `CsqLine`: a text, a reply `+CSQ:` with a number, and the rest of the line;
* `strayNumber`: the number found behind the first word of the text;
* **`csqValue_csqLine`**: the value of such a line;
* **`csqUpdate_value_iff`**: the lines whose number is found.
-/

namespace MeshNode

open Interact Prog CString

/-- A line in which the first `+CSQ` follows the text `p` and goes on as `: ds,`, with any number of
blanks, where the number `ds` is in the range of `int`. -/
structure CsqLine (line p ds : List UInt8) : Prop where
  first : strstr line (lit "+CSQ") = some p.length
  text : ∃ sp rest, line = p ++ (lit "+CSQ" ++ 58 :: (sp ++ (ds ++ 44 :: rest))) ∧
    ∀ c ∈ sp, c = 32
  nonempty : ds ≠ []
  digits : ∀ d ∈ ds, isdigit d = true
  range : decimal ds < 2 ^ 31

/-- The number in a text behind its first word, up to a comma. -/
def strayNumber (p : List UInt8) : ℤ := atoi (firstTok (lit ",") (afterTok (lit ": ") p))

/-! ### The value of a line -/

/-- The blanks and digits of a reply are the token before its comma. -/
theorem firstTok_digits {sp ds : List UInt8} (rest : List UInt8) (hsp : ∀ c ∈ sp, c = 32)
    (hne : ds ≠ []) (hds : ∀ d ∈ ds, isdigit d = true) :
    (sp ++ (ds ++ 44 :: rest)).dropWhile (· ∈ lit ",") ≠ [] ∧
    firstTok (lit ",") (sp ++ (ds ++ 44 :: rest)) = sp ++ ds := by
  have hno : ∀ b ∈ sp ++ ds, b ∉ lit "," := by
    intro b hb hc
    rw [List.mem_singleton.mp hc] at hb
    rcases List.mem_append.mp hb with hb | hb
    · exact absurd (hsp _ hb) (by decide)
    · exact absurd (hds _ hb) (by decide)
  obtain ⟨b, t, hbt⟩ := List.exists_cons_of_ne_nil (List.append_ne_nil_of_right_ne_nil sp hne)
  have hb : b ∉ lit "," := hno b (hbt ▸ List.mem_cons_self)
  have hskip : (sp ++ (ds ++ 44 :: rest)).dropWhile (· ∈ lit ",") = sp ++ (ds ++ 44 :: rest) := by
    rw [← List.append_assoc, hbt, List.cons_append, List.dropWhile_cons_of_neg (by simpa using hb)]
  refine ⟨by rw [hskip]; simp, ?_⟩
  rw [firstTok, hskip, ← List.append_assoc, takeWhile_append_cons (by decide)]
  exact List.takeWhile_eq_self_iff.mpr fun b hb => decide_eq_true (hno b hb)

/-- Behind a text that has words of its own, `+CSQ` is not read as a number. -/
theorem atoi_firstTok_csq (q y : List UInt8) :
    (q ++ (lit "+CSQ" ++ y)).dropWhile (· ∈ lit ",") ≠ [] ∧
    atoi (firstTok (lit ",") (q ++ (lit "+CSQ" ++ y))) = atoi (firstTok (lit ",") q) := by
  have hskip : (q ++ (lit "+CSQ" ++ y)).dropWhile (· ∈ lit ",") =
      q.dropWhile (· ∈ lit ",") ++ (lit "+CSQ" ++ y) := dropWhile_append_cons (by decide) _ _
  refine ⟨by rw [hskip]; simp [lit], ?_⟩
  rw [firstTok, hskip, firstTok]
  generalize q.dropWhile (· ∈ lit ",") = q'
  rw [List.takeWhile_append]
  split_ifs with hcomma
  · -- no comma in the text: the token goes on with `+CSQ`
    rw [(List.takeWhile_prefix _).eq_of_length hcomma]
    exact atoi_append rfl rfl rfl q'
  · rfl

/-- The value of a line in which something stands behind the first token. -/
theorem csqValue_of_afterTok {line rest : List UInt8}
    (hcsq : (strstr line (lit "+CSQ")).isSome = true)
    (hafter : afterTok (lit ": ") line = rest) (hrest : rest.dropWhile (· ∈ lit ",") ≠ []) (v : ℤ) :
    csqValue v line = atoi (firstTok (lit ",") rest) := by
  subst hafter
  rw [csqValue, if_pos hcsq]
  exact if_neg hrest

/-- **The value of a line with a reply**: its number, if the text before it is one word, and
otherwise the number behind the first word of this text. -/
theorem csqValue_csqLine {line p ds : List UInt8} (h : CsqLine line p ds) (v : ℤ) :
    csqValue v line = if OneWord (lit ": ") p then (decimal ds : ℤ) else strayNumber p := by
  have hcsq : (strstr line (lit "+CSQ")).isSome = true := by rw [h.first]; rfl
  obtain ⟨sp, rest, rfl, hsp⟩ := h.text
  split_ifs with hp
  · -- the second token is the number of the reply
    obtain ⟨hrest, htok⟩ := firstTok_digits rest hsp h.nonempty h.digits
    have hword : (lit "CSQ").all (· ∉ lit ": ") = true := rfl
    have hafter := afterTok_of_oneWord (t := sp ++ (ds ++ 44 :: rest)) hp (c := 43) (d := 58)
      (by decide) (fun b hb => of_decide_eq_true (List.all_eq_true.mp hword b hb)) (by decide)
    rw [csqValue_of_afterTok hcsq hafter hrest, htok]
    exact atoi_digits (fun c hc => by rw [hsp c hc]; rfl) h.digits
  · -- it starts behind the first word of the text
    obtain ⟨hrest, hvalue⟩ := atoi_firstTok_csq (afterTok (lit ": ") p)
      (58 :: (sp ++ (ds ++ 44 :: rest)))
    rw [csqValue_of_afterTok hcsq (afterTok_append hp _) hrest, hvalue, strayNumber]

/-! ### The loop body -/

theorem exists_runs_csqUpdate (m : UartMsg) (v : ℤ) : ∃ tr s, (csqUpdate m v).Runs tr s := by
  obtain ⟨tr, s, h⟩ := exists_exec_csqUpdate (E := fun w _ => some w) (fun _ _ _ => rfl) m v ()
  exact ⟨tr, s, h.runs⟩

/-- **The number of the reply is found** exactly if the text before it is one word, or happens to
have the same number behind its first word. A line without `+CSQ` changes nothing. Every message can
be handled. -/
theorem csqUpdate_value_iff (m : UartMsg) (v : ℤ) (h0 : 0 ∈ m.toList) :
    (∃ tr s, (csqUpdate m v).Runs tr s) ∧ ∀ tr s, (csqUpdate m v).Runs tr s →
      (∀ p ds, CsqLine (cstr m.toList) p ds →
        (s.2 = decimal ds ↔ OneWord (lit ": ") p ∨ strayNumber p = decimal ds)) ∧
      (¬ lit "+CSQ" <:+: cstr m.toList → s.2 = v) := by
  refine ⟨exists_runs_csqUpdate m v, ?_⟩
  rintro tr ⟨m', v'⟩ h
  have hv := runs_csqUpdate h0 h
  refine ⟨fun p ds hline => ?_, fun hno => hv.trans (csqValue_other hno v)⟩
  rw [hv, csqValue_csqLine hline]
  by_cases hp : OneWord (lit ": ") p <;> simp [hp]

/-! ### Two lines -/

/-- A message that holds a given string. -/
theorem exists_message (line : List UInt8) (hlen : line.length < uartMaxMsgLen) (h0 : 0 ∉ line) :
    ∃ m : UartMsg, 0 ∈ m.toList ∧ cstr m.toList = line := by
  obtain ⟨k, hk⟩ := Nat.exists_eq_add_of_lt hlen
  have hrep : uartMaxMsgLen - line.length = k + 1 := by omega
  refine ⟨overwrite (Vector.replicate _ 0) line, ?_⟩
  rw [toList_overwrite _ hlen.le, Vector.toList_replicate, List.drop_replicate, hrep,
    List.replicate_succ, cstr_append_nul h0]
  simp

theorem csqLine_plain : CsqLine (lit "+CSQ: 15,99") [] (lit "15") where
  first := rfl
  text := ⟨lit " ", lit "99", rfl, List.forall_mem_singleton.mpr rfl⟩
  nonempty := by decide
  digits := List.all_eq_true.mp rfl
  range := by decide

theorem csqLine_second_word : CsqLine (lit "OK +CSQ: 15,99") (lit "OK ") (lit "15") where
  first := by decide +kernel
  text := ⟨lit " ", lit "99", rfl, List.forall_mem_singleton.mpr rfl⟩
  nonempty := by decide
  digits := List.all_eq_true.mp rfl
  range := by decide

/-- A plain reply gives its number. -/
theorem csqUpdate_value_plain : ∃ m tr s, 0 ∈ m.toList ∧ cstr m.toList = lit "+CSQ: 15,99" ∧
    (csqUpdate m 0).Runs tr s ∧ s.2 = 15 := by
  obtain ⟨m, h0, hline⟩ := exists_message (lit "+CSQ: 15,99") (by decide) (by decide)
  obtain ⟨⟨tr, s, h⟩, hall⟩ := csqUpdate_value_iff m 0 h0
  exact ⟨m, tr, s, h0, hline, h, ((hall tr s h).1 [] (lit "15") (hline ▸ csqLine_plain)).mpr
    (.inl rfl)⟩

/-- Behind another word the reply is read as `0`. -/
theorem csqUpdate_value_second_word : CsqLine (lit "OK +CSQ: 15,99") (lit "OK ") (lit "15") ∧
    ∃ m tr s, 0 ∈ m.toList ∧ cstr m.toList = lit "OK +CSQ: 15,99" ∧ (csqUpdate m 7).Runs tr s ∧
      s.2 = 0 ∧ s.2 ≠ decimal (lit "15") := by
  refine ⟨csqLine_second_word, ?_⟩
  obtain ⟨m, h0, hline⟩ := exists_message (lit "OK +CSQ: 15,99") (by decide) (by decide)
  obtain ⟨tr, ⟨m', v⟩, h⟩ := exists_runs_csqUpdate m 7
  have hv : v = 0 := by
    rw [runs_csqUpdate h0 h, hline, csqValue_csqLine csqLine_second_word, if_neg (by decide)]
    rfl
  exact ⟨m, tr, (m', v), h0, hline, h, hv, fun e => absurd (hv.symm.trans e) (by decide)⟩

end MeshNode
