import MeshNode.Lib.CString

/-!
# Writes into a block of memory

A block is written from some position on; a write outside it has no result. Formatted output goes
into a buffer piece by piece, each piece from where the one before it ended and with the room that
is left.

* `put`: entries written from a position on; `put_put`: over the end of what was written before;
* `snprintfAt`: `snprintf` to a position of the buffer;
* **`snprintfAt_append`**: two calls are one call with both texts, `snprintfAt_cons`: and a letter
  that is stored in front; `snprintfAt_of_length_le`: nothing is added to a full buffer;
* `snprintfAt_eq_some`: the buffer afterwards; `drop_of_snprintfAt`: what is behind it.
-/

namespace CString

section Put

variable {α : Type} {mem m s w w' : List α} {pos : ℕ}

/-- Write entries from a position on, if they fit into the object. -/
def put (mem : List α) (pos : ℕ) (w : List α) : Option (List α) :=
  if pos + w.length ≤ mem.length then some (mem.take pos ++ (w ++ mem.drop (pos + w.length)))
  else none

theorem put_eq_some :
    put mem pos w = some m ↔ pos + w.length ≤ mem.length ∧
      mem.take pos ++ (w ++ mem.drop (pos + w.length)) = m := by
  simp [put]

@[simp] theorem put_nil (h : pos ≤ mem.length) : put mem pos [] = some mem := by
  simp [put, h]

/-- A write over a block of its length. -/
theorem put_block {p q r : List α} (h : q.length = w.length) :
    put (p ++ (q ++ r)) p.length w = some (p ++ (w ++ r)) := by
  rw [put, if_pos (by simp [h]), List.take_left, ← List.drop_drop, List.drop_left, ← h,
    List.drop_left]

theorem put_eq_none (h : mem.length < pos + w.length) : put mem pos w = none := by
  rw [put, if_neg (by omega)]

/-- An object as a write finds it: what is before it, what it replaces, what is behind it. -/
theorem exists_block {n : ℕ} (h : pos + n ≤ mem.length) :
    ∃ p q r, mem = p ++ (q ++ r) ∧ p.length = pos ∧ q.length = n := by
  refine ⟨mem.take pos, (mem.drop pos).take n, (mem.drop pos).drop n, ?_, ?_, ?_⟩
  · rw [List.take_append_drop, List.take_append_drop]
  · rw [List.length_take]
    omega
  · rw [List.length_take, List.length_drop]
    omega

/-- A write keeps the size of the object. -/
theorem length_of_put (h : put mem pos w = some m) : m.length = mem.length := by
  obtain ⟨hle, rfl⟩ := put_eq_some.mp h
  simp only [List.length_append, List.length_take, List.length_drop]
  omega

/-- What is behind a write stays. -/
theorem drop_of_put {k : ℕ} (h : put mem pos w = some m) (hk : pos + w.length ≤ k) :
    m.drop k = mem.drop k := by
  obtain ⟨hle, rfl⟩ := put_eq_some.mp h
  obtain ⟨j, rfl⟩ := Nat.exists_eq_add_of_le hk
  have hlen : (mem.take pos ++ w).length = pos + w.length := by
    rw [List.length_append, List.length_take]
    omega
  rw [← List.append_assoc, ← hlen, List.drop_length_add_append, List.drop_drop]

/-- **Two writes are one** when the second begins in the first and reaches its end. -/
theorem put_put (hw : w.length ≤ w'.length) :
    ((put mem pos (s ++ w)).bind fun m => put m (pos + s.length) w') = put mem pos (s ++ w') := by
  by_cases h : pos + (s ++ w').length ≤ mem.length
  · obtain ⟨p, q, r, rfl, rfl, hq⟩ := exists_block h
    rw [List.length_append] at hq
    obtain ⟨q₁, q₂, rfl, h₁, h₂⟩ : ∃ q₁ q₂, q = q₁ ++ q₂ ∧ q₁.length = (s ++ w).length ∧
        (w ++ q₂).length = w'.length := by
      refine ⟨q.take (s ++ w).length, q.drop (s ++ w).length,
        (List.take_append_drop _ _).symm, ?_, ?_⟩
      · rw [List.length_take, List.length_append]
        omega
      · rw [List.length_append, List.length_drop, List.length_append]
        omega
    have hfirst : put (p ++ (q₁ ++ q₂ ++ r)) p.length (s ++ w) =
        some (p ++ s ++ (w ++ q₂ ++ r)) := by
      rw [List.append_assoc q₁, put_block h₁]
      simp
    have hsecond : put (p ++ s ++ (w ++ q₂ ++ r)) (p ++ s).length w' =
        some (p ++ s ++ (w' ++ r)) := put_block h₂
    rw [hfirst, Option.bind_some, ← List.length_append, hsecond, put_block]
    · simp
    · rw [hq, List.length_append]
  · rw [put_eq_none (w := s ++ w') (by omega)]
    cases hm : put mem pos (s ++ w) with
    | none => rfl
    | some m =>
      rw [List.length_append] at h
      exact put_eq_none (by rw [length_of_put hm]; omega)

end Put

/-! ### Formatted pieces -/

variable {mem m s t : List UInt8} {pos size : ℕ}

/-- `snprintf(buf, size, ...)` of a text, with `buf` at a position of an object. -/
def snprintfAt (mem : List UInt8) (pos size : ℕ) (text : List UInt8) : Option (List UInt8) :=
  put mem pos (if size = 0 then [] else text.take (size - 1) ++ [0])

/-- **The second piece** is printed where the first one ended. -/
theorem snprintfAt_append (h : s.length ≤ size) :
    ((snprintfAt mem pos size s).bind fun m =>
      snprintfAt m (pos + s.length) (size - s.length) t) = snprintfAt mem pos size (s ++ t) := by
  unfold snprintfAt
  rcases h.lt_or_eq with h | h
  · rw [if_neg (by omega), List.take_of_length_le (by omega), if_neg (by omega), if_neg (by omega),
      put_put (by simp), List.take_append, List.take_of_length_le (l := s) (by omega),
      List.append_assoc]
    congr 4
    omega
  · have hfull : (s ++ t).take (size - 1) = s.take (size - 1) :=
      List.take_append_of_le_length (by omega)
    rw [hfull, if_pos (show size - s.length = 0 by omega)]
    cases hm : put mem pos (if size = 0 then [] else s.take (size - 1) ++ [0]) with
    | none => rfl
    | some m =>
      have hlen := length_of_put hm
      have hle := (put_eq_some.mp hm).1
      refine put_nil ?_
      split_ifs at hle
      · simp only [List.length_nil] at hle
        omega
      · rw [List.length_append, List.length_take, List.length_singleton] at hle
        omega

/-- To a buffer that is full nothing is added. -/
theorem snprintfAt_of_length_le (h : size ≤ s.length) :
    snprintfAt mem pos size (s ++ t) = snprintfAt mem pos size s := by
  rw [snprintfAt, snprintfAt, List.take_append_of_le_length (by omega)]

/-- A letter stored in front of the first piece. -/
theorem snprintfAt_cons {b : UInt8} (h : 2 ≤ size) :
    ((put mem pos [b]).bind fun m => snprintfAt m (pos + 1) (size - 1) t) =
      snprintfAt mem pos size (b :: t) := by
  obtain ⟨n, rfl⟩ : ∃ n, size = n + 2 := ⟨size - 2, by omega⟩
  have : ((put mem pos [b]).bind fun m => put m (pos + 1) (t.take n ++ [0])) =
      put mem pos (b :: (t.take n ++ [0])) :=
    put_put (s := [b]) (w := []) (Nat.zero_le _)
  simpa [snprintfAt] using this

/-- **The buffer afterwards**: the text as far as there is room, a NUL, and nothing else changed. -/
theorem snprintfAt_eq_some (hsize : 0 < size) (h : size ≤ mem.length) :
    snprintfAt mem 0 size t = some (t.take (size - 1) ++ 0 ::
      mem.drop ((t.take (size - 1)).length + 1)) := by
  have hlen : (t.take (size - 1)).length < mem.length := by
    rw [List.length_take]
    omega
  rw [snprintfAt, if_neg (by omega), put_eq_some]
  refine ⟨by rw [List.length_append, List.length_singleton]; omega, ?_⟩
  simp

theorem drop_of_snprintfAt {k : ℕ} (h : snprintfAt mem pos size t = some m) (hk : pos + size ≤ k) :
    m.drop k = mem.drop k := by
  refine drop_of_put h ?_
  split_ifs
  · rw [List.length_nil]
    omega
  · rw [List.length_append, List.length_take, List.length_singleton]
    omega

end CString
