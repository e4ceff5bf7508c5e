import MeshNode.Gsm.AtCommand
import MeshNode.Gsm.Line

/-!
# The signal strength

`get_signal_strength` asks the modem for its signal quality and reads the queue in a loop. A message
that contains `+CSQ` is taken apart with `strtok` in place.

* `getSignalStrength`: the function, with `csqUpdate`, its loop body, and `signalLoop`;
* `csqValue`: what the loop body makes of a message, as a string;
* **`runs_csqUpdate`**: only the string before the NUL counts, not what stands behind it;
* **`iterates_signalLoop`**: the loop folds `csqValue` over the messages it read;
* `IsReply`, `LastReply`: the replies of the modem, and the last one among some lines;
* `lastReply_foldl`: the fold gives the last reply;
* **`getSignalStrength_blocks`**, **`not_exec_getSignalStrength`**: the loop is never left.
-/

namespace MeshNode

open Interact Prog CString Framing

/-- The body of the receive loop, for the message in `tx_buf`. -/
def csqUpdate (txBuf : UartMsg) (signalStrength : ℤ) : Fw (UartMsg × ℤ) :=
  if (strstr (cstr txBuf.toList) (lit "+CSQ")).isSome then
    -- the first token is not used; the second call goes on behind it
    let first := strtok txBuf 0 (lit ": ")
    let token := strtok first.mem first.save (lit ",")
    match token.token with
    | some i => do
      let signalStrength := atoi (cstr (token.mem.toList.drop i))
      kcall (.printk "Parsed signal strength: %d\n" [.int signalStrength])
      pure (token.mem, signalStrength)
    | none => pure (token.mem, signalStrength)
  else pure (txBuf, signalStrength)

/-- One round of `while (k_msgq_get(&uart_msgq, &tx_buf, K_FOREVER) == 0)`. -/
def signalLoop (s : UartMsg × ℤ) : Fw ((UartMsg × ℤ) ⊕ (UartMsg × ℤ)) := do
  let got ← kcall (.uartMsgqGet .forever)
  match got with
  | some txBuf => do
    let s ← csqUpdate txBuf s.2
    pure (.inl s)
  | none => pure (.inr s)

/-- `get_signal_strength`: the buffer `tx_buf` afterwards, and the result. -/
def getSignalStrength (txBuf : UartMsg) : Fw (UartMsg × ℤ) := do
  sendAtCommand (lit "+++")
  kcall (.printk "getting signal strength\n" [])
  sendAtCommand (lit "AT+CSQ")
  let s ← loop signalLoop (txBuf, 0)
  sendAtCommand (lit "At+ktcpstart=1")
  sendAtCommand (lit "reconnected")
  pure s

/-! ### One message -/

/-- The signal strength after a message. -/
def csqValue (signalStrength : ℤ) (line : List UInt8) : ℤ :=
  if (strstr line (lit "+CSQ")).isSome then
    let rest := afterTok (lit ": ") line
    if rest.dropWhile (· ∈ lit ",") = [] then signalStrength else atoi (firstTok (lit ",") rest)
  else signalStrength

/-- A text that contains `+` has a token between colons and blanks. -/
theorem dropWhile_ne_nil_of_csq {line : List UInt8} (h : (strstr line (lit "+CSQ")).isSome = true) :
    line.dropWhile (· ∈ lit ": ") ≠ [] := by
  intro e
  have hm : (43 : UInt8) ∈ line :=
    ((strstr_isSome_iff _ _).mp h).mem (show (43 : UInt8) ∈ lit "+CSQ" by decide)
  have := List.dropWhile_eq_nil_iff.mp e 43 hm
  exact absurd this (by decide)

/-- The loop body does not touch the queue. -/
theorem uartOps_csqUpdate {m : UartMsg} {v : ℤ} {s : UartMsg × ℤ} {tr : FwTrace}
    (h : (csqUpdate m v).Runs tr s) : uartOps tr = [] := by
  unfold csqUpdate at h
  split_ifs at h
  · dsimp only at h
    split at h
    · obtain ⟨_, t, rfl, ht⟩ := (runs_perform_bind _ _ _ _).mp h
      obtain ⟨rfl, -⟩ := ht
      rfl
    · obtain ⟨rfl, -⟩ := h
      rfl
  · obtain ⟨rfl, -⟩ := h
    rfl

/-- **The loop body** reads the string before the NUL and nothing behind it. -/
theorem runs_csqUpdate {m m' : UartMsg} {v v' : ℤ} {tr : FwTrace} (h0 : 0 ∈ m.toList)
    (h : (csqUpdate m v).Runs tr (m', v')) :
    v' = csqValue v (cstr m.toList) := by
  unfold csqUpdate at h
  unfold csqValue
  split_ifs at h with hs
  · rw [if_pos hs]
    obtain ⟨tail, hm⟩ := exists_tail_of_zero_mem h0
    have hz := zero_notMem_cstr m.toList
    -- the first token, up to a colon or a blank
    have hm : m.toList.drop 0 = cstr m.toList ++ 0 :: tail := hm
    obtain ⟨i, -, -, h₁⟩ := strtok_some hm hz (dropWhile_ne_nil_of_csq hs)
    have hz₁ : 0 ∉ afterTok (lit ": ") (cstr m.toList) := fun hb => hz (mem_of_mem_afterTok hb)
    by_cases hr : (afterTok (lit ": ") (cstr m.toList)).dropWhile (· ∈ lit ",") = []
    · obtain ⟨ht, -⟩ := strtok_none h₁ hz₁ hr
      simp only [ht] at h
      cases h.2
      exact (if_pos hr).symm
    · -- the second token, up to a comma
      obtain ⟨j, ht, hv, -⟩ := strtok_some h₁ hz₁ hr
      simp only [ht, hv] at h
      obtain ⟨_, t, rfl, e⟩ := (runs_perform_bind _ _ _ _).mp h
      cases e.2
      exact (if_neg hr).symm
  · rw [if_neg hs]
    cases h.2
    rfl

/-! ### The loop -/

theorem runs_signalLoop_inl {s s' : UartMsg × ℤ} {tr : FwTrace}
    (h : (signalLoop s).Runs tr (.inl s')) :
    ∃ m t, tr = ⟨.uartMsgqGet .forever, some m⟩ :: t ∧ (csqUpdate m s.2).Runs t s' := by
  obtain ⟨r, t, rfl, hr⟩ := (runs_perform_bind _ _ _ _).mp h
  cases r with
  | none => cases hr.2
  | some m =>
    obtain ⟨t₁, t₂, x, rfl, h₁, rfl, e⟩ := (runs_bind _ _ _ _).mp hr
    cases e
    exact ⟨m, t₁, by simp, h₁⟩

/-- **The loop** folds the messages it read, whatever stood in `tx_buf` and behind their NULs. -/
theorem iterates_signalLoop {s s' : UartMsg × ℤ} {tr : FwTrace} (h : Iterates signalLoop s tr s')
    (h0 : ∀ m ∈ Fifo.taken (uartOps tr), 0 ∈ m.toList) :
    s'.2 = ((Fifo.taken (uartOps tr)).map fun m => cstr m.toList).foldl csqValue s.2 := by
  unfold Iterates at h
  induction h with
  | refl => rfl
  | @step s s₁ s₂ tr₁ tr₂ hb _ ih =>
    obtain ⟨m, t, rfl, hm⟩ := runs_signalLoop_inl hb
    have htaken : Fifo.taken (uartOps ((⟨.uartMsgqGet .forever, some m⟩ :: t) ++ tr₂)) =
        m :: Fifo.taken (uartOps tr₂) := by
      rw [uartOps_append]
      change Fifo.taken ((.get (some m) :: uartOps t) ++ uartOps tr₂) = _
      rw [uartOps_csqUpdate hm]
      rfl
    rw [htaken] at h0 ⊢
    rw [ih fun m' h' => h0 m' (List.mem_cons_of_mem _ h'),
      runs_csqUpdate (h0 m List.mem_cons_self) hm]
    rfl

theorem exists_exec_csqUpdate {W : Type} {E : Env KCall KCall.Ret W}
    (hE : ∀ w f a, E w ⟨.printk f a, ()⟩ = some w) (m : UartMsg) (v : ℤ) (w : W) :
    ∃ tr s, Exec E w (csqUpdate m v) tr s w := by
  unfold csqUpdate
  split_ifs
  · dsimp only
    split
    · exact ⟨_, _, .perform_bind (hE _ _ _) (.ret _ _)⟩
    · exact ⟨[], _, .ret _ _⟩
  · exact ⟨[], _, .ret _ _⟩

/-- Every sequence of messages can be read. -/
theorem exists_iterates_signalLoop (ms : List UartMsg) (s : UartMsg × ℤ) :
    ∃ tr s', Iterates signalLoop s tr s' ∧ Fifo.taken (uartOps tr) = ms := by
  induction ms generalizing s with
  | nil => exact ⟨[], s, .refl s, rfl⟩
  | cons m ms ih =>
    obtain ⟨t, s₁, h₁⟩ := exists_exec_csqUpdate (E := fun w _ => some w) (fun _ _ _ => rfl) m s.2 ()
    obtain ⟨tr, s₂, h₂, e⟩ := ih s₁
    have hb : Exec (fun w _ => some w) () (signalLoop s)
        (⟨.uartMsgqGet .forever, some m⟩ :: (t ++ [])) (.inl s₁) () :=
      .perform_bind rfl (.bind h₁ (.ret _ _))
    refine ⟨_, s₂, .step hb.runs h₂, ?_⟩
    rw [List.append_nil, uartOps_append]
    change Fifo.taken ((.get (some m) :: uartOps t) ++ uartOps tr) = _
    rw [uartOps_csqUpdate h₁.runs, ← e]
    rfl

/-! ### Replies -/

/-- A reply `+CSQ: n,m` in decimal, with `n` in the range of `int`. -/
def IsReply (line : List UInt8) (n : ℕ) : Prop :=
  ∃ ds es, line = lit "+CSQ: " ++ (ds ++ lit "," ++ es) ∧ ds ≠ [] ∧ es ≠ [] ∧
    (∀ d ∈ ds, isdigit d = true) ∧ (∀ d ∈ es, isdigit d = true) ∧ decimal ds = n ∧ n < 2 ^ 31

theorem isReply_csq_15 : IsReply (lit "+CSQ: 15,99") 15 :=
  ⟨lit "15", lit "99", rfl, by decide, by decide, List.all_eq_true.mp rfl, List.all_eq_true.mp rfl,
    rfl, by decide⟩

/-- The value of the last reply among some lines; `0` if there is none. -/
def LastReply (lines : List (List UInt8)) (v : ℤ) : Prop :=
  (v = 0 ∧ ∀ line ∈ lines, ∀ n, ¬ IsReply line n) ∨
  ∃ pre line post n, lines = pre ++ line :: post ∧ IsReply line n ∧ v = n ∧
    ∀ line' ∈ post, ∀ n', ¬ IsReply line' n'

theorem IsReply.csq {line : List UInt8} {n : ℕ} (h : IsReply line n) : lit "+CSQ" <:+: line := by
  obtain ⟨ds, es, rfl, -⟩ := h
  exact (List.prefix_append (lit "+CSQ") (lit ": " ++ (ds ++ lit "," ++ es))).isInfix

/-- **A reply gives its number.** -/
theorem csqValue_reply {line : List UInt8} {n : ℕ} (h : IsReply line n) (v : ℤ) :
    csqValue v line = n := by
  have hcsq := (strstr_isSome_iff _ _).mpr h.csq
  obtain ⟨ds, es, rfl, hne, -, hds, -, rfl, -⟩ := h
  have hrest : afterTok (lit ": ") (lit "+CSQ: " ++ (ds ++ lit "," ++ es)) =
      (32 :: ds) ++ 44 :: es := by
    rw [List.append_assoc]
    rfl
  have hskip : ((32 :: ds) ++ 44 :: es).dropWhile (· ∈ lit ",") = (32 :: ds) ++ 44 :: es := rfl
  have hno : ∀ b ∈ (32 : UInt8) :: ds, decide (b ∉ lit ",") = true := by
    intro b hb
    rcases List.mem_cons.mp hb with rfl | hb
    · decide
    · refine decide_eq_true fun hc => ?_
      rw [List.mem_singleton.mp hc] at hb
      exact absurd (hds 44 hb) (by decide)
  have htok : firstTok (lit ",") ((32 :: ds) ++ 44 :: es) = [32] ++ ds := by
    rw [firstTok, hskip, List.takeWhile_append_of_pos hno]
    exact List.append_nil _
  unfold csqValue
  rw [if_pos hcsq, hrest]
  dsimp only
  rw [htok, if_neg (by rw [hskip]; simp)]
  exact atoi_digits (List.forall_mem_singleton.mpr rfl) hds

/-- The command echo changes nothing: it is one token. -/
theorem csqValue_echo (v : ℤ) : csqValue v (lit "AT+CSQ") = v := by
  have hrest : (afterTok (lit ": ") (lit "AT+CSQ")).dropWhile (· ∈ lit ",") = [] := by decide
  unfold csqValue
  split_ifs
  · exact if_pos hrest
  · rfl

theorem csqValue_other {line : List UInt8} (h : ¬ lit "+CSQ" <:+: line) (v : ℤ) :
    csqValue v line = v :=
  if_neg fun hs => h ((strstr_isSome_iff _ _).mp hs)

/-- **The fold over lines of which only echoes and replies contain `+CSQ`** is the last reply. -/
theorem lastReply_foldl {lines : List (List UInt8)}
    (h : ∀ line ∈ lines, lit "+CSQ" <:+: line → line = lit "AT+CSQ" ∨ ∃ n, IsReply line n) :
    LastReply lines (lines.foldl csqValue 0) := by
  induction lines using List.reverseRecOn with
  | nil => exact .inl ⟨rfl, by simp⟩
  | append_singleton lines line ih =>
    have ih := ih fun l hl => h l (List.mem_append_left _ hl)
    rw [List.foldl_concat]
    by_cases hr : ∃ n, IsReply line n
    · obtain ⟨n, hn⟩ := hr
      exact .inr ⟨lines, line, [], n, rfl, hn, csqValue_reply hn _, by simp⟩
    · have hr : ∀ n, ¬ IsReply line n := fun n hn => hr ⟨n, hn⟩
      have hv : csqValue (lines.foldl csqValue 0) line = lines.foldl csqValue 0 := by
        by_cases hc : lit "+CSQ" <:+: line
        · rcases h line (by simp) hc with rfl | ⟨n, hn⟩
          · exact csqValue_echo _
          · exact absurd hn (hr n)
        · exact csqValue_other hc _
      rw [hv]
      rcases ih with ⟨hz, hno⟩ | ⟨pre, l, post, n, e, hl, hvn, hpost⟩
      · refine .inl ⟨hz, fun l hl => ?_⟩
        rcases List.mem_append.mp hl with hl | hl
        · exact hno l hl
        · exact List.mem_singleton.mp hl ▸ hr
      · refine .inr ⟨pre, l, post ++ [line], n, by simp [e], hl, hvn, fun l' hl' => ?_⟩
        rcases List.mem_append.mp hl' with hl' | hl'
        · exact hpost l' hl'
        · exact List.mem_singleton.mp hl' ▸ hr

/-! ### The loop is never left -/

/-- No answer of `k_msgq_get` with `K_FOREVER` leaves the loop. -/
theorem not_exec_signalLoop_inr {s s' : UartMsg × ℤ} {w w' : ModemWorld} {tr : FwTrace} :
    ¬ Exec modemEnv w (signalLoop s) tr (.inr s') w' := by
  intro h
  obtain ⟨r, t, v, rfl, hr, h⟩ := exec_perform_bind_iff.mp h
  cases r with
  | none => simp [modemEnv] at hr
  | some m =>
    obtain ⟨_, _, _, _, _, _, h₂⟩ := exec_bind_iff.mp h
    cases (exec_ret_iff.mp h₂).2.1

/-- Once every message is read, the loop waits forever. -/
theorem signalLoop_blocks (w : ModemWorld) (s : UartMsg × ℤ) :
    Blocks modemEnv w (loop signalLoop s) (.uartMsgqGet .forever) := by
  obtain ⟨inbox, timer⟩ := w
  induction inbox generalizing s with
  | nil =>
    refine .loop_body (.perform_bind_now fun r => ?_)
    cases r <;> simp [modemEnv]
  | cons m ms ih =>
    obtain ⟨t, s', h⟩ := exists_exec_csqUpdate (E := modemEnv) (fun _ _ _ => rfl) m s.2 ⟨ms, timer⟩
    have hget : modemEnv ⟨m :: ms, timer⟩ ⟨.uartMsgqGet .forever, some m⟩ = some ⟨ms, timer⟩ := by
      simp [modemEnv]
    exact .loop_again (.perform_bind hget (.bind h (.ret _ _))) (ih s')

/-- **`get_signal_strength` does not return**, whatever messages come. -/
theorem not_exec_getSignalStrength {tx : UartMsg} {w w' : ModemWorld} {tr : FwTrace}
    {r : UartMsg × ℤ} : ¬ Exec modemEnv w (getSignalStrength tx) tr r w' := by
  intro h
  obtain ⟨_, _, _, _, _, _, h⟩ := exec_bind_iff.mp h
  obtain ⟨_, _, _, _, _, h⟩ := exec_perform_bind_iff.mp h
  obtain ⟨_, _, _, _, _, _, h⟩ := exec_bind_iff.mp h
  obtain ⟨_, _, _, _, _, h, -⟩ := exec_bind_iff.mp h
  exact not_exec_loop (fun _ _ _ _ _ => not_exec_signalLoop_inr) h

/-- **It gets stuck in the receive loop**, after both commands went out. -/
theorem getSignalStrength_blocks (tx : UartMsg) (w : ModemWorld) :
    Blocks modemEnv w (getSignalStrength tx) (.uartMsgqGet .forever) := by
  have hescape := exec_sendAtCommand (lit "+++") w
  have hcsq := exec_sendAtCommand (lit "AT+CSQ") (afterCommand (lit "+++") w)
  exact .bind_right hescape (.bind_right (.one (r := ()) rfl)
    (.bind_right hcsq (.bind_left (signalLoop_blocks _ _))))

end MeshNode
