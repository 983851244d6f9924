/-
  When a text parameter is terminated (command.c).

  Both readers copy the bytes before the first separator into a buffer of `m`
  bytes that was cleared, and look at the byte behind them.  They succeed exactly
  if that byte ends the parameter (`nextParam_spec`, `allParams_spec`), also when
  the buffer is full: then there is no NUL in it (`FillsBuffer`).
-/
import CpcLink.Proof.Containment

namespace CpcLink

/-- The buffer a parameter is read into: cleared, then filled from its start. -/
def paramBuffer (m : ℕ) (text : List BYTE) : List BYTE := text ++ List.replicate (m - text.length) 0

/-- The byte `get_command_next_param_text` takes as the end of its parameter. -/
def isTerminator (nlTerminated : Bool) (b : BYTE) : Bool :=
  if nlTerminated then isNewline b else isSpace b

/-- `k` bytes were read and the terminator behind them: they are in the buffer,
    with a NUL behind them, and the read index is behind the terminator. -/
structure TextRead (q : Queue) (m : ℕ) (stops ends : BYTE → Bool) (r : Bool × List BYTE × Queue)
    (k : ℕ) : Prop where
  text : ∀ j < k, stops (q.peek j) = false
  terminator : ends (q.peek k) = true
  fits : k < m
  copied : ∀ j < k, (paramBuffer m r.2.1)[j]? = some (q.peek j)
  nul : (paramBuffer m r.2.1)[k]? = some 0
  queue : r.2.2 = incrementReadNextIndex q (k + 1 : ℕ)

/-- A parameter that was found is terminated in its buffer. -/
def Terminated (q : Queue) (m : ℕ) (stops ends : BYTE → Bool) (r : Bool × List BYTE × Queue) : Prop :=
  r.1 = true → ∃ k, TextRead q m stops ends r k

/-- The parameter has exactly as many bytes as the buffer. -/
def FillsBuffer (q : Queue) (m : ℕ) (stops ends : BYTE → Bool) : Prop :=
  (∀ j < m, stops (q.peek j) = false) ∧ ends (q.peek m) = true

instance (q : Queue) (m : ℕ) (stops ends : BYTE → Bool) : Decidable (FillsBuffer q m stops ends) :=
  inferInstanceAs (Decidable (_ ∧ _))

/-! ## The loop -/

section
variable {q : Queue} {stops ends : BYTE → Bool} {n : ℕ}

theorem paramLoop_bytes (h : InRange q) {k : ℕ} (hk : k < (paramLoop stops n q).1.length) :
    (paramLoop stops n q).1[k] = q.peek k ∧ stops (q.peek k) = false := by
  induction n generalizing q k with
  | zero => simp [paramLoop] at hk
  | succ n ih =>
    simp only [paramLoop] at hk ⊢
    split at hk
    · simp at hk
    next hno =>
    simp only [hno, if_false, Bool.false_eq_true]
    cases k with
    | zero => exact ⟨h.current, by rw [← h.current]; exact Bool.eq_false_iff.2 hno⟩
    | succ k =>
      have hp := h.peek_inc 1 k
      rw [Nat.cast_one, Nat.add_comm 1 k] at hp
      rw [List.getElem_cons_succ, ← hp]
      exact ih (h.inc 1) (by simpa using hk)

/-- A loop that is not cut off by the size stands at a separator. -/
theorem paramLoop_ended (h : InRange q) (hlt : (paramLoop stops n q).1.length < n) :
    stops (q.peek (paramLoop stops n q).1.length) = true := by
  induction n generalizing q with
  | zero => omega
  | succ n ih =>
    simp only [paramLoop] at hlt ⊢
    split at hlt
    next hstop => simp only [hstop, if_true, List.length_nil, ← h.current]
    next hno =>
      simp only [hno, if_false, Bool.false_eq_true, List.length_cons] at hlt ⊢
      have hp := h.peek_inc 1 (paramLoop stops n (incrementReadNextIndex q 1)).1.length
      rw [Nat.cast_one, Nat.add_comm 1] at hp
      rw [← hp]
      exact ih (h.inc 1) (by omega)

theorem FillsBuffer.length (h : InRange q) (hf : FillsBuffer q n stops ends) :
    (paramLoop stops n q).1.length = n := by
  refine le_antisymm (paramLoop_length stops n q) ?_
  by_contra hlt
  have hstop := paramLoop_ended h (by omega : (paramLoop stops n q).1.length < n)
  rw [hf.1 _ (by omega)] at hstop
  cases hstop

/-! ## The readers -/

/-- What both readers do: they succeed if the byte behind the bytes of the loop
    ends the parameter, and then step over it. -/
structure ReadsText (q : Queue) (m : ℕ) (stops ends : BYTE → Bool)
    (r : Bool × List BYTE × Queue) : Prop where
  found : r.1 = ends (q.peek (paramLoop stops m q).1.length)
  taken : r.1 = true → r.2 = ((paramLoop stops m q).1,
    incrementReadNextIndex q ((paramLoop stops m q).1.length + 1 : ℕ))

theorem nextParam_spec (h : InRange q) (m : ℕ) (nlTerminated : Bool) :
    ReadsText q m isSeparator (isTerminator nlTerminated) (getCommandNextParamText q m nlTerminated) := by
  have hcur := paramLoop_current isSeparator m h
  have hq := paramLoop_queue isSeparator m h
  have hstep : incrementReadNextIndex (paramLoop isSeparator m q).2 1 =
      incrementReadNextIndex q ((paramLoop isSeparator m q).1.length + 1 : ℕ) := by
    rw [hq]; exact h.inc_nat _ 1
  have heq : getCommandNextParamText q m nlTerminated =
      let r := paramLoop isSeparator m q
      let b := q.peek r.1.length
      if r.1.length = m ∧ ¬ isSpace b ∧ ¬ isNewline b then (false, [], r.2)
      else if isSpace b ∧ nlTerminated = false then (true, r.1, incrementReadNextIndex r.2 1)
      else if isNewline b ∧ nlTerminated = true then (true, r.1, incrementReadNextIndex r.2 1)
      else (false, [], r.2) := by
    simp only [← hcur]; rfl
  dsimp only at heq
  split_ifs at heq with hfull hspace hline
  · constructor <;> rw [heq]
    · cases nlTerminated
      · exact (Bool.eq_false_iff.2 hfull.2.1).symm
      · exact (Bool.eq_false_iff.2 hfull.2.2).symm
    · exact fun ht => by cases ht
  · constructor <;> rw [heq]
    · simp [isTerminator, hspace]
    · exact fun _ => by rw [hstep]
  · constructor <;> rw [heq]
    · simp [isTerminator, hline]
    · exact fun _ => by rw [hstep]
  · constructor <;> rw [heq]
    · cases nlTerminated <;> simp_all [isTerminator]
    · exact fun ht => by cases ht

theorem allParams_spec (h : InRange q) (m : ℕ) :
    ReadsText q m isNewline isNewline (getAllCommandParamsText q m) := by
  have hcur := paramLoop_current isNewline m h
  have hq := paramLoop_queue isNewline m h
  have hended : (paramLoop isNewline m q).1.length ≠ m →
      isNewline (q.peek (paramLoop isNewline m q).1.length) = true := fun hne =>
    paramLoop_ended h (lt_of_le_of_ne (paramLoop_length isNewline m q) hne)
  simp only [getAllCommandParamsText, hcur]
  split_ifs with hfull hline
  · exact ⟨by simp [hfull.2], fun ht => by cases ht⟩
  · refine ⟨hline.symm, fun _ => ?_⟩
    rw [hq]
    exact Prod.ext rfl (h.inc_nat _ 1)
  · -- the loop stops in front of a newline or with a full buffer
    exact absurd (hended fun he => hfull ⟨he, hline⟩) hline

/-- A parameter that was found is terminated in its buffer exactly if it does not
    fill it. -/
theorem ReadsText.terminated_iff (h : InRange q) {m : ℕ} {r : Bool × List BYTE × Queue}
    (hr : ReadsText q m stops ends r) (hsub : ∀ b, ends b = true → stops b = true) :
    Terminated q m stops ends r ↔ ¬ FillsBuffer q m stops ends := by
  constructor
  · intro ht hf
    obtain ⟨k, hk⟩ := ht (by rw [hr.found, hf.length h]; exact hf.2)
    have hstop := hsub _ hk.terminator
    rw [hf.1 k hk.fits] at hstop
    cases hstop
  · intro hno hok
    have hend : ends (q.peek (paramLoop stops m q).1.length) = true := hr.found.symm.trans hok
    have hne : (paramLoop stops m q).1.length ≠ m := by
      intro he
      refine hno ⟨fun j hj => ?_, by rw [← he]; exact hend⟩
      exact (paramLoop_bytes h (by rw [he]; exact hj)).2
    have hlt := lt_of_le_of_ne (paramLoop_length stops m q) hne
    have htaken := hr.taken hok
    refine ⟨(paramLoop stops m q).1.length, ?_⟩
    constructor
    · exact fun j hj => (paramLoop_bytes h hj).2
    · exact hend
    · exact hlt
    · intro j hj
      rw [htaken, paramBuffer, List.getElem?_append_left hj, List.getElem?_eq_getElem hj,
        (paramLoop_bytes h hj).1]
    · rw [htaken, paramBuffer, List.getElem?_append_right le_rfl, Nat.sub_self,
        List.getElem?_replicate_of_lt (by dsimp only; omega)]
    · rw [htaken]

end

/-- **A text parameter that was found is terminated** exactly if it does not have
    as many bytes as its buffer, for both readers and both kinds of terminator. -/
theorem textParams_terminated_iff (q : Queue) (h : InRange q) (m : ℕ) :
    (∀ nlTerminated, Terminated q m isSeparator (isTerminator nlTerminated)
        (getCommandNextParamText q m nlTerminated) ↔
      ¬ FillsBuffer q m isSeparator (isTerminator nlTerminated)) ∧
    (Terminated q m isNewline isNewline (getAllCommandParamsText q m) ↔
      ¬ FillsBuffer q m isNewline isNewline) := by
  constructor
  · intro nlTerminated
    refine (nextParam_spec h m nlTerminated).terminated_iff h fun b hb => ?_
    cases nlTerminated
    · exact Bool.or_eq_true_iff.2 (.inl hb)
    · exact Bool.or_eq_true_iff.2 (.inr hb)
  · exact (allParams_spec h m).terminated_iff h fun b hb => hb

/-- The parameter of a `HELP` whose name has 30 bytes, as the command finds it. -/
def helpLongName : Queue :=
  (getCommandText (queueOf (textPacket "HELP ABCDEFGHIJKLMNOPQRSTUVWXYZABCD\n"))).2.2

theorem helpLongName_inRange : InRange helpLongName :=
  ⟨⟨by decide +kernel, by decide +kernel⟩, by decide +kernel, by decide +kernel⟩

/-- An instance: the readers at that parameter. -/
theorem textParams_terminated_help :
    (∀ nlTerminated, Terminated helpLongName 31 isSeparator (isTerminator nlTerminated)
        (getCommandNextParamText helpLongName 31 nlTerminated) ↔
      ¬ FillsBuffer helpLongName 31 isSeparator (isTerminator nlTerminated)) ∧
    (Terminated helpLongName 31 isNewline isNewline (getAllCommandParamsText helpLongName 31) ↔
      ¬ FillsBuffer helpLongName 31 isNewline isNewline) :=
  textParams_terminated_iff _ helpLongName_inRange 31

/-- `command_help` gives it a buffer of 30 bytes: the parameter is found, and
    there is no NUL in the buffer. -/
theorem help_unterminated :
    (getCommandNextParamText helpLongName maxCommandNameLength true).1 = true ∧
      (0 : BYTE) ∉ paramBuffer maxCommandNameLength
        (getCommandNextParamText helpLongName maxCommandNameLength true).2.1 ∧
      ¬ Terminated helpLongName maxCommandNameLength isSeparator (isTerminator true)
        (getCommandNextParamText helpLongName maxCommandNameLength true) := by
  refine ⟨by decide +kernel, by decide +kernel, fun ht => ?_⟩
  have hno := ((nextParam_spec helpLongName_inRange maxCommandNameLength true).terminated_iff
    helpLongName_inRange fun b hb => Bool.or_eq_true_iff.2 (.inr hb)).1 ht
  exact hno (by decide +kernel)

end CpcLink
