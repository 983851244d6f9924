/-
  How far the readers of names and parameters move the read index.

  None of them is told where the packet ends.  `request` is the command of the
  packet at the head with the number of bytes in front of its parameters, and
  `paramsLength` the number of bytes a command takes as its parameters.
-/
import CpcLink.Proof.Framing
import CpcLink.Processor

namespace CpcLink

open CircularBuffer

section
variable {q : Queue}

/-! ## Binary commands -/

theorem InRange.inc_nat (h : InRange q) (a b : ℕ) :
    incrementReadNextIndex (incrementReadNextIndex q a) b = incrementReadNextIndex q (a + b : ℕ) := by
  rw [h.inc_inc (by omega) (by omega)]; push_cast; rfl

theorem getCommandBin_eq (h : InRange q) :
    getCommandBin q = ((q.peek 6).toNat, incrementReadNextIndex q (7 : ℕ)) := by
  have h6 := h.inc 6
  have := h.peek_inc 6 0
  rw [Nat.cast_ofNat] at this
  simp only [getCommandBin, frontDelimiterOverhead, frontPacketOverhead, Int.reduceAdd, h6.current,
    this, h.inc_inc (show (0 : ℤ) ≤ 6 by decide) (show (0 : ℤ) ≤ 1 by decide)]
  rfl

theorem next8_queue (q : Queue) :
    (getCommandNext8bitParamBin q).2 = incrementReadNextIndex q (1 : ℕ) := rfl

theorem next16_queue (h : InRange q) :
    (getCommandNext16bitParamBin q).2 = incrementReadNextIndex q (2 : ℕ) := by
  simp only [getCommandNext16bitParamBin]
  exact h.inc_nat 1 1

theorem next32_queue (h : InRange q) :
    (getCommandNext32bitParamBin q).2 = incrementReadNextIndex q (4 : ℕ) := by
  simp only [getCommandNext32bitParamBin]
  rw [show (1 : ℤ) = ((1 : ℕ) : ℤ) from rfl, h.inc_nat, h.inc_nat, h.inc_nat]

/-! ## Text parameters -/

/-- The bytes a parameter takes that ends at `ends` and is at most `n` bytes
    long: a newline behind it is taken too. -/
def textParamLength (ends : BYTE → Bool) (n : ℕ) (q : Queue) : ℕ :=
  let k := (paramLoop ends n q).1.length
  if isNewline (q.peek k) then k + 1 else k

theorem paramLoop_queue (ends : BYTE → Bool) (n : ℕ) (h : InRange q) :
    (paramLoop ends n q).2 = incrementReadNextIndex q (paramLoop ends n q).1.length := by
  induction n generalizing q with
  | zero => exact h.inc_zero.symm
  | succ n ih =>
    rw [paramLoop]
    split
    · exact h.inc_zero.symm
    · simp only [ih (h.inc 1), List.length_cons]
      rw [h.inc_inc (by omega) (by omega)]
      congr 1; push_cast; omega

theorem paramLoop_length (ends : BYTE → Bool) (n : ℕ) (q : Queue) :
    (paramLoop ends n q).1.length ≤ n := by
  induction n generalizing q with
  | zero => simp [paramLoop]
  | succ n ih =>
    rw [paramLoop]
    split
    · simp
    · simpa using ih (incrementReadNextIndex q 1)

theorem textParamLength_le (ends : BYTE → Bool) (n : ℕ) (q : Queue) :
    textParamLength ends n q ≤ n + 1 := by
  have := paramLoop_length ends n q
  simp only [textParamLength]; split <;> omega

/-- The byte behind the bytes of the loop. -/
theorem paramLoop_current (ends : BYTE → Bool) (n : ℕ) (h : InRange q) :
    getCurrentReadByte (paramLoop ends n q).2 = q.peek (paramLoop ends n q).1.length := by
  rw [paramLoop_queue ends n h, (h.inc _).current, h.peek_inc, Nat.add_zero]

theorem allParams_queue (h : InRange q) (n : ℕ) : (getAllCommandParamsText q n).2.2 =
    incrementReadNextIndex q (textParamLength isNewline n q) := by
  simp only [getAllCommandParamsText, textParamLength, paramLoop_current isNewline n h]
  by_cases hn : isNewline (q.peek (paramLoop isNewline n q).1.length) = true
  · simp only [hn, not_true, and_false, if_false, if_true, paramLoop_queue isNewline n h]
    exact h.inc_nat _ 1
  · simp only [hn, not_false_eq_true, and_true, if_false, Bool.false_eq_true]
    split <;> exact paramLoop_queue isNewline n h

/-- The bytes that end a name or a parameter. -/
def isSeparator (b : BYTE) : Bool := isSpace b || isNewline b

theorem nextParam_queue (h : InRange q) (n : ℕ) : (getCommandNextParamText q n true).2.2 =
    incrementReadNextIndex q (textParamLength isSeparator n q) := by
  have hcur := paramLoop_current isSeparator n h
  have hq := paramLoop_queue isSeparator n h
  unfold isSeparator at hcur hq
  simp only [getCommandNextParamText, textParamLength, hcur]
  unfold isSeparator
  by_cases hn : isNewline (q.peek (paramLoop (fun b => isSpace b || isNewline b) n q).1.length) = true
  · simp only [hn, not_true, and_false, if_false, if_true, Bool.true_eq_false, and_self, hq]
    exact h.inc_nat _ 1
  · simp only [hn, not_false_eq_true, and_true, if_false, Bool.false_eq_true, Bool.true_eq_false,
      and_false]
    split <;> exact hq

/-- The bytes a command takes as its parameters.  `HELP` takes none behind a
    newline. -/
def paramsLength (fn : CommandFunction) (q : Queue) : ℕ :=
  match fn with
  | .commandHelp =>
    if isNewline (getPreviousReadByte q) then 0 else textParamLength isSeparator maxCommandNameLength q
  | .commandShellexec => textParamLength isNewline maxShellLineLength q
  | .commandCreateAlloc | .commandRetrieveAlloc | .commandStoreAlloc => 3
  | .commandFreeAlloc => 1
  | .commandInsertAlloc | .commandCutAlloc => 9
  | .commandLoadAlloc => 1 + textParamLength isNewline maxPathSizeText (incrementReadNextIndex q (1 : ℕ))
  | .commandSaveAlloc => 5 + textParamLength isNewline maxPathSizeText (incrementReadNextIndex q (5 : ℕ))
  | _ => 0

theorem paramsLength_le (fn : CommandFunction) (q : Queue) : paramsLength fn q ≤ 518 := by
  cases fn <;> simp only [paramsLength] <;> try omega
  case commandHelp =>
    have := textParamLength_le isSeparator maxCommandNameLength q
    split <;> simp_all; omega
  case commandShellexec => have := textParamLength_le isNewline maxShellLineLength q; simp_all; omega
  case commandLoadAlloc =>
    have := textParamLength_le isNewline maxPathSizeText (incrementReadNextIndex q (1 : ℕ))
    simp_all; omega
  case commandSaveAlloc =>
    have := textParamLength_le isNewline maxPathSizeText (incrementReadNextIndex q (5 : ℕ))
    simp_all; omega

/-! ## Names -/

/-- The loop stops behind a byte that ends the name, with a full buffer, or past
    the byte behind the body. -/
theorem nameLoop_cases (size : ℤ) : ∀ (n index : ℕ) {q : Queue}, InRange q →
    ((commandNameLoop size n index q).1 = true ∧
      (commandNameLoop size n index q).2.1.length < n ∧
      0 < index + (commandNameLoop size n index q).2.1.length ∧
      ((index + (commandNameLoop size n index q).2.1.length : ℕ) : ℤ) ≤ size ∧
      isSeparator (q.peek (commandNameLoop size n index q).2.1.length) ∧
      (commandNameLoop size n index q).2.2 =
        incrementReadNextIndex q ((commandNameLoop size n index q).2.1.length + 1 : ℕ)) ∨
    ((commandNameLoop size n index q).1 = false ∧
      ((commandNameLoop size n index q).2.1.length = n ∨
        (commandNameLoop size n index q).2.1.length < n ∧
        size < (index + (commandNameLoop size n index q).2.1.length : ℕ)) ∧
      ((commandNameLoop size n index q).2.1.length = 0 ∨
        ((index + (commandNameLoop size n index q).2.1.length : ℕ) : ℤ) ≤ size + 1) ∧
      (commandNameLoop size n index q).2.2 =
        incrementReadNextIndex q (commandNameLoop size n index q).2.1.length)
  | 0, index, q, h => .inr ⟨rfl, .inl rfl, .inl rfl, h.inc_zero.symm⟩
  | n + 1, index, q, h => by
    have hcur := h.current
    rw [commandNameLoop]
    by_cases hle : (index : ℤ) ≤ size
    swap
    · rw [if_neg hle]
      exact .inr ⟨rfl, .inr ⟨by simp, by simp; omega⟩, .inl rfl, h.inc_zero.symm⟩
    rw [if_pos hle]
    by_cases hend : (isSpace (getCurrentReadByte q) ∨ isNewline (getCurrentReadByte q)) ∧ index > 0
    · simp only [hend, and_self, if_true, List.length_nil]
      refine .inl ⟨trivial, by omega, by have := hend.2; omega, by omega, ?_, rfl⟩
      rw [← hcur]; simpa [isSeparator] using hend.1
    · simp only [hend, if_false, List.length_cons]
      have h1 := h.inc 1
      have hp := h.peek_inc 1
      rw [Nat.cast_one] at hp
      rcases nameLoop_cases size n (index + 1) h1 with ⟨h2, h3, h4, h5, h6, h7⟩ | ⟨h2, h3, h4, h5⟩
      · refine .inl ⟨h2, by omega, by omega, by omega, ?_, ?_⟩
        · rw [hp, Nat.add_comm] at h6; exact h6
        · rw [h7, h.inc_inc (by omega) (by omega)]; congr 1; push_cast; omega
      · refine .inr ⟨h2, by omega, ?_, ?_⟩
        · right; rcases h4 with h4 | h4 <;> omega
        · rw [h5, h.inc_inc (by omega) (by omega)]; congr 1; push_cast; omega

/-- The bytes copied are the bytes read. -/
theorem nameLoop_bytes (size : ℤ) (n index : ℕ) (h : InRange q) {k : ℕ}
    (hk : k < (commandNameLoop size n index q).2.1.length) :
    (commandNameLoop size n index q).2.1[k] = q.peek k := by
  induction n generalizing index q k with
  | zero => simp [commandNameLoop] at hk
  | succ n ih =>
    simp only [commandNameLoop] at hk ⊢
    split at hk
    · split at hk
      · simp at hk
      · next hle hno =>
        simp only [hle, hno, if_true, if_false]
        cases k with
        | zero => exact h.current
        | succ k =>
          have hp := h.peek_inc 1 k
          rw [Nat.cast_one, Nat.add_comm 1 k] at hp
          rw [List.getElem_cons_succ, ← hp]
          exact ih (index + 1) (h.inc 1) (by simpa using hk)
    · simp at hk

/-- None of the bytes copied but the first is a separator. -/
theorem nameLoop_before (size : ℤ) (n index : ℕ) (h : InRange q) {k : ℕ}
    (hk : k < (commandNameLoop size n index q).2.1.length) (hpos : 0 < index + k) :
    isSeparator (q.peek k) = false := by
  induction n generalizing index q k with
  | zero => simp [commandNameLoop] at hk
  | succ n ih =>
    simp only [commandNameLoop] at hk
    split at hk
    · split at hk
      · simp at hk
      next hno =>
      cases k with
      | zero =>
        rw [← h.current, isSeparator, Bool.eq_false_iff]
        intro hsep
        exact hno ⟨by simpa using hsep, by omega⟩
      | succ k =>
        have hp := h.peek_inc 1 k
        rw [Nat.cast_one, Nat.add_comm 1 k] at hp
        rw [← hp]
        exact ih (index + 1) (h.inc 1) (by simpa using hk) (by omega)
    · simp at hk

/-- The length of the name in a text command. -/
def nameLength (q : Queue) : ℕ :=
  (commandNameLoop (getPacketSize q - frontPacketOverhead) maxCommandNameLength 0
    (incrementReadNextIndex q (6 : ℕ))).2.1.length

/-- How far a text command without a name is read: the loop stops one byte past
    a body of at most 28 bytes. -/
def badTextLength (body : List BYTE) : ℕ :=
  if body = [] then 6
  else if body.length = 1 ∨ body.head? = some 10 then 7
  else if body.length ≤ 28 then body.length + 7
  else body.length + 6

/-- The name is read up to the end of the array: the step back over the byte
    behind the body then leaves the read index below the array. -/
def StepsBelow (q : Queue) (body : List BYTE) : Prop :=
  body.length = 29 ∧ body.head? ≠ some 10 ∧ q.readNextByte + 36 = queueSize

theorem peek_body {ty : PacketType} {body rest : List BYTE} (hp : AtPacket q ty body rest) {k : ℕ}
    (hk : k < body.length) : q.peek (6 + k) = body[k] := by
  have hc := hp.count
  rw [peek_eq_getD (by omega), hp.2.2, encode_append, Nat.add_comm]
  simp only [List.getD_cons_succ]
  rw [List.getD_append _ _ _ _ hk, List.getD_eq_getElem _ _ hk]

theorem peek_end {ty : PacketType} {body rest : List BYTE} (hp : AtPacket q ty body rest) :
    q.peek (6 + body.length) = 45 := by
  have hc := hp.count
  rw [peek_eq_getD (by omega), hp.2.2, encode_append, Nat.add_comm]
  simp only [List.getD_cons_succ]
  rw [List.getD_append_right _ _ _ _ le_rfl, Nat.sub_self]; rfl

/-- The header is read byte by byte. -/
theorem getCommandText_eq (h : InRange q) : getCommandText q =
    let size := getPacketSize q - frontPacketOverhead
    let q := incrementReadNextIndex q (6 : ℕ)
    if isNewline (q.peek 0) ∨ size = 1 then
      (false, List.replicate maxCommandNameLength 0, incrementReadNextIndex q 1)
    else if size = 0 then (false, List.replicate maxCommandNameLength 0, q)
    else
      let r := commandNameLoop size maxCommandNameLength 0 q
      let commandString := r.2.1 ++ List.replicate (maxCommandNameLength - r.2.1.length) 0
      if r.2.1.length = maxCommandNameLength ∧ r.1 = false then
        (r.1, commandString, incrementReadNextIndex r.2.2 (size - r.2.1.length))
      else (r.1, commandString, r.2.2) := by
  have h3 : getCurrentReadByte (incrementReadNextIndex q 3) = q.peek 3 := by
    rw [(h.inc 3).current]; exact h.peek_inc 3 0
  have h4 : getCurrentReadByte (incrementReadNextIndex q 4) = q.peek 4 := by
    rw [(h.inc 4).current]; exact h.peek_inc 4 0
  have e4 : incrementReadNextIndex (incrementReadNextIndex q 3) 1 = incrementReadNextIndex q 4 :=
    h.inc_inc (by decide) (by decide)
  have e5 : incrementReadNextIndex (incrementReadNextIndex q 4) 1 = incrementReadNextIndex q 5 :=
    h.inc_inc (by decide) (by decide)
  have e6 : incrementReadNextIndex (incrementReadNextIndex q 5) 1 = incrementReadNextIndex q 6 :=
    h.inc_inc (by decide) (by decide)
  have hsize : ((q.peek 4).toNat * 256 + (q.peek 3).toNat : ℤ) = getPacketSize q := by
    rw [getPacketSize, Int.add_comm]; rfl
  simp only [getCommandText, frontDelimiterOverhead, h3, e4, h4, e5, e6, hsize,
    (h.inc 6).current]
  rfl

/-- The step back from behind the byte after a body of 29 bytes. -/
theorem InRange.stepBack (h : InRange q) :
    incrementReadNextIndex (incrementReadNextIndex q (36 : ℕ)) (-1) =
      if q.readNextByte + 36 = queueSize then { q with readNextByte := -1 }
      else incrementReadNextIndex q (35 : ℕ) := by
  split
  next hQ =>
    have hend := move_pred_end (r := q.readNextByte) (k := 36) (by decide) hQ
    exact congrArg (fun x => { q with readNextByte := x }) hend
  next hQ =>
    have hpred := move_pred (k := 36) h.read (by decide) (by decide) hQ
    exact congrArg (fun x => { q with readNextByte := x }) hpred

/-- A body that is empty, has one byte or starts with a newline has no name. -/
theorem getCommandText_short {ty : PacketType} {body rest : List BYTE} (h : InRange q)
    (hp : AtPacket q ty body rest) (hs : body.length ≤ 1 ∨ body.head? = some 10) :
    (getCommandText q).1 = false ∧ ¬ StepsBelow q body ∧
      (getCommandText q).2.2 = incrementReadNextIndex q (badTextLength body) := by
  have hp6 : (incrementReadNextIndex q (6 : ℕ)).peek 0 = q.peek 6 := h.peek_inc 6 0
  have h71 : incrementReadNextIndex (incrementReadNextIndex q (6 : ℕ)) 1 =
      incrementReadNextIndex q (7 : ℕ) := h.inc_nat 6 1
  rw [getCommandText_eq h]
  simp only [hp.bodySize, hp6]
  cases body with
  | nil =>
    have hnl : ¬ isNewline (q.peek 6) := by
      rw [show q.peek 6 = 45 from peek_end hp]; decide
    rw [if_neg (by simp [hnl]), if_pos (by rfl)]
    refine ⟨rfl, ?_, rfl⟩
    rintro ⟨hl, -⟩
    cases hl
  | cons b tail =>
    have hb0 : q.peek 6 = b := peek_body hp (k := 0) (by simp)
    have hshort : (b :: tail).length = 1 ∨ (b :: tail).head? = some 10 :=
      hs.imp_left fun hl => by simp at hl ⊢; exact hl
    have hlen : badTextLength (b :: tail) = 7 := by
      rw [badTextLength, if_neg (by simp), if_pos hshort]
    have hfirst : isNewline (q.peek 6) = true ∨ ((b :: tail).length : ℤ) = 1 := by
      rcases hshort with hone | hnl
      · exact .inr (by omega)
      · exact .inl (by rw [hb0, isNewline]; simpa using hnl)
    rw [if_pos hfirst, hlen]
    refine ⟨rfl, ?_, h71⟩
    rintro ⟨hl, hhead, -⟩
    rcases hshort with hone | hnl
    · omega
    · exact hhead hnl

/-- The first byte of any other body is no newline, and the loop reads on. -/
theorem getCommandText_long {ty : PacketType} {body rest : List BYTE} (h : InRange q)
    (hp : AtPacket q ty body rest) (hlong : 2 ≤ body.length) (hhead : body.head? ≠ some 10) :
    getCommandText q =
      let r := commandNameLoop body.length maxCommandNameLength 0 (incrementReadNextIndex q (6 : ℕ))
      let commandString := r.2.1 ++ List.replicate (maxCommandNameLength - r.2.1.length) 0
      if r.2.1.length = maxCommandNameLength ∧ r.1 = false then
        (r.1, commandString, incrementReadNextIndex r.2.2 (body.length - r.2.1.length))
      else (r.1, commandString, r.2.2) := by
  have hp6 : (incrementReadNextIndex q (6 : ℕ)).peek 0 = q.peek 6 := h.peek_inc 6 0
  have hnl : ¬ isNewline (q.peek 6) := by
    rw [show q.peek 6 = body[0] from peek_body hp (k := 0) (by omega), isNewline]
    intro hb
    rw [List.head?_eq_getElem?, List.getElem?_eq_getElem (by omega)] at hhead
    exact hhead (congrArg some (by simpa using hb))
  rw [getCommandText_eq h]
  simp only [hp.bodySize, hp6]
  rw [if_neg (not_or.2 ⟨hnl, by omega⟩), if_neg (by omega)]

/-- What `get_command_text` does with a packet: it finds a name that ends in the
    body, or it stops at `badTextLength`. -/
theorem getCommandText_cases {ty : PacketType} {body rest : List BYTE} (h : InRange q)
    (hp : AtPacket q ty body rest) :
    ((getCommandText q).1 = true ∧ 1 ≤ nameLength q ∧ nameLength q < 30 ∧
      nameLength q < body.length ∧ isSeparator (q.peek (6 + nameLength q)) ∧
      (getCommandText q).2.2 = incrementReadNextIndex q (7 + nameLength q : ℕ)) ∨
    ((getCommandText q).1 = false ∧ ¬ StepsBelow q body ∧
      (getCommandText q).2.2 = incrementReadNextIndex q (badTextLength body)) ∨
    ((getCommandText q).1 = false ∧ StepsBelow q body ∧
      (getCommandText q).2.2 = { q with readNextByte := -1 }) := by
  by_cases hshort : body.length ≤ 1 ∨ body.head? = some 10
  · exact .inr (.inl (getCommandText_short h hp hshort))
  obtain ⟨hlong, hhead⟩ := not_or.1 hshort
  have hp6 : ∀ k, (incrementReadNextIndex q (6 : ℕ)).peek k = q.peek (6 + k) := h.peek_inc 6
  have hend := peek_end hp
  have hbad : badTextLength body = if body.length ≤ 28 then body.length + 7
      else body.length + 6 := by
    have hne : body ≠ [] := List.ne_nil_of_length_pos (by omega)
    rw [badTextLength, if_neg hne, if_neg (not_or.2 ⟨by omega, hhead⟩)]
  have hcases := nameLoop_cases body.length maxCommandNameLength 0 (h.inc (6 : ℕ))
  have heq := getCommandText_long h hp (by omega) hhead
  have hname : nameLength q = (commandNameLoop body.length maxCommandNameLength 0
      (incrementReadNextIndex q (6 : ℕ))).2.1.length := by
    rw [nameLength, hp.bodySize]
  have hmax : maxCommandNameLength = 30 := rfl
  rw [heq, hname]
  clear heq hname
  generalize commandNameLoop body.length maxCommandNameLength 0
    (incrementReadNextIndex q (6 : ℕ)) = r at hcases ⊢
  simp only [hp6] at hcases ⊢
  rcases hcases with ⟨hr1, hlt, hpos, hle, hsep, hq⟩ | ⟨hr1, hfull, hle, hq⟩
  · left
    -- the byte behind the body ends no name
    have hne : r.2.1.length ≠ body.length := by
      intro he
      rw [he, hend] at hsep; exact absurd hsep (by decide)
    rw [if_neg (by simp [hr1])]
    refine ⟨hr1, by omega, by omega, by omega, hsep, ?_⟩
    rw [hq, h.inc_nat]; congr 2; omega
  right
  by_cases h30 : r.2.1.length = maxCommandNameLength
  · rw [if_neg (by omega)] at hbad
    rw [if_pos ⟨h30, hr1⟩, hbad, hq, h30, hmax, h.inc_nat]
    by_cases h29 : body.length = 29
    · rw [show (body.length : ℤ) - (30 : ℕ) = -1 by omega, h.stepBack, h29]
      split
      next hQ => exact .inr ⟨hr1, ⟨h29, hhead, hQ⟩, rfl⟩
      next hQ => exact .inl ⟨hr1, fun hs => hQ hs.2.2, rfl⟩
    · refine .inl ⟨hr1, fun hs => h29 hs.1, ?_⟩
      rw [h.inc_inc (by omega) (by omega)]
      change incrementReadNextIndex q _ = _
      congr 1; omega
  · rw [if_pos (by omega)] at hbad
    rw [if_neg (fun hc => h30 hc.1), hbad, hq, h.inc_nat]
    refine .inl ⟨hr1, fun hs => by have := hs.1; omega, ?_⟩
    congr 2; omega

end

end CpcLink
