/-
  How the library on the CPC side receives bytes.

  `ReceiveByte` waits for the byte that comes next.  The loops of `ReceivePacket`
  take one in every round, and count down before they look, so a count of 0
  stands for all there are.
-/
import CpcLink.Proof.SendPacket

namespace CpcLink.Mcplib

open Z80

/-- The FIFO has a byte at the `k`-th look at it. -/
def Dor (bus : Bus) (k : ℕ) : Prop := bus k fifoStatus &&& fifoDor ≠ 0

/-- Of what was read, the bytes from the data port. -/
def fromFifo (l : List (UInt16 × BYTE)) : List BYTE :=
  (l.filter fun i => i.1 = fifoData).map Prod.snd

/-- The bytes taken from the FIFO so far. -/
def taken (m : State) : List BYTE := fromFifo m.ins

/-- The last look at the FIFO found a byte. -/
def Found (m : State) : Prop := ∃ v, m.ins.getLast? = some (fifoStatus, v) ∧ v &&& fifoDor ≠ 0

/-- These bytes come in at the FIFO, and no others.  Wherever the run is, as long
    as some are left there is one some time, and the next one is on the data port
    once it was found. -/
def Feeds (bus : Bus) (m : State) (data : List BYTE) : Prop :=
  ∀ m' before after, Steps program bus m m' → taken m' = taken m ++ before →
    data = before ++ after →
    match after with
    | [] => ∀ j ≥ m'.reads, ¬ Dor bus j
    | b :: _ => (∃ j ≥ m'.reads, Dor bus j) ∧ (Found m' → bus m'.reads fifoData = b)

/-- Some bytes were taken.  The memory and the registers but `e` and `ix` are
    free. -/
structure Took (m m' : State) (data : List BYTE) : Prop where
  e : m'.e = m.e
  ix : m'.ix = m.ix
  stack : m'.stack = m.stack
  taken : taken m' = taken m ++ data

section
variable {bus : Bus} {m m' m'' : State} {address pc : UInt16} {stack : List UInt16}
  {b : BYTE} {data data' rest : List BYTE}

/-- Nothing is read. -/
theorem Took.nothing (he : m'.e = m.e) (hix : m'.ix = m.ix) (hs : m'.stack = m.stack)
    (hins : m'.ins = m.ins) : Took m m' [] :=
  ⟨he, hix, hs, by rw [CpcLink.Mcplib.taken, hins, CpcLink.Mcplib.taken, List.append_nil]⟩

theorem Took.refl (m : State) : Took m m [] := .nothing rfl rfl rfl rfl

theorem Took.trans (h : Took m m' data) (h' : Took m' m'' data') :
    Took m m'' (data ++ data') := by
  refine ⟨h'.e.trans h.e, h'.ix.trans h.ix, h'.stack.trans h.stack, ?_⟩
  rw [h'.taken, h.taken, List.append_assoc]

theorem Took.onward (h : Took m m' data) (h' : Took m' m'' []) : Took m m'' data := by
  have hall := h.trans h'
  rwa [List.append_nil] at hall

/-- The bytes that are left come in from there on. -/
theorem Feeds.steps (hf : Feeds bus m (data ++ rest)) (hs : Steps program bus m m')
    (ht : taken m' = taken m ++ data) : Feeds bus m' rest := by
  intro m'' before after hs' ht' hrest
  refine hf m'' (data ++ before) after (hs.trans hs') ?_ ?_
  · rw [ht', ht, List.append_assoc]
  · rw [hrest, List.append_assoc]

/-- A run that takes nothing. -/
theorem Feeds.onward (hf : Feeds bus m data) (hs : Steps program bus m m')
    (ht : taken m' = taken m) : Feeds bus m' data := by
  have hf' : Feeds bus m ([] ++ data) := hf
  exact hf'.steps hs (ht.trans (List.append_nil _).symm)

theorem Feeds.tail (hf : Feeds bus m (b :: data)) (hs : Steps program bus m m')
    (ht : taken m' = taken m ++ [b]) : Feeds bus m' data := by
  have hf' : Feeds bus m ([b] ++ data) := hf
  exact hf'.steps hs ht

theorem Feeds.ready (hf : Feeds bus m (b :: data)) : ∃ j ≥ m.reads, Dor bus j :=
  (hf m [] (b :: data) .refl (List.append_nil _).symm rfl).1

theorem Feeds.next (hf : Feeds bus m (b :: data)) (hfound : Found m) : bus m.reads fifoData = b :=
  (hf m [] (b :: data) .refl (List.append_nil _).symm rfl).2 hfound

theorem Feeds.none (hf : Feeds bus m []) : ∀ j ≥ m.reads, ¬ Dor bus j :=
  hf m [] [] .refl (List.append_nil _).symm rfl

/-! ## One byte -/

theorem fromFifo_status (l : List (UInt16 × BYTE)) (v : BYTE) :
    fromFifo (l ++ [(fifoStatus, v)]) = fromFifo l := by
  have hne : ¬ fifoStatus = fifoData := by decide
  simp only [fromFifo, List.filter_append, List.filter_cons, hne, decide_false, Bool.false_eq_true,
    if_false, List.filter_nil, List.append_nil]

theorem fromFifo_data (l : List (UInt16 × BYTE)) (v : BYTE) :
    fromFifo (l ++ [(fifoData, v)]) = fromFifo l ++ [v] := by
  simp only [fromFifo, List.filter_append, List.filter_cons, decide_true, if_true, List.filter_nil,
    List.map_append, List.map_cons, List.map_nil]

/-- The FIFO has no byte. -/
theorem fifoInByte_empty (hs : m.stack = address :: stack) (hr : ¬ Dor bus m.reads) :
    Steps program bus (m.goto fifoInByte) ({ m with
      a := 0, z := true, cy := false, reads := m.reads + 1
      ins := m.ins ++ [(fifoStatus, bus m.reads fifoStatus)], stack := stack }.goto address) := by
  have h0 : bus m.reads fifoStatus &&& 1 = 0 := by_contra hr
  refine .plain rfl rfl (.plain rfl rfl (.plain rfl rfl (.retZ_taken rfl ?_ hs (.of_eq ?_))))
  · simp [word_status, h0]
  · simp [word_status, h0]

/-- It has one, which is not taken yet. -/
theorem fifoInByte_found (hr : Dor bus m.reads) :
    Steps program bus (m.goto fifoInByte) ({ m with
      a := 0xFD, z := false, cy := false, reads := m.reads + 1
      ins := m.ins ++ [(fifoStatus, bus m.reads fifoStatus)] }.goto 188) := by
  refine .plain rfl rfl (.plain rfl rfl (.plain rfl rfl (.retZ_next rfl ?_ (.plain rfl rfl (.of_eq ?_)))))
  · simp only [State.setReg, State.input, State.setLogical, State.setResult, word_status]
    exact beq_eq_false_iff_ne.2 hr
  · have hz : (bus m.reads fifoStatus &&& 1 == 0) = false := beq_eq_false_iff_ne.2 hr
    simp [word_status, hz]
    rfl

/-- The byte is taken and stored. -/
theorem fifoInByte_takes (bus : Bus) (hs : m.stack = address :: stack) (ha : m.a = 0xFD) :
    Steps program bus (m.goto 188) ({ m with
      a := 1, mem := Function.update m.mem (m.pair .hl) (bus m.reads fifoData)
      reads := m.reads + 1, ins := m.ins ++ [(fifoData, bus m.reads fifoData)]
      stack := stack }.goto address) := by
  refine .plain rfl rfl (.plain rfl rfl (.plain rfl rfl (.ret rfl hs (.of_eq ?_))))
  simp [ha, word_data]

/-- A look at the FIFO that finds nothing is followed by another. -/
theorem receiveByte_again (hr : ¬ Dor bus m.reads) :
    Steps program bus (m.goto receiveByte) ({ m with
      a := 255, z := false, cy := false, reads := m.reads + 1
      ins := m.ins ++ [(fifoStatus, bus m.reads fifoStatus)] }.goto receiveByte) := by
  have hempty := fifoInByte_empty (m := { m with stack := (receiveByte + 1) :: m.stack }) rfl hr
  refine .call rfl (hempty.trans ?_)
  exact .plain rfl rfl (.jrNz_taken rfl (by simp) (.of_eq rfl))

/-- A byte was received, to where `hl` points. -/
structure Received (m m' : State) (b : BYTE) : Prop where
  regs : m'.b = m.b ∧ m'.c = m.c ∧ m'.d = m.d ∧ m'.h = m.h ∧ m'.l = m.l
  mem : m'.mem = Function.update m.mem (m.pair .hl) b
  took : Took m m' [b]

/-- A round of `ReceiveByte` while it waits. -/
theorem waiting_round {w : State} (hw : ∃ a z cy k l, fromFifo l = taken m ∧ w =
      { m with a := a, z := z, cy := cy, reads := k, ins := l }.goto receiveByte)
    (hr : ¬ Dor bus w.reads) : ∃ w', Steps program bus w w' ∧ (∃ a z cy k l, fromFifo l = taken m ∧
      w' = { m with a := a, z := z, cy := cy, reads := k, ins := l }.goto receiveByte) ∧
      w'.reads = w.reads + 1 := by
  obtain ⟨a, z, cy, k, l, ht, rfl⟩ := hw
  exact ⟨_, receiveByte_again hr, ⟨_, _, _, _, _, (fromFifo_status l _).trans ht, rfl⟩, rfl⟩

/-- `ReceiveByte` goes on until there is a byte. -/
theorem receiveByte_runs (hf : Feeds bus (m.goto receiveByte) (b :: data))
    (hs : m.stack = address :: stack) : ∃ m',
    Steps program bus (m.goto receiveByte) ({ m' with stack := stack }.goto address) ∧
      Received m m' b := by
  obtain ⟨m₁, hsteps, ⟨a, z, cy, k, l, ht, rfl⟩, hr⟩ := Steps.wait hf.ready
    (fun w hw hr => waiting_round hw hr) ⟨m.a, m.z, m.cy, m.reads, m.ins, rfl, rfl⟩
  have hfound := fifoInByte_found (m := { m with
    a := a, z := z, cy := cy, reads := k, ins := l, stack := (receiveByte + 1) :: m.stack }) hr
  have hmid := hsteps.trans (.call rfl hfound)
  -- the byte that was found is the next one
  have hnext : bus (k + 1) fifoData = b := (hf.onward hmid ((fromFifo_status l _).trans ht)).next
    ⟨bus k fifoStatus, List.getLast?_concat, hr⟩
  have htakes := fifoInByte_takes bus (m := { m with
    a := 0xFD, z := false, cy := false, reads := k + 1, ins := l ++ [(fifoStatus, bus k fifoStatus)]
    stack := (receiveByte + 1) :: m.stack }) rfl rfl
  refine ⟨_, hmid.trans (htakes.trans (.plain rfl rfl (.jrNz_next rfl (by simp) (.ret rfl hs .refl)))),
    ⟨rfl, rfl, rfl, rfl, rfl⟩, ?_, rfl, rfl, rfl, ?_⟩
  · exact congrArg (Function.update m.mem (m.pair .hl)) hnext
  · refine (fromFifo_data _ _).trans ?_
    rw [fromFifo_status, ht]
    exact congrArg (fun b => taken m ++ [b]) hnext

theorem call_receiveByte {m : State} (pc : UInt16) (hi : program[pc.toNat]? = some (.call receiveByte))
    (hf : Feeds bus (m.goto pc) (b :: data)) : ∃ m',
    Steps program bus (m.goto pc) (m'.goto (pc + 1)) ∧ Received m m' b := by
  have hcall : Steps program bus (m.goto pc)
      ({ m with stack := (pc + 1) :: m.stack }.goto receiveByte) := .call hi .refl
  obtain ⟨m', hsteps, hrec⟩ := receiveByte_runs (hf.onward hcall rfl) rfl
  obtain ⟨hregs, hmem, htook⟩ := hrec
  exact ⟨{ m' with stack := m.stack }, hcall.trans hsteps, hregs, hmem, htook.e, htook.ix, rfl,
    htook.taken⟩

/-! ## The loops -/

/-- A loop that takes a byte in every round.  It goes on while `left` is not 0,
    and `P` holds of its rounds, one behind the other. -/
structure Loop (bus : Bus) (entry exit : UInt16) (left : State → ℕ)
    (P : State → State → List BYTE → Prop) : Prop where
  round : ∀ (m : State) b data, Feeds bus (m.goto entry) (b :: data) → ∃ m',
    Steps program bus (m.goto entry) (m'.goto (if left m = 0 then exit else entry)) ∧
      Took m m' [b] ∧ P m m' [b] ∧ (left m ≠ 0 → left m' + 1 = left m)
  cons : ∀ m m' m'' b data, P m m' [b] → P m' m'' data → P m m'' (b :: data)

/-- **The rule for these loops.** -/
theorem Loop.runs {entry exit : UInt16} {left : State → ℕ} {P : State → State → List BYTE → Prop}
    (h : Loop bus entry exit left P) {m : State} (hl : data.length = left m + 1)
    (hf : Feeds bus (m.goto entry) (data ++ rest)) : ∃ m',
    Steps program bus (m.goto entry) (m'.goto exit) ∧ Took m m' data ∧ P m m' data := by
  induction data generalizing m with
  | nil => cases hl
  | cons b data ih =>
    obtain ⟨m₁, hsteps, htook, hP, hleft⟩ := h.round m b (data ++ rest) hf
    rw [List.length_cons, Nat.add_right_cancel_iff] at hl
    by_cases h0 : left m = 0
    · obtain rfl : data = [] := List.eq_nil_of_length_eq_zero (hl.trans h0)
      rw [if_pos h0] at hsteps
      exact ⟨m₁, hsteps, htook, hP⟩
    · rw [if_neg h0] at hsteps
      obtain ⟨m', hsteps', htook', hP'⟩ := ih (hl.trans (hleft h0).symm)
        (hf.tail hsteps htook.taken)
      exact ⟨m', hsteps.trans hsteps', htook.trans htook', h.cons _ _ _ _ _ hP hP'⟩

/-- Rounds that do not end it. -/
theorem Loop.rounds {entry exit : UInt16} {left : State → ℕ} {P : State → State → List BYTE → Prop}
    (h : Loop bus entry exit left P) {m : State} (hl : data.length ≤ left m)
    (hf : Feeds bus (m.goto entry) (data ++ rest)) : ∃ m',
    Steps program bus (m.goto entry) (m'.goto entry) ∧ Took m m' data ∧
      left m' + data.length = left m := by
  induction data generalizing m with
  | nil => exact ⟨m, .refl, .refl m, rfl⟩
  | cons b data ih =>
    obtain ⟨m₁, hsteps, htook, -, hleft⟩ := h.round m b (data ++ rest) hf
    rw [List.length_cons] at hl
    have hne : left m ≠ 0 := by omega
    have hnext := hleft hne
    rw [if_neg hne] at hsteps
    obtain ⟨m', hsteps', htook', hleft'⟩ := ih (by omega) (hf.tail hsteps htook.taken)
    exact ⟨m', hsteps.trans hsteps', htook.trans htook', by rw [List.length_cons]; omega⟩

/-- The rounds left of a loop that counts down in `b`. -/
def leftInB (m : State) : ℕ := (m.b - 1).toNat

/-- The same for `bc`. -/
def leftInBc (m : State) : ℕ := (m.pair .bc - 1).toNat

theorem leftInB_eq_zero : leftInB m = 0 ↔ m.b - 1 = 0 := UInt8.toNat_inj (b := 0)

theorem leftInBc_eq_zero : leftInBc m = 0 ↔ m.pair .bc - 1 = 0 := UInt16.toNat_inj (b := 0)

theorem leftInB_next (hb : m'.b = m.b - 1) (h0 : leftInB m ≠ 0) : leftInB m' + 1 = leftInB m := by
  have hne : m.b - 1 ≠ 0 := fun he => h0 (leftInB_eq_zero.2 he)
  have h0' : (m.b - 1).toNat ≠ 0 := h0
  rw [leftInB, hb, toNat_sub_one hne, leftInB]
  omega

theorem leftInBc_next (hbc : m'.pair .bc = m.pair .bc - 1) (h0 : leftInBc m ≠ 0) :
    leftInBc m' + 1 = leftInBc m := by
  have hne : m.pair .bc - 1 ≠ 0 := fun he => h0 (leftInBc_eq_zero.2 he)
  have h0' : (m.pair .bc - 1).toNat ≠ 0 := h0
  rw [leftInBc, hbc, toNat_word_sub_one hne, leftInBc]
  omega

theorem exit_of_bc (hbc : m'.pair .bc = m.pair .bc - 1) (exit entry : UInt16) :
    (if m'.pair .bc = 0 then exit else entry) = if leftInBc m = 0 then exit else entry := by
  simp only [hbc, leftInBc_eq_zero]

/-- The bytes are stored from `hl` on. -/
structure Stored (m m' : State) (data : List BYTE) : Prop where
  hl : m'.pair .hl = m.pair .hl + UInt16.ofNat data.length
  mem : m'.mem = storeFrom m.mem (m.pair .hl) data

theorem Stored.one (hhl : m'.pair .hl = m.pair .hl + 1)
    (hmem : m'.mem = Function.update m.mem (m.pair .hl) b) : Stored m m' [b] := ⟨hhl, hmem⟩

theorem Stored.cons (h : Stored m m' [b]) (h' : Stored m' m'' data) : Stored m m'' (b :: data) := by
  have h1 : UInt16.ofNat [b].length = 1 := rfl
  constructor
  · rw [h'.hl, h.hl, h1, List.length_cons, add_ofNat_succ]
  · rw [h'.mem, h.mem, h.hl, h1]
    rfl

/-- `LoopReceiveNextByte` -/
theorem front_loop (bus : Bus) : Loop bus loopReceiveNextByte 82 leftInB Stored where
  round := by
    intro m b data hf
    obtain ⟨m₁, hsteps, ⟨hb, -, -, hh, hl⟩, hmem, htook⟩ := call_receiveByte _ rfl hf
    have hb' : m₁.b - 1 = m.b - 1 := by rw [hb]
    refine ⟨(m₁.setPair .hl (m₁.pair .hl + 1)).setReg .b (m₁.b - 1),
      hsteps.trans (.plain rfl rfl (.djnz rfl (.of_eq ?_))),
      ⟨htook.e, htook.ix, htook.stack, htook.taken⟩, .one ?_ hmem, leftInB_next hb'⟩
    · simp only [leftInB_eq_zero, ← hb]
      rfl
    · simp [hh, hl]
  cons := fun _ _ _ _ _ => Stored.cons

/-- `NextBodyByte` -/
theorem body_loop (bus : Bus) : Loop bus nextBodyByte 121 leftInBc Stored where
  round := by
    intro m b data hf
    obtain ⟨m₁, hsteps, ⟨hb, hc, -, hh, hl⟩, hmem, htook⟩ := call_receiveByte _ rfl hf
    generalize hm₂ : (m₁.setPair .hl (m₁.pair .hl + 1)).setPair .bc (m₁.pair .bc - 1) = m₂
    have hbc : m₂.pair .bc = m.pair .bc - 1 := by simp [← hm₂, hb, hc]
    have hhl : m₂.pair .hl = m.pair .hl + 1 := by simp [← hm₂, hh, hl]
    obtain ⟨a, z, hcount⟩ := count_runs bus m₂ 115 nextBodyByte rfl rfl rfl rfl rfl rfl
    rw [exit_of_bc hbc, ← hm₂] at hcount
    refine ⟨{ m₂ with a := a, z := z, cy := false }, hsteps.trans (.plain rfl rfl (.plain rfl rfl ?_)),
      ?_, .one hhl ?_, leftInBc_next hbc⟩
    · rw [← hm₂]
      exact hcount
    · rw [← hm₂]
      exact ⟨htook.e, htook.ix, htook.stack, htook.taken⟩
    · rw [← hm₂]
      exact hmem
  cons := fun _ _ _ _ _ => Stored.cons

/-- `NextLongBodyByte` -/
theorem drain_loop (bus : Bus) : Loop bus nextLongBodyByte 136 leftInBc fun _ _ _ => True where
  round := by
    intro m b data hf
    obtain ⟨m₁, hsteps, ⟨hb, hc, -, -, -⟩, -, htook⟩ := call_receiveByte _ rfl hf
    have hbc : (m₁.setPair .bc (m₁.pair .bc - 1)).pair .bc = m.pair .bc - 1 := by simp [hb, hc]
    obtain ⟨a, z, hcount⟩ := count_runs bus (m₁.setPair .bc (m₁.pair .bc - 1)) 130
      nextLongBodyByte rfl rfl rfl rfl rfl rfl
    rw [exit_of_bc hbc] at hcount
    exact ⟨{ m₁.setPair .bc (m₁.pair .bc - 1) with a := a, z := z, cy := false },
      hsteps.trans (.plain rfl rfl hcount), ⟨htook.e, htook.ix, htook.stack, htook.taken⟩, trivial,
      leftInBc_next hbc⟩
  cons := fun _ _ _ _ _ _ _ => trivial

/-- The byte at `hl` is written over. -/
structure Overwritten (m m' : State) : Prop where
  hl : m'.pair .hl = m.pair .hl
  mem : ∃ b, m'.mem = Function.update m.mem (m.pair .hl) b

/-- `NextEndDelimiter` and `NextLongBodyDelimiter` -/
theorem terminator_loop (bus : Bus) (h₀ : program[pc.toNat]? = some (.call receiveByte))
    (h₁ : program[(pc + 1).toNat]? = some (.djnz pc)) :
    Loop bus pc (pc + 1 + 1) leftInB fun m m' _ => Overwritten m m' where
  round := by
    intro m b data hf
    obtain ⟨m₁, hsteps, ⟨hb, -, -, hh, hl⟩, hmem, htook⟩ := call_receiveByte _ h₀ hf
    have hb' : m₁.b - 1 = m.b - 1 := by rw [hb]
    refine ⟨m₁.setReg .b (m₁.b - 1), hsteps.trans (.djnz h₁ (.of_eq ?_)),
      ⟨htook.e, htook.ix, htook.stack, htook.taken⟩, ⟨?_, b, hmem⟩, leftInB_next hb'⟩
    · simp only [leftInB_eq_zero, ← hb]
    · simp [hh, hl]
  cons := by
    rintro m m' m'' b data ⟨hhl, v, hv⟩ ⟨hhl', v', hv'⟩
    exact ⟨hhl'.trans hhl, v', by rw [hv', hv, hhl, Function.update_idem]⟩

/-- `---` is taken, and the byte behind the payload cleared. -/
theorem terminator_runs (h₀ : program[pc.toNat]? = some (.call receiveByte))
    (h₁ : program[(pc + 1).toNat]? = some (.djnz pc))
    (h₂ : program[(pc + 1 + 1).toNat]? = some (.ldToHlNum 0))
    (h₃ : program[(pc + 1 + 1 + 1).toNat]? = some .ret) {m : State} (hb : m.b = 3)
    (hs : m.stack = address :: stack) (hf : Feeds bus (m.goto pc) (minusMinusMinus ++ rest)) : ∃ m',
    Steps program bus (m.goto pc) ({ m' with stack := stack }.goto address) ∧
      Took m m' minusMinusMinus ∧ m'.mem = Function.update m.mem (m.pair .hl) 0 := by
  have hleft : minusMinusMinus.length = leftInB m + 1 := by
    rw [leftInB, hb]
    rfl
  obtain ⟨m₁, hsteps, htook, hhl, v, hmem⟩ := (terminator_loop bus h₀ h₁).runs hleft hf
  refine ⟨m₁.store 0, hsteps.trans (.plain h₂ rfl (.ret h₃ (htook.stack.trans hs) .refl)),
    ⟨htook.e, htook.ix, htook.stack, htook.taken⟩, ?_⟩
  rw [State.store, hhl, hmem, Function.update_idem]

end

end CpcLink.Mcplib
