/-
  Does `SendPacket` of the library on the CPC side send its buffer?

  Each routine is followed once, from its entry to the place where it goes on.
  The loop over the buffer counts down before it looks, so the length 0 stands
  for 65536 bytes.
-/
import CpcLink.Mcplib
import CpcLink.Proof.Framing

namespace CpcLink.Mcplib

open Z80

/-- The FIFO takes a byte at the `k`-th look at it. -/
def Ready (bus : Bus) (k : ℕ) : Prop := bus k fifoStatus &&& fifoDir ≠ 0

/-- It does so again and again. -/
def ReadyAgain (bus : Bus) : Prop := ∀ k, ∃ j ≥ k, Ready bus j

/-- The bytes, as they are put on the data port. -/
def onFifo (data : List BYTE) : List (UInt16 × BYTE) := data.map fun b => (fifoData, b)

/-- Some bytes were sent.  The registers but `e` and `ix` are free. -/
structure Wrote (m m' : State) (data : List BYTE) : Prop where
  e : m'.e = m.e
  ix : m'.ix = m.ix
  mem : m'.mem = m.mem
  stack : m'.stack = m.stack
  outs : m'.outs = m.outs ++ onFifo data

/-- What sending the byte in `d` leaves, after `k` looks at the FIFO, which read `l`. -/
def sent (m : State) (k : ℕ) (l : List (UInt16 × BYTE)) : State := { m with
  a := 0, b := 0xFD, c := 0x80, z := true, cy := false, reads := k, ins := l
  outs := m.outs ++ onFifo [m.d] }

section
variable {bus : Bus} {m m' m'' : State} {address pc : UInt16} {stack : List UInt16}
  {data data' : List BYTE}

theorem Wrote.refl (m : State) : Wrote m m [] := ⟨rfl, rfl, rfl, rfl, (List.append_nil _).symm⟩

theorem Wrote.trans (h : Wrote m m' data) (h' : Wrote m' m'' data') :
    Wrote m m'' (data ++ data') := by
  refine ⟨h'.e.trans h.e, h'.ix.trans h.ix, h'.mem.trans h.mem, h'.stack.trans h.stack, ?_⟩
  rw [h'.outs, h.outs, onFifo, onFifo, onFifo, List.map_append, List.append_assoc]

/-! ## One byte -/

theorem high_status : high 0xFD81 = 0xFD := high_eq rfl
theorem low_status : low 0xFD81 = 0x81 := low_eq rfl
theorem word_status : word 0xFD 0x81 = fifoStatus := word_eq rfl
theorem word_data : word 0xFD 0x80 = fifoData := word_eq rfl

/-- The FIFO takes the byte. -/
theorem fifoOutByte_ready (hs : m.stack = address :: stack) (hr : Ready bus m.reads) :
    Steps program bus (m.goto fifoOutByte) ({ m with
      a := 1, b := 0xFD, c := 0x80, z := false, cy := false, reads := m.reads + 1
      ins := m.ins ++ [(fifoStatus, bus m.reads fifoStatus)]
      outs := m.outs ++ onFifo [m.d], stack := stack }.goto address) := by
  refine .plain rfl rfl (.plain rfl rfl (.plain rfl rfl (.retZ_next rfl ?_ ?_)))
  · simp only [State.setReg, State.setPair, State.setResult, State.pair, high_status, low_status,
      word_status]
    exact beq_eq_false_iff_ne.2 hr
  · refine .plain rfl rfl (.plain rfl rfl (.plain rfl rfl (.ret rfl hs (.of_eq ?_))))
    simp [high_status, low_status, word_status, word_data, onFifo]

/-- It does not. -/
theorem fifoOutByte_full (hs : m.stack = address :: stack) (hr : ¬ Ready bus m.reads) :
    Steps program bus (m.goto fifoOutByte) ({ m with
      a := 0, b := 0xFD, c := 0x81, z := true, cy := false, reads := m.reads + 1
      ins := m.ins ++ [(fifoStatus, bus m.reads fifoStatus)], stack := stack }.goto address) := by
  have h0 : bus m.reads fifoStatus &&& 2 = 0 := by_contra hr
  refine .plain rfl rfl (.plain rfl rfl (.plain rfl rfl (.retZ_taken rfl ?_ hs (.of_eq ?_))))
  · simp only [State.setReg, State.setPair, State.setResult, State.pair, high_status, low_status,
      word_status, h0]
    rfl
  · simp [high_status, low_status, word_status, h0]

/-- A look at the FIFO that does not take the byte is followed by another. -/
theorem sendByte_again (hr : ¬ Ready bus m.reads) :
    Steps program bus (m.goto sendByte) ({ m with
      a := 255, b := 0xFD, c := 0x81, z := false, cy := false, reads := m.reads + 1
      ins := m.ins ++ [(fifoStatus, bus m.reads fifoStatus)] }.goto sendByte) := by
  have hfull := fifoOutByte_full (m := { m with stack := (sendByte + 1) :: m.stack }) rfl hr
  refine .call rfl (hfull.trans ?_)
  exact .plain rfl rfl (.jrNz_taken rfl (by simp) (.of_eq rfl))

/-- `SendByte` goes on until the FIFO takes the byte. -/
theorem sendByte_runs (hready : ReadyAgain bus) (hs : m.stack = address :: stack) : ∃ k l,
    Steps program bus (m.goto sendByte) ({ sent m k l with stack := stack }.goto address) := by
  -- only the registers of the routine change while it looks
  have hround : ∀ m', (∃ a b c z cy k l, m' =
        { m with a := a, b := b, c := c, z := z, cy := cy, reads := k, ins := l }.goto sendByte) →
      ¬ Ready bus m'.reads → ∃ m'', Steps program bus m' m'' ∧ (∃ a b c z cy k l, m'' =
        { m with a := a, b := b, c := c, z := z, cy := cy, reads := k, ins := l }.goto sendByte) ∧
      m''.reads = m'.reads + 1 := by
    rintro _ ⟨a, b, c, z, cy, k, l, rfl⟩ hr
    exact ⟨_, sendByte_again hr, ⟨_, _, _, _, _, _, _, rfl⟩, rfl⟩
  obtain ⟨m₁, hsteps, ⟨a, b, c, z, cy, k, l, rfl⟩, hr⟩ :=
    Steps.wait (hready _) hround ⟨m.a, m.b, m.c, m.z, m.cy, m.reads, m.ins, rfl⟩
  have htaken := fifoOutByte_ready (m := { m with
    a := a, b := b, c := c, z := z, cy := cy, reads := k, ins := l
    stack := (sendByte + 1) :: m.stack }) rfl hr
  refine ⟨k + 1, l ++ [(fifoStatus, bus k fifoStatus)], hsteps.trans (.call rfl (htaken.trans ?_))⟩
  exact .plain rfl rfl (.jrNz_next rfl (by simp) (.ret rfl hs (.of_eq (by simp [sent]))))

theorem call_sendByte (hready : ReadyAgain bus) (m : State) (pc : UInt16)
    (hi : program[pc.toNat]? = some (.call sendByte)) :
    ∃ k l, Steps program bus (m.goto pc) ((sent m k l).goto (pc + 1)) := by
  obtain ⟨k, l, hsteps⟩ := sendByte_runs (m := { m with stack := (pc + 1) :: m.stack }) hready rfl
  exact ⟨k, l, .call hi hsteps⟩

theorem wrote_sent (m : State) (k : ℕ) (l : List (UInt16 × BYTE)) : Wrote m (sent m k l) [m.d] :=
  ⟨rfl, rfl, rfl, rfl, rfl⟩

/-- The same byte three times. -/
theorem call_sendByte_three (hready : ReadyAgain bus) (m : State) (pc : UInt16)
    (h₁ : program[pc.toNat]? = some (.call sendByte))
    (h₂ : program[(pc + 1).toNat]? = some (.call sendByte))
    (h₃ : program[(pc + 1 + 1).toNat]? = some (.call sendByte)) :
    ∃ m', Steps program bus (m.goto pc) (m'.goto (pc + 1 + 1 + 1)) ∧
      Wrote m m' [m.d, m.d, m.d] := by
  obtain ⟨k₁, l₁, hs₁⟩ := call_sendByte hready m pc h₁
  obtain ⟨k₂, l₂, hs₂⟩ := call_sendByte hready (sent m k₁ l₁) (pc + 1) h₂
  obtain ⟨k₃, l₃, hs₃⟩ := call_sendByte hready (sent (sent m k₁ l₁) k₂ l₂) (pc + 1 + 1) h₃
  exact ⟨_, hs₁.trans (hs₂.trans hs₃),
    ((wrote_sent m k₁ l₁).trans (wrote_sent _ k₂ l₂)).trans (wrote_sent _ k₃ l₃)⟩

/-! ## The size -/

/-- `inc_again` adds the count in `a`; a count of 0 would stand for 256. -/
theorem incAgain_runs (j : ℕ) (hj : (m.a - 1).toNat = j) : Steps program bus (m.goto incAgain)
    (({ m with a := 0, z := true }.setPair .hl (m.pair .hl + (UInt16.ofNat j + 1))).goto
      (incAgain + 1 + 1 + 1)) := by
  induction j generalizing m with
  | zero =>
    have ha : m.a - 1 = 0 := by rw [← UInt8.toNat_inj, hj]; rfl
    exact .plain rfl rfl (.plain rfl rfl (.jrNz_next rfl (by simp [ha]) (.of_eq (by simp [ha]))))
  | succ j ih =>
    have ha : m.a - 1 ≠ 0 := by
      intro h0
      rw [h0] at hj; cases hj
    refine .plain rfl rfl (.plain rfl rfl (.jrNz_taken rfl (by simp [ha]) ?_))
    refine (ih ?_).trans (.of_eq ?_)
    · change (m.a - 1 - 1).toNat = j
      rw [toNat_sub_one ha, hj, Nat.add_sub_cancel]
    · have hsum : m.pair .hl + 1 + (UInt16.ofNat j + 1) = m.pair .hl + (UInt16.ofNat j + 1 + 1) := by
        rw [UInt16.add_assoc, UInt16.add_comm 1]
      simp only [State.pair] at hsum
      simp [hsum]

/-! ## The buffer -/

/-- The end of a loop that counts down in `bc`: it goes on until the count is 0. -/
theorem count_runs (bus : Bus) (m : State) (pc back : UInt16) (h₀ : program[pc.toNat]? = some (.ldReg .a .c))
    (h₁ : program[(pc + 1).toNat]? = some (.or .a))
    (h₂ : program[(pc + 1 + 1).toNat]? = some (.jrNz back))
    (h₃ : program[(pc + 1 + 1 + 1).toNat]? = some (.ldReg .a .b))
    (h₄ : program[(pc + 1 + 1 + 1 + 1).toNat]? = some (.or .a))
    (h₅ : program[(pc + 1 + 1 + 1 + 1 + 1).toNat]? = some (.jrNz back)) : ∃ a z,
    Steps program bus (m.goto pc) ({ m with a := a, z := z, cy := false }.goto
      (if m.pair .bc = 0 then pc + 1 + 1 + 1 + 1 + 1 + 1 else back)) := by
  have hzero : m.pair .bc = 0 ↔ m.c = 0 ∧ m.b = 0 := word_eq_zero_iff
  by_cases hc : m.c = 0
  swap
  · rw [if_neg fun h0 => hc (hzero.1 h0).1]
    exact ⟨_, _, .plain h₀ rfl (.plain h₁ rfl (.jrNz_taken h₂ (by simp [hc]) .refl))⟩
  by_cases hb : m.b = 0
  · rw [if_pos (hzero.2 ⟨hc, hb⟩)]
    exact ⟨_, _, .plain h₀ rfl (.plain h₁ rfl (.jrNz_next h₂ (by simp [hc])
      (.plain h₃ rfl (.plain h₄ rfl (.jrNz_next h₅ (by simp [hb]) .refl)))))⟩
  · rw [if_neg fun h0 => hb (hzero.1 h0).2]
    exact ⟨_, _, .plain h₀ rfl (.plain h₁ rfl (.jrNz_next h₂ (by simp [hc])
      (.plain h₃ rfl (.plain h₄ rfl (.jrNz_taken h₅ (by simp [hb]) .refl)))))⟩

/-- The byte at the head of the buffer is sent, and the loop counts down. -/
theorem loop_sends (hready : ReadyAgain bus) (m : State) : ∃ m',
    Steps program bus (m.goto loopSendNextByte) (m'.goto 30) ∧ Wrote m m' [m.mem (m.pair .hl)] ∧
    m'.pair .hl = m.pair .hl + 1 ∧ m'.pair .bc = m.pair .bc - 1 := by
  obtain ⟨k, l, hsend⟩ := call_sendByte hready
    { m with d := m.mem (m.pair .hl), stack := m.pair .bc :: m.stack } (loopSendNextByte + 1 + 1) rfl
  refine ⟨_, .plain rfl rfl (.plain rfl rfl (hsend.trans (.plain rfl rfl (.plain rfl rfl
    (.plain rfl rfl .refl))))), ?_, ?_, ?_⟩
  · exact ⟨rfl, rfl, rfl, rfl, rfl⟩
  · simp [sent]
  · simp [sent]

/-- A round of the loop. -/
theorem loop_round (hready : ReadyAgain bus) (m : State) : ∃ m',
    Steps program bus (m.goto loopSendNextByte)
      (m'.goto (if m.pair .bc - 1 = 0 then 36 else loopSendNextByte)) ∧
    Wrote m m' [m.mem (m.pair .hl)] ∧ m'.pair .hl = m.pair .hl + 1 ∧
      m'.pair .bc = m.pair .bc - 1 := by
  obtain ⟨m₁, hsteps, hw, hhl, hbc⟩ := loop_sends hready m
  obtain ⟨a, z, hcount⟩ := count_runs bus m₁ 30 loopSendNextByte rfl rfl rfl rfl rfl rfl
  rw [hbc] at hcount
  exact ⟨_, hsteps.trans hcount, ⟨hw.e, hw.ix, hw.mem, hw.stack, hw.outs⟩, hhl, hbc⟩

/-- How many bytes the loop sends. -/
def bodyCount (length : UInt16) : ℕ := (length - 1).toNat + 1

theorem loop_runs (hready : ReadyAgain bus) (j : ℕ) (hj : (m.pair .bc - 1).toNat = j) : ∃ m',
    Steps program bus (m.goto loopSendNextByte) (m'.goto 36) ∧
    Wrote m m' (bytesFrom m.mem (m.pair .hl) (j + 1)) := by
  induction j generalizing m with
  | zero =>
    obtain ⟨m', hsteps, hw, -, -⟩ := loop_round hready m
    have hbc : m.pair .bc - 1 = 0 := by rw [← UInt16.toNat_inj, hj]; rfl
    rw [if_pos hbc] at hsteps
    exact ⟨m', hsteps, hw⟩
  | succ j ih =>
    obtain ⟨m₁, hsteps, hw, hhl, hbc⟩ := loop_round hready m
    have hne : m.pair .bc - 1 ≠ 0 := by
      intro h0
      rw [h0] at hj; cases hj
    rw [if_neg hne] at hsteps
    obtain ⟨m', hsteps', hw'⟩ := ih (m := m₁) (by
      rw [hbc, toNat_word_sub_one hne, hj, Nat.add_sub_cancel])
    refine ⟨m', hsteps.trans hsteps', ?_⟩
    rw [hw.mem, hhl] at hw'
    exact hw.trans hw'

/-! ## The packet -/

/-- The length of the buffer, and its bytes. -/
def bufferLength (m : State) : UInt16 := word (m.mem (m.ix + 3)) (m.mem (m.ix + 2))

def bufferAddress (m : State) : UInt16 := word (m.mem (m.ix + 5)) (m.mem (m.ix + 4))

def buffer (m : State) : List BYTE := bytesFrom m.mem (bufferAddress m) (bufferLength m).toNat

/-- The newline behind the body of a text command. -/
def newline (packetType : BYTE) : List BYTE := if packetType = textCommand then [10] else []

/-- The size that is sent. -/
def packetSize (m : State) : UInt16 :=
  bufferLength m + 3 + UInt16.ofNat (newline m.e).length

/-- `+++`, up to `inc_again`. -/
theorem start_runs (hready : ReadyAgain bus) (m : State) : ∃ m',
    Steps program bus (m.goto sendPacket) (m'.goto incAgain) ∧ Wrote m m' plusPlusPlus ∧
      m'.a = 3 ∧ m'.pair .hl = bufferLength m := by
  obtain ⟨m₁, hsteps, hw⟩ := call_sendByte_three hready (m.setReg .d 43) 1 rfl rfl rfl
  refine ⟨_, .plain rfl rfl (hsteps.trans (.plain rfl rfl (.plain rfl rfl (.plain rfl rfl .refl)))),
    ⟨hw.e, hw.ix, hw.mem, hw.stack, hw.outs⟩, rfl, ?_⟩
  simp only [State.pair, State.setReg, hw.mem, hw.ix]
  rfl

/-- The size is worked out. -/
theorem size_runs (bus : Bus) (m : State) (ha : m.a = 3) : ∃ m',
    Steps program bus (m.goto incAgain) (m'.goto skipAddingNewLine) ∧ Wrote m m' [] ∧
      m'.pair .hl = m.pair .hl + 3 + UInt16.ofNat (newline m.e).length := by
  have hinc : Steps program bus (m.goto incAgain) _ := incAgain_runs 2 (by rw [ha]; rfl)
  have h3 : UInt16.ofNat 2 + 1 = 3 := rfl
  rw [h3] at hinc
  by_cases he : m.e = textCommand
  · refine ⟨_, hinc.trans (.plain rfl rfl (.plain rfl rfl (.jrNz_next rfl (by simp [he])
      (.plain rfl rfl .refl)))), ⟨rfl, rfl, rfl, rfl, (List.append_nil _).symm⟩, ?_⟩
    simp [newline, he]
  · refine ⟨_, hinc.trans (.plain rfl rfl (.plain rfl rfl (.jrNz_taken rfl (by simp [he])
      .refl))), ⟨rfl, rfl, rfl, rfl, (List.append_nil _).symm⟩, ?_⟩
    simp [newline, he]

/-- The size and the type are sent, and the loop is set up. -/
theorem header_runs (hready : ReadyAgain bus) (m : State) : ∃ m',
    Steps program bus (m.goto skipAddingNewLine) (m'.goto loopSendNextByte) ∧
      Wrote m m' [low (m.pair .hl), high (m.pair .hl), m.e] ∧
      m'.pair .hl = bufferAddress m ∧ m'.pair .bc = bufferLength m := by
  obtain ⟨k₁, l₁, hs₁⟩ := call_sendByte hready (m.setReg .d m.l) 15 rfl
  obtain ⟨k₂, l₂, hs₂⟩ := call_sendByte hready ((sent (m.setReg .d m.l) k₁ l₁).setReg .d m.h) 17 rfl
  obtain ⟨k₃, l₃, hs₃⟩ := call_sendByte hready
    ((sent ((sent (m.setReg .d m.l) k₁ l₁).setReg .d m.h) k₂ l₂).setReg .d m.e) 19 rfl
  refine ⟨_, .plain rfl rfl (hs₁.trans (.plain rfl rfl (hs₂.trans (.plain rfl rfl (hs₃.trans
    (.plain rfl rfl (.plain rfl rfl (.plain rfl rfl (.plain rfl rfl .refl))))))))),
    ⟨rfl, rfl, rfl, rfl, ?_⟩, rfl, rfl⟩
  simp [sent, onFifo]

/-- The newline of a text command. -/
theorem newline_runs (hready : ReadyAgain bus) (m : State) : ∃ m',
    Steps program bus (m.goto 36) (m'.goto writeTerminator) ∧ Wrote m m' (newline m.e) := by
  by_cases he : m.e = textCommand
  · obtain ⟨k, l, hsend⟩ :=
      call_sendByte hready { m with a := m.e, z := true, cy := false, d := 10 } 40 rfl
    refine ⟨_, .plain rfl rfl (.plain rfl rfl (.jrNz_next rfl (by simp [he])
      (.plain rfl rfl (.trans (.of_eq ?_) hsend)))), ?_⟩
    · simp [he]
    · rw [newline, if_pos he]
      exact ⟨rfl, rfl, rfl, rfl, rfl⟩
  · refine ⟨_, .plain rfl rfl (.plain rfl rfl (.jrNz_taken rfl (by simp [he]) .refl)), ?_⟩
    rw [newline, if_neg he]
    exact ⟨rfl, rfl, rfl, rfl, (List.append_nil _).symm⟩

/-- `---`, and back to the caller. -/
theorem finish_runs (hready : ReadyAgain bus) (m : State) (hs : m.stack = address :: stack) : ∃ m',
    Steps program bus (m.goto writeTerminator) ({ m' with stack := stack }.goto address) ∧
      Wrote m m' minusMinusMinus := by
  obtain ⟨m₁, hsteps, hw⟩ := call_sendByte_three hready (m.setReg .d 45) 42 rfl rfl rfl
  exact ⟨m₁, .plain rfl rfl (hsteps.trans (.ret rfl (hw.stack.trans hs) .refl)),
    ⟨hw.e, hw.ix, hw.mem, hw.stack, hw.outs⟩⟩

/-- What is sent, whatever the length. -/
def written (m : State) : List BYTE :=
  plusPlusPlus ++ [low (packetSize m), high (packetSize m), m.e] ++
    bytesFrom m.mem (bufferAddress m) (bodyCount (bufferLength m)) ++ newline m.e ++
    minusMinusMinus

/-- **`SendPacket` returns**, whenever the FIFO takes bytes. -/
theorem sendPacket_runs (hready : ReadyAgain bus) (m : State) (hs : m.stack = address :: stack) :
    ∃ m', Steps program bus (m.goto sendPacket) ({ m' with stack := stack }.goto address) ∧
      Wrote m m' (written m) := by
  obtain ⟨m₁, hs₁, hw₁, ha, hlength⟩ := start_runs hready m
  obtain ⟨m₂, hs₂, hw₂, hsize⟩ := size_runs bus m₁ ha
  have h₂ := hw₁.trans hw₂
  obtain ⟨m₃, hs₃, hw₃, hhl, hbc⟩ := header_runs hready m₂
  have h₃ := h₂.trans hw₃
  obtain ⟨m₄, hs₄, hw₄⟩ := loop_runs hready _ (m := m₃) rfl
  have h₄ := h₃.trans hw₄
  obtain ⟨m₅, hs₅, hw₅⟩ := newline_runs hready m₄
  have h₅ := h₄.trans hw₅
  obtain ⟨m₆, hs₆, hw₆⟩ := finish_runs hready m₅ (h₅.stack.trans hs)
  refine ⟨m₆, hs₁.trans (hs₂.trans (hs₃.trans (hs₄.trans (hs₅.trans hs₆)))), ?_⟩
  -- the registers still have what the header was made of
  have hsize' : m₂.pair .hl = packetSize m := by rw [hsize, hlength, hw₁.e]; rfl
  have hhl' : m₃.pair .hl = bufferAddress m := by rw [hhl, bufferAddress, h₂.mem, h₂.ix]; rfl
  have hbc' : m₃.pair .bc = bufferLength m := by rw [hbc, bufferLength, h₂.mem, h₂.ix]; rfl
  have h₆ := h₅.trans hw₆
  rw [hsize', hhl', hbc', h₂.e, h₃.mem, h₄.e, List.append_nil] at h₆
  exact h₆

/-! ## The packet of the buffer -/

/-- The bytes that were sent are the packet of the buffer, and nothing else was
    put on a port; the Pi finds the packet if it is of one of the three types. -/
def SendsPacket (bus : Bus) (m : State) (address : UInt16) (stack : List UInt16) : Prop :=
  ∃ m' data, Steps program bus m m' ∧ m'.pc = address ∧ m'.stack = stack ∧
    m'.outs = m.outs ++ onFifo data ∧ data = encode m.e (buffer m ++ newline m.e) ∧
    (1 ≤ m.e → m.e ≤ 3 → ∀ q rest, InRange q → q.unread = data ++ rest →
      isCompletePacketAvailable q = (true, q))

theorem length_newline (packetType : BYTE) : (newline packetType).length ≤ 1 := by
  unfold newline
  split
  · exact le_rfl
  · exact Nat.zero_le _

theorem length_onFifo (data : List BYTE) : (onFifo data).length = data.length := List.length_map _

theorem onFifo_inj (h : onFifo data = onFifo data') : data = data' := by
  refine List.map_injective_iff.2 (fun b b' hb => ?_) h
  exact (Prod.mk.inj hb).2

theorem length_written (m : State) :
    (written m).length = bodyCount (bufferLength m) + (newline m.e).length + 9 := by
  simp only [written, plusPlusPlus, minusMinusMinus, List.length_append, List.length_cons,
    List.length_nil, length_bytesFrom]
  omega

/-- A length that is not 0 is the number of bytes sent. -/
theorem bodyCount_of_ne {length : UInt16} (h : length ≠ 0) : bodyCount length = length.toNat := by
  have h0 : length.toNat ≠ 0 := fun h0 => h (UInt16.toNat_inj.1 h0)
  rw [bodyCount, toNat_word_sub_one h]
  omega

/-- The size does not overflow. -/
theorem toNat_packetSize (hn : (bufferLength m).toNat ≤ 65531) : (packetSize m).toNat =
    (buffer m ++ newline m.e).length + 3 := by
  have hl := length_newline m.e
  rw [packetSize, UInt16.toNat_add, UInt16.toNat_add, UInt16.toNat_ofNat', List.length_append,
    buffer, length_bytesFrom, show (3 : UInt16).toNat = 3 from rfl]
  omega

/-- What is written is the packet of the buffer. -/
theorem written_eq (h0 : bufferLength m ≠ 0) (hn : (bufferLength m).toNat ≤ 65531) :
    written m = encode m.e (buffer m ++ newline m.e) := by
  have hsize := toNat_packetSize hn
  have hlow : low (packetSize m) = byte ((buffer m ++ newline m.e).length + 3) := by
    rw [← UInt8.toNat_inj, toNat_low, hsize]
    exact_mod_cast (toNat_byte _).symm
  have hhigh : high (packetSize m) = byte (((buffer m ++ newline m.e).length + 3) / 256) := by
    have hb := toNat_byte (((buffer m ++ newline m.e).length + 3) / 256)
    have hlt := (packetSize m).toNat_lt
    push_cast at hb
    rw [← UInt8.toNat_inj, toNat_high, hb, hsize, Nat.mod_eq_of_lt (by omega)]
  rw [written, encode, hlow, hhigh, bodyCount_of_ne h0]
  simp only [buffer, List.append_assoc]

/-- Back at the caller the routine is over. -/
theorem halted_at (hm : m.pc = address) (hout : program[address.toNat]? = none) :
    step program bus m = none := by
  rw [step, hm, hout]

/-- The run of a call. -/
theorem call_runs (hready : ReadyAgain bus) (hpc : m.pc = sendPacket)
    (hs : m.stack = address :: stack) : ∃ m', Steps program bus m m' ∧ m'.pc = address ∧
      m'.stack = stack ∧ m'.outs = m.outs ++ onFifo (written m) := by
  obtain ⟨m', hsteps, hw⟩ := sendPacket_runs hready m hs
  have hm : m.goto sendPacket = m := State.goto_self hpc
  rw [hm] at hsteps
  exact ⟨_, hsteps, rfl, rfl, hw.outs⟩

/-- Of an empty buffer 65536 bytes are sent. -/
theorem not_sendsPacket_empty (hready : ReadyAgain bus) (hpc : m.pc = sendPacket)
    (hs : m.stack = address :: stack) (hout : program[address.toNat]? = none)
    (h0 : bufferLength m = 0) : ¬ SendsPacket bus m address stack := by
  rintro ⟨m₁, data, hsteps₁, hpc₁, -, houts₁, hdata, -⟩
  obtain ⟨m₂, hsteps₂, hpc₂, -, houts₂⟩ := call_runs hready hpc hs
  have hm : m₁ = m₂ := hsteps₁.unique hsteps₂ (halted_at hpc₁ hout) (halted_at hpc₂ hout)
  rw [hm, houts₂] at houts₁
  have heq : written m = data := onFifo_inj (List.append_cancel_left houts₁)
  have hl := congrArg List.length heq
  rw [hdata, length_encode, length_written, h0, List.length_append, buffer, h0,
    length_bytesFrom] at hl
  have hcount : bodyCount 0 = 65536 := rfl
  have hzero : (0 : UInt16).toNat = 0 := rfl
  omega

/-- **`SendPacket` sends the packet of its buffer** exactly if the buffer is not
    empty. -/
theorem sendsPacket_iff (hready : ReadyAgain bus) (hpc : m.pc = sendPacket)
    (hs : m.stack = address :: stack) (hout : program[address.toNat]? = none)
    (hn : (bufferLength m).toNat ≤ 65531) :
    SendsPacket bus m address stack ↔ bufferLength m ≠ 0 := by
  constructor
  · intro hsends h0
    exact not_sendsPacket_empty hready hpc hs hout h0 hsends
  · intro h0
    obtain ⟨m', hsteps, hpc', hs', houts⟩ := call_runs hready hpc hs
    refine ⟨m', written m, hsteps, hpc', hs', houts, written_eq h0 hn, fun h1 h3 q rest hq hu => ?_⟩
    rw [written_eq h0 hn] at hu
    have hty : AcceptedType m.e := ⟨fun he => by rw [he] at h1; exact absurd h1 (by decide),
      UInt8.lt_of_le_of_lt h3 (by decide)⟩
    have hl := length_newline m.e
    have hbody : (buffer m ++ newline m.e).length ≤ 65532 := by
      rw [List.length_append, buffer, length_bytesFrom]; omega
    exact AtPacket.isComplete hq ⟨hty, hbody, hu⟩

end

/-- A FIFO that takes every byte. -/
def readyBus : Bus := fun _ _ => fifoDir

theorem readyBus_ready : ReadyAgain readyBus := fun k =>
  ⟨k, le_rfl, show fifoDir &&& fifoDir ≠ 0 by decide⟩

/-- A call for a binary command, with the arguments at address 0. -/
def calledWith (length : UInt8) : State where
  a := 0
  b := 0
  c := 0
  d := 0
  e := 2
  h := 0
  l := 0
  ix := 0
  z := false
  pc := sendPacket
  stack := [1000]
  mem := fun w => if w = 2 then length else 0
  reads := 0
  outs := []

theorem bufferLength_calledWith (length : UInt8) :
    (bufferLength (calledWith length)).toNat = length.toNat := by
  have h3 : (calledWith length).mem (0 + 3) = 0 :=
    show (if (0 + 3 : UInt16) = 2 then length else 0) = 0 from if_neg (by decide)
  have h2 : (calledWith length).mem (0 + 2) = length :=
    show (if (0 + 2 : UInt16) = 2 then length else 0) = length from if_pos (by decide)
  change (word ((calledWith length).mem (0 + 3)) ((calledWith length).mem (0 + 2))).toNat = _
  rw [toNat_word, h3, h2]
  exact Nat.zero_add _

/-- A FIFO that takes a byte at every third look. -/
def busyBus : Bus := fun k _ => if k % 3 = 2 then fifoDir else 0

theorem busyBus_ready : ReadyAgain busyBus := fun k => ⟨3 * k + 2, by omega, by
  rw [Ready, busyBus, if_pos (by omega)]
  decide⟩

/-- An instance: a buffer of three bytes, and a FIFO to wait for. -/
theorem sendsPacket_three : SendsPacket busyBus (calledWith 3) 1000 [] := by
  have hl := bufferLength_calledWith 3
  refine (sendsPacket_iff busyBus_ready rfl rfl rfl ?_).2 fun h0 => ?_
  · rw [hl]; decide
  · rw [h0] at hl; cases hl

/-- Of an empty buffer the packet has 65536 bytes, behind the size 3. -/
theorem sendPacket_empty : bufferLength (calledWith 0) = 0 ∧
    ¬ SendsPacket readyBus (calledWith 0) 1000 [] ∧
    ∃ m', Steps program readyBus (calledWith 0) m' ∧ m'.pc = 1000 ∧ m'.outs.length = 65545 := by
  have h0 : bufferLength (calledWith 0) = 0 := UInt16.toNat_inj.1 (bufferLength_calledWith 0)
  refine ⟨h0, not_sendsPacket_empty readyBus_ready rfl rfl rfl h0, ?_⟩
  obtain ⟨m', hsteps, hpc, -, houts⟩ := call_runs (m := calledWith 0) readyBus_ready rfl rfl
  refine ⟨m', hsteps, hpc, ?_⟩
  rw [houts, List.length_append, length_onFifo, length_written, h0]
  rfl

end CpcLink.Mcplib
