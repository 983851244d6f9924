/-
  Does `ReceivePacket` of the library on the CPC side take its packet, and no
  more?

  It is followed once, from its entry to each of its exits.  A packet of another
  type is left behind its header.  For a packet without a body the loop over the
  body goes on behind the packet.
-/
import CpcLink.Proof.ReceiveBytes
import CpcLink.Proof.Writing

namespace CpcLink.Mcplib

open Z80

section
variable {bus : Bus} {m m' : State} {address pc : UInt16} {stack : List UInt16}
  {data rest : List BYTE}

/-! ## The parameters -/

/-- Where the buffer is, the length that is set, and the error. -/
def receiveAddress (m : State) : UInt16 := word (m.mem (m.ix + 7)) (m.mem (m.ix + 6))

def lengthAddress (m : State) : UInt16 := word (m.mem (m.ix + 5)) (m.mem (m.ix + 4))

def errorAddress (m : State) : UInt16 := word (m.mem (m.ix + 1)) (m.mem (m.ix + 0))

/-- `SetBufferLengthParam` -/
theorem setLength_runs (bus : Bus) {m : State} (hs : m.stack = address :: stack) : ∃ m',
    Steps program bus (m.goto setBufferLengthParam) ({ m' with stack := stack }.goto address) ∧
      Took m m' [] ∧ m'.pair .bc = m.pair .bc ∧
      m'.mem = storeFrom m.mem (lengthAddress m) [m.c, m.b] := by
  refine ⟨_, .plain rfl rfl (.plain rfl rfl (.plain rfl rfl (.plain rfl rfl
    (.plain rfl rfl (.ret rfl hs .refl))))), ?_, ?_, ?_⟩
  · apply Took.nothing <;> simp
  · simp
  · simp [storeFrom, lengthAddress]

theorem setBufferLengthParam_runs (bus : Bus) (m : State) (pc : UInt16)
    (hi : program[pc.toNat]? = some (.call setBufferLengthParam)) : ∃ m',
    Steps program bus (m.goto pc) (m'.goto (pc + 1)) ∧ Took m m' [] ∧ m'.pair .bc = m.pair .bc ∧
      m'.mem = storeFrom m.mem (lengthAddress m) [m.c, m.b] := by
  obtain ⟨m', hsteps, htook, hbc, hmem⟩ := setLength_runs bus
    (m := { m with stack := (pc + 1) :: m.stack }) rfl
  exact ⟨{ m' with stack := m.stack }, .call hi hsteps, ⟨htook.e, htook.ix, rfl, htook.taken⟩, hbc, hmem⟩

/-- An error is set, and the routine is over. -/
theorem setError_runs (bus : Bus) (pc : UInt16) {n : BYTE} (h₀ : program[pc.toNat]? = some (.ldNum .a n))
    (h₁ : program[(pc + 1).toNat]? = some (.jr setError)) {m : State}
    (hs : m.stack = address :: stack) : ∃ m',
    Steps program bus (m.goto pc) ({ m' with stack := stack }.goto address) ∧ Took m m' [] ∧
      m'.mem = storeFrom m.mem (errorAddress m) [n, 0] := by
  refine ⟨_, .plain h₀ rfl (.jr h₁ (.plain rfl rfl (.plain rfl rfl (.plain rfl rfl (.plain rfl rfl
    (.plain rfl rfl (.ret rfl hs .refl))))))), .nothing rfl rfl rfl rfl, ?_⟩
  simp [storeFrom, errorAddress]

/-! ## The front -/

/-- `dec_again` takes the count in `a` off. -/
theorem decAgain_runs {m : State} (j : ℕ) (hj : (m.a - 1).toNat = j) :
    Steps program bus (m.goto decAgain)
      (({ m with a := 0, z := true }.setPair .bc (m.pair .bc - (UInt16.ofNat j + 1))).goto
        (decAgain + 1 + 1 + 1)) := by
  induction j generalizing m with
  | zero =>
    have ha : m.a - 1 = 0 := by rw [← UInt8.toNat_inj, hj]; rfl
    exact .plain rfl rfl (.plain rfl rfl (.jrNz_next rfl (by simp [ha]) (.of_eq (by simp [ha]))))
  | succ j ih =>
    have ha : m.a - 1 ≠ 0 := by
      intro h0
      rw [h0] at hj
      cases hj
    refine .plain rfl rfl (.plain rfl rfl (.jrNz_taken rfl (by simp [ha]) ?_))
    refine (ih ?_).trans (.of_eq ?_)
    · change (m.a - 1 - 1).toNat = j
      rw [toNat_sub_one ha, hj, Nat.add_sub_cancel]
    · have hdiff : m.pair .bc - 1 - (UInt16.ofNat j + 1) = m.pair .bc - (UInt16.ofNat j + 1 + 1) := by
        grind
      simp only [State.pair] at hdiff
      simp [hdiff]

/-- `+++`, the size and the type come in. -/
theorem start_takes {m : State} (hl : data.length = 6)
    (hf : Feeds bus (m.goto receivePacket) (data ++ rest)) : ∃ m',
    Steps program bus (m.goto receivePacket) (m'.goto 82) ∧ Took m m' data ∧
      m'.pair .hl = receiveAddress m + UInt16.ofNat 6 ∧
      m'.mem = storeFrom m.mem (receiveAddress m) data := by
  generalize hm₁ : ((m.setReg .l (m.mem (m.ix + 6))).setReg .h (m.mem (m.ix + 7))).setReg .b
    frontPacketOverhead = m₁
  have hfirst : Steps program bus (m.goto receivePacket) (m₁.goto loopReceiveNextByte) := by
    rw [← hm₁]
    exact .plain rfl rfl (.plain rfl rfl (.plain rfl rfl .refl))
  have htaken : taken (m₁.goto loopReceiveNextByte) = taken (m.goto receivePacket) := by
    rw [← hm₁]
    rfl
  have hleft : data.length = leftInB m₁ + 1 := by
    have hb : m₁.b = 6 := by rw [← hm₁]; rfl
    rw [hl, leftInB, hb]
    rfl
  obtain ⟨m', hsteps, htook, hhl, hmem⟩ := (front_loop bus).runs hleft (hf.onward hfirst htaken)
  have haddress : m₁.pair .hl = receiveAddress m := by
    rw [← hm₁]
    rfl
  rw [haddress, hl] at hhl
  rw [haddress] at hmem
  subst hm₁
  exact ⟨m', hfirst.trans hsteps, ⟨htook.e, htook.ix, htook.stack, htook.taken⟩, hhl, hmem⟩

/-- The type is compared with the one that is expected. -/
theorem type_compared (bus : Bus) (m : State) : ∃ m', Steps program bus (m.goto 82) (m'.goto 85) ∧
    Took m m' [] ∧ m'.pair .hl = m.pair .hl - 1 ∧ m'.mem = m.mem ∧
      m'.z = (m.mem (m.pair .hl - 1) == m.e) := by
  refine ⟨_, .plain rfl rfl (.plain rfl rfl (.plain rfl rfl .refl)),
    .nothing rfl rfl rfl rfl, ?_, rfl, ?_⟩
  · simp
  · simp

/-- The length of the body is worked out. -/
theorem length_computed (bus : Bus) (m : State) : ∃ m', Steps program bus (m.goto 86) (m'.goto 94) ∧
    Took m m' [] ∧ m'.pair .hl = m.pair .hl - 1 - 1 ∧ m'.mem = m.mem ∧
      m'.pair .bc = word (m.mem (m.pair .hl - 1)) (m.mem (m.pair .hl - 1 - 1)) - 3 := by
  generalize hm₁ : { m.setPair .hl (m.pair .hl - 1 - 1) with
    a := 3, b := m.mem (m.pair .hl - 1), c := m.mem (m.pair .hl - 1 - 1) } = m₁
  have hread : Steps program bus (m.goto 86) (m₁.goto decAgain) := by
    refine .plain rfl rfl (.plain rfl rfl (.plain rfl rfl (.plain rfl rfl (.plain rfl rfl
      (.of_eq ?_)))))
    rw [← hm₁]
    simp only [State.setReg, State.setPair, State.pair, word_high_low]
    rfl
  have ha : (m₁.a - 1).toNat = 2 := by
    have h3 : m₁.a = 3 := by rw [← hm₁]
    rw [h3]
    rfl
  have hdec : Steps program bus (m₁.goto decAgain) _ := decAgain_runs 2 ha
  subst hm₁
  refine ⟨_, hread.trans hdec, .nothing rfl rfl rfl rfl, ?_, rfl, ?_⟩
  · simp
  · simp

/-- One byte of `+++` is looked at. -/
theorem delimiter_round (bus : Bus) {m : State} (hplus : m.mem (m.pair .hl - 1) = 43) : ∃ m',
    Steps program bus (m.goto nextDelimiterByte)
      (m'.goto (if m.d - 1 = 0 then 109 else nextDelimiterByte)) ∧
    Took m m' [] ∧ m'.d = m.d - 1 ∧ m'.pair .hl = m.pair .hl - 1 ∧ m'.mem = m.mem ∧
      m'.pair .bc = m.pair .bc := by
  generalize hm₁ : { m.setPair .hl (m.pair .hl - 1) with
    a := 43, z := m.d - 1 == 0, cy := false, d := m.d - 1 } = m₁
  have hlooked : Steps program bus (m.goto nextDelimiterByte) (m₁.goto 108) := by
    refine .plain rfl rfl (.plain rfl rfl (.plain rfl rfl (.jpNz_next rfl ?_ (.plain rfl rfl
      (.of_eq ?_)))))
    · simpa using hplus
    · rw [← hm₁]
      simp only [State.pair] at hplus
      simp [hplus]
      rfl
  have hd : m₁.z = (m.d - 1 == 0) := by rw [← hm₁]
  refine ⟨m₁, hlooked.trans ?_, ?_⟩
  · by_cases h0 : m.d - 1 = 0
    · rw [if_pos h0]
      exact .jrNz_next rfl (by rw [hd, h0]; rfl) .refl
    · rw [if_neg h0]
      exact .jrNz_taken rfl (by rw [hd]; exact beq_eq_false_iff_ne.2 h0) .refl
  · rw [← hm₁]
    exact ⟨.nothing rfl rfl rfl rfl, rfl, by simp, rfl, rfl⟩

/-- `+++` is looked at from its end. -/
theorem delimiter_runs (bus : Bus) {w : UInt16} (j : ℕ) {m : State} (hj : (m.d - 1).toNat = j)
    (hhl : m.pair .hl = w + UInt16.ofNat (j + 1))
    (hplus : ∀ i ≤ j, m.mem (w + UInt16.ofNat i) = 43) : ∃ m',
    Steps program bus (m.goto nextDelimiterByte) (m'.goto 109) ∧ Took m m' [] ∧
      m'.pair .bc = m.pair .bc ∧ m'.mem = m.mem := by
  induction j generalizing m with
  | zero =>
    obtain ⟨m', hsteps, htook, -, -, hmem, hbc⟩ := delimiter_round bus (m := m) (by
      rw [hhl, add_ofNat_sub_one]
      exact hplus 0 le_rfl)
    have hd : m.d - 1 = 0 := by rw [← UInt8.toNat_inj, hj]; rfl
    rw [if_pos hd] at hsteps
    exact ⟨m', hsteps, htook, hbc, hmem⟩
  | succ j ih =>
    obtain ⟨m₁, hsteps, htook, hd, hhl₁, hmem, hbc⟩ := delimiter_round bus (m := m) (by
      rw [hhl, add_ofNat_sub_one]
      exact hplus (j + 1) le_rfl)
    have hne : m.d - 1 ≠ 0 := by
      intro h0
      rw [h0] at hj
      cases hj
    rw [if_neg hne] at hsteps
    obtain ⟨m', hsteps', htook', hbc', hmem'⟩ := ih (m := m₁)
      (by rw [hd, toNat_sub_one hne, hj, Nat.add_sub_cancel])
      (by rw [hhl₁, hhl, add_ofNat_sub_one])
      (fun i hi => by rw [hmem]; exact hplus i (Nat.le_succ_of_le hi))
    exact ⟨m', hsteps.trans hsteps', htook.trans htook', hbc'.trans hbc, hmem'.trans hmem⟩

/-- `+++` is found, the length is set, and the body is expected. -/
theorem body_expected (bus : Bus) {m : State} {w : UInt16} (hhl : m.pair .hl = w + UInt16.ofNat 3)
    (hplus : ∀ i ≤ 2, m.mem (w + UInt16.ofNat i) = 43) : ∃ m',
    Steps program bus (m.goto bufferCheckOk) (m'.goto nextBodyByte) ∧ Took m m' [] ∧
      m'.pair .bc = m.pair .bc ∧ m'.mem = storeFrom m.mem (lengthAddress m) [m.c, m.b] ∧
      m'.pair .hl = receiveAddress m' := by
  have hd : ((m.setReg .d delimiterSize).d - 1).toNat = 2 := show (delimiterSize - 1).toNat = 2 by decide
  obtain ⟨m₁, hsteps, htook, hbc, hmem⟩ := delimiter_runs bus 2 hd hhl hplus
  obtain ⟨m₂, hsteps₂, htook₂, hbc₂, hmem₂⟩ := setBufferLengthParam_runs bus m₁ 109 rfl
  have htook₃ := htook.trans htook₂
  have hc : m₁.c = m.c := by
    have hlow := congrArg low hbc
    simpa using hlow
  have hb : m₁.b = m.b := by
    have hhigh := congrArg high hbc
    simpa using hhigh
  have haddress : lengthAddress m₁ = lengthAddress m := by
    simp only [lengthAddress, hmem, htook.ix]
    rfl
  refine ⟨(m₂.setReg .l (m₂.mem (m₂.ix + 6))).setReg .h (m₂.mem (m₂.ix + 7)),
    .plain rfl rfl (hsteps.trans (hsteps₂.trans (.plain rfl rfl (.plain rfl rfl .refl)))),
    ⟨htook₃.e, htook₃.ix, htook₃.stack, htook₃.taken⟩, hbc₂.trans hbc, ?_, rfl⟩
  change m₂.mem = _
  rw [hmem₂, haddress, hmem, hc, hb]
  rfl

variable {ty : BYTE} {n : ℕ}

/-- The header comes in, and the type is compared. -/
theorem header_takes {m : State} (hf : Feeds bus (m.goto receivePacket) (front ty n ++ rest)) : ∃ m',
    Steps program bus (m.goto receivePacket) (m'.goto 85) ∧ Took m m' (front ty n) ∧
      m'.pair .hl = receiveAddress m + UInt16.ofNat 5 ∧
      m'.mem = storeFrom m.mem (receiveAddress m) (front ty n) ∧ m'.z = (ty == m.e) := by
  have hl : (front ty n).length = 6 := rfl
  obtain ⟨m₁, hsteps, htook, hhl, hmem⟩ := start_takes hl hf
  obtain ⟨m₂, hsteps₂, htook₂, hhl₂, hmem₂, hz⟩ := type_compared bus m₁
  have htook' := htook.onward htook₂
  rw [hhl, add_ofNat_sub_one] at hhl₂ hz
  refine ⟨m₂, hsteps.trans hsteps₂, htook', hhl₂, hmem₂.trans hmem, ?_⟩
  have hty : m₁.mem (receiveAddress m + UInt16.ofNat 5) = ty := by
    rw [hmem, storeFrom_apply (by rw [hl]; decide) (by rw [hl]; decide)]
    rfl
  rw [hz, hty, htook.e]

theorem word_front (hn : n ≤ 65532) :
    word (byte ((n + 3) / 256)) (byte (n + 3)) - 3 = UInt16.ofNat n := by
  have hlow := toNat_byte (n + 3)
  have hhigh := toNat_byte ((n + 3) / 256)
  push_cast at hlow hhigh
  have hword : word (byte ((n + 3) / 256)) (byte (n + 3)) = UInt16.ofNat (n + 3) := by
    refine word_eq ?_
    rw [hlow, hhigh, UInt16.toNat_ofNat', Nat.mod_eq_of_lt (by omega : n + 3 < 2 ^ 16)]
    omega
  rw [hword, UInt16.ofNat_add]
  exact UInt16.add_sub_cancel _ _

/-- The type is the one that is expected, and the length of the body known. -/
theorem header_accepted {m : State} (hn : n ≤ 65532) (he : ty = m.e)
    (hf : Feeds bus (m.goto receivePacket) (front ty n ++ rest)) : ∃ m',
    Steps program bus (m.goto receivePacket) (m'.goto 94) ∧ Took m m' (front ty n) ∧
      m'.pair .hl = receiveAddress m + UInt16.ofNat 3 ∧
      m'.mem = storeFrom m.mem (receiveAddress m) (front ty n) ∧ m'.pair .bc = UInt16.ofNat n := by
  obtain ⟨m₁, hsteps, htook, hhl, hmem, hz⟩ := header_takes hf
  obtain ⟨m₂, hsteps₂, htook₂, hhl₂, hmem₂, hbc⟩ := length_computed bus m₁
  have htook' := htook.onward htook₂
  have hl : (front ty n).length = 6 := rfl
  have hhigh : m₁.mem (receiveAddress m + UInt16.ofNat 4) = byte ((n + 3) / 256) := by
    rw [hmem, storeFrom_apply (by rw [hl]; decide) (by rw [hl]; decide)]
    rfl
  have hlow : m₁.mem (receiveAddress m + UInt16.ofNat 3) = byte (n + 3) := by
    rw [hmem, storeFrom_apply (by rw [hl]; decide) (by rw [hl]; decide)]
    rfl
  rw [hhl, add_ofNat_sub_one, add_ofNat_sub_one] at hhl₂ hbc
  rw [hhigh, hlow, word_front hn] at hbc
  exact ⟨m₂, hsteps.trans (.jpNz_next rfl (by rw [hz, he]; exact beq_self_eq_true _) hsteps₂), htook',
    hhl₂, hmem₂.trans hmem, hbc⟩

/-! ## The ways out -/

/-- A packet of another type: the header is taken. -/
theorem type_rejected {m : State} (hs : m.stack = address :: stack) (hne : ty ≠ m.e)
    (hf : Feeds bus (m.goto receivePacket) (front ty n ++ rest)) : ∃ m',
    Steps program bus (m.goto receivePacket) ({ m' with stack := stack }.goto address) ∧
      Took m m' (front ty n) := by
  obtain ⟨m₁, hsteps, htook, -, -, hz⟩ := header_takes hf
  obtain ⟨m₂, hsteps₂, htook₂, -⟩ := setError_runs bus packetTypeError rfl rfl
    (htook.stack.trans hs)
  have htook' := htook.onward htook₂
  have hz' : m₁.z = false := by
    rw [hz]
    exact beq_eq_false_iff_ne.2 hne
  exact ⟨m₂, hsteps.trans (.jpNz_taken rfl hz' hsteps₂), htook'⟩

theorem toNat_b_of_bc (hbc : m.pair .bc = UInt16.ofNat n) (hn : n ≤ 65532) : m.b.toNat = n / 256 := by
  have hhigh := congrArg high hbc
  rw [State.pair, high_word] at hhigh
  rw [hhigh, toNat_high, UInt16.toNat_ofNat', Nat.mod_eq_of_lt (by omega)]

theorem leftInBc_of_bc (hbc : m.pair .bc = UInt16.ofNat n) (hn : n ≤ 65532) (h0 : n ≠ 0) :
    leftInBc m + 1 = n := by
  have hne : m.pair .bc ≠ 0 := by
    intro he
    have hzero := congrArg UInt16.toNat (hbc.symm.trans he)
    rw [UInt16.toNat_ofNat', UInt16.toNat_zero, Nat.mod_eq_of_lt (by omega)] at hzero
    exact h0 hzero
  rw [leftInBc, toNat_word_sub_one hne, hbc, UInt16.toNat_ofNat', Nat.mod_eq_of_lt (by omega)]
  omega

/-- `DrainPacketFromQueue` takes the body and `---`. -/
theorem drain_runs {m : State} (hs : m.stack = address :: stack) (hl : leftInBc m + 1 = data.length)
    (hf : Feeds bus (m.goto drainPacketFromQueue) (data ++ (minusMinusMinus ++ rest))) : ∃ m',
    Steps program bus (m.goto drainPacketFromQueue) ({ m' with stack := stack }.goto address) ∧
      Took m m' (data ++ minusMinusMinus) := by
  generalize hm₁ : (m.setReg .l (m.mem (m.ix + 6))).setReg .h (m.mem (m.ix + 7)) = m₁
  have hfirst : Steps program bus (m.goto drainPacketFromQueue) (m₁.goto nextLongBodyByte) := by
    rw [← hm₁]
    exact .plain rfl rfl (.plain rfl rfl .refl)
  have htook₁ : Took m m₁ [] := by
    rw [← hm₁]
    exact .nothing rfl rfl rfl rfl
  have hleft : data.length = leftInBc m₁ + 1 := by
    rw [← hl, ← hm₁]
    rfl
  have hf₁ := hf.onward hfirst (htook₁.taken.trans (List.append_nil _))
  obtain ⟨m₂, hsteps, htook₂, -⟩ := (drain_loop bus).runs hleft hf₁
  have hthree : Steps program bus (m₂.goto 136) ((m₂.setReg .b 3).goto nextLongBodyDelimiter) :=
    .plain rfl rfl .refl
  have hf₂ := (hf₁.steps hsteps htook₂.taken).onward hthree rfl
  obtain ⟨m₃, hsteps₃, htook₃, -⟩ := terminator_runs rfl rfl rfl rfl (m := m₂.setReg .b 3) rfl
    (htook₂.stack.trans (htook₁.stack.trans hs)) hf₂
  have htook := (htook₁.trans htook₂).trans ⟨htook₃.e, htook₃.ix, htook₃.stack, htook₃.taken⟩
  exact ⟨m₃, hfirst.trans (hsteps.trans (hthree.trans hsteps₃)), htook⟩

/-- A packet that is too large: all of it is taken. -/
theorem size_rejected {m : State} {body : List BYTE} (hs : m.stack = address :: stack)
    (he : ty = m.e) (hn : 4096 ≤ body.length) (hn' : body.length ≤ 65532)
    (hf : Feeds bus (m.goto receivePacket) (encode ty body ++ rest)) : ∃ m',
    Steps program bus (m.goto receivePacket) ({ m' with stack := stack }.goto address) ∧
      Took m m' (encode ty body) := by
  rw [encode_eq_front, List.append_assoc, List.append_assoc] at hf
  obtain ⟨m₁, hsteps₁, htook₁, -, -, hbc⟩ := header_accepted hn' he hf
  have hb : ¬ m₁.b < bufferMaxSizeHi := by
    rw [UInt8.lt_iff_toNat_lt, toNat_b_of_bc hbc hn', show bufferMaxSizeHi.toNat = 16 from rfl]
    omega
  generalize hm₂ : { m₁ with
    a := m₁.b, z := m₁.b == bufferMaxSizeHi, cy := false, stack := 98 :: m₁.stack } = m₂
  have hcall : Steps program bus (m₁.goto 94) (m₂.goto drainPacketFromQueue) := by
    rw [← hm₂]
    refine .plain rfl rfl (.plain rfl rfl (.jrC_next rfl (by simp [hb]) (.call rfl (.of_eq ?_))))
    simp [hb]
  have hf₁ := (hf.steps hsteps₁ htook₁.taken).onward hcall (by rw [← hm₂]; rfl)
  have hl : leftInBc m₂ + 1 = body.length := by
    rw [← hm₂]
    exact leftInBc_of_bc hbc hn' (by omega)
  have hs₂ : m₂.stack = 98 :: m₁.stack := by rw [← hm₂]
  obtain ⟨m₃, hsteps₃, htook₃⟩ := drain_runs hs₂ hl hf₁
  obtain ⟨m₄, hsteps₄, htook₄, -, -⟩ := setBufferLengthParam_runs bus
    ({ m₃ with stack := m₁.stack, b := 0, c := 0 }) 100 rfl
  obtain ⟨m₅, hsteps₅, htook₅, -⟩ := setError_runs bus packetSizeTooLargeError
    rfl rfl (htook₄.stack.trans (htook₁.stack.trans hs))
  refine ⟨m₅, hsteps₁.trans (hcall.trans (hsteps₃.trans (.plain rfl rfl (.plain rfl rfl
    (hsteps₄.trans (.jp rfl hsteps₅)))))), ?_⟩
  have hdrained : Took m₁ { m₃ with stack := m₁.stack, b := 0, c := 0 } (body ++ minusMinusMinus) := by
    subst hm₂
    exact ⟨htook₃.e, htook₃.ix, rfl, htook₃.taken⟩
  have htook := htook₁.trans (hdrained.onward (htook₄.onward htook₅))
  rwa [← List.append_assoc, ← encode_eq_front] at htook

/-- The memory with the header in the buffer. -/
def headerIn (m : State) (ty : BYTE) (n : ℕ) : State :=
  { m with mem := storeFrom m.mem (receiveAddress m) (front ty n) }

/-- With the length set. -/
def lengthIn (m : State) (n : ℕ) : State :=
  { m with mem := storeFrom m.mem (lengthAddress m) [low (UInt16.ofNat n), high (UInt16.ofNat n)] }

/-- With the body in the buffer, and a zero behind it. -/
def bodyIn (m : State) (body : List BYTE) : State := { m with
  mem := Function.update (storeFrom m.mem (receiveAddress m) body)
    (receiveAddress m + UInt16.ofNat body.length) 0 }

/-- The header of a body that fits is taken, and the length set. -/
theorem body_reached {m : State} (he : ty = m.e) (hn : n < 4096)
    (hf : Feeds bus (m.goto receivePacket) (front ty n ++ rest)) : ∃ m',
    Steps program bus (m.goto receivePacket) (m'.goto nextBodyByte) ∧ Took m m' (front ty n) ∧
      m'.pair .bc = UInt16.ofNat n ∧ m'.mem = (lengthIn (headerIn m ty n) n).mem ∧
      m'.pair .hl = receiveAddress (lengthIn (headerIn m ty n) n) := by
  have hn' : n ≤ 65532 := by omega
  obtain ⟨m₁, hsteps₁, htook₁, hhl₁, hmem₁, hbc⟩ := header_accepted hn' he hf
  have hb : m₁.b < bufferMaxSizeHi := by
    rw [UInt8.lt_iff_toNat_lt, toNat_b_of_bc hbc hn', show bufferMaxSizeHi.toNat = 16 from rfl]
    omega
  generalize hm₂ : { m₁ with a := m₁.b, z := m₁.b == bufferMaxSizeHi, cy := true } = m₂
  have hchecked : Steps program bus (m₁.goto 94) (m₂.goto bufferCheckOk) := by
    rw [← hm₂]
    exact .plain rfl rfl (.plain rfl rfl (.jrC_taken rfl (by simp [hb]) (.of_eq (by simp [hb]))))
  have htook₂ : Took m₁ m₂ [] := by
    rw [← hm₂]
    exact .nothing rfl rfl rfl rfl
  have hmem₂ : m₂.mem = (headerIn m ty n).mem := by
    rw [← hm₂]
    exact hmem₁
  have hhl₂ : m₂.pair .hl = receiveAddress m + UInt16.ofNat 3 := by
    rw [← hm₂]
    exact hhl₁
  have hbc₂ : m₂.pair .bc = UInt16.ofNat n := by
    rw [← hm₂]
    exact hbc
  have hplus : ∀ i ≤ 2, m₂.mem (receiveAddress m + UInt16.ofNat i) = 43 := by
    intro i hi
    have hl : (front ty n).length = 6 := rfl
    rw [hmem₂]
    refine (storeFrom_apply (by rw [hl]; decide) (by omega)).trans ?_
    rcases i with _ | _ | _ | i
    · rfl
    · rfl
    · rfl
    · omega
  obtain ⟨m₃, hsteps₃, htook₃, hbc₃, hmem₃, hhl₃⟩ := body_expected bus hhl₂ hplus
  have htook := htook₁.onward (htook₂.onward htook₃)
  have hc : m₂.c = low (UInt16.ofNat n) := by rw [← hbc₂, State.pair, low_word]
  have hb' : m₂.b = high (UInt16.ofNat n) := by rw [← hbc₂, State.pair, high_word]
  have haddress : lengthAddress m₂ = lengthAddress (headerIn m ty n) := by
    simp only [lengthAddress, hmem₂, (htook₁.trans htook₂).ix]
    rfl
  have hset : m₃.mem = (lengthIn (headerIn m ty n) n).mem := by
    rw [hmem₃, haddress, hmem₂, hc, hb']
    rfl
  refine ⟨m₃, hsteps₁.trans (hchecked.trans hsteps₃), htook, hbc₃.trans hbc₂, hset, ?_⟩
  rw [hhl₃]
  simp only [receiveAddress, hset, htook.ix]
  rfl

/-- A body that fits: all of the packet is taken, and the body stored.  The
    parameters are looked up again each time. -/
theorem packet_received {m : State} {body : List BYTE} (hs : m.stack = address :: stack)
    (he : ty = m.e) (h0 : body ≠ []) (hn : body.length < 4096)
    (hf : Feeds bus (m.goto receivePacket) (encode ty body ++ rest)) : ∃ m',
    Steps program bus (m.goto receivePacket) ({ m' with stack := stack }.goto address) ∧
      Took m m' (encode ty body) ∧
      m'.mem = (bodyIn (lengthIn (headerIn m ty body.length) body.length) body).mem := by
  rw [encode_eq_front, List.append_assoc, List.append_assoc] at hf
  obtain ⟨m₁, hsteps₁, htook₁, hbc, hmem₁, hhl₁⟩ := body_reached he hn hf
  have hf₁ := hf.steps hsteps₁ htook₁.taken
  have hleft : body.length = leftInBc m₁ + 1 :=
    (leftInBc_of_bc hbc (by omega) fun h => h0 (List.eq_nil_of_length_eq_zero h)).symm
  obtain ⟨m₂, hsteps₂, htook₂, hhl₂, hmem₂⟩ := (body_loop bus).runs hleft hf₁
  have hthree : Steps program bus (m₂.goto 121) ((m₂.setReg .b 3).goto nextEndDelimiter) :=
    .plain rfl rfl .refl
  have hf₂ := (hf₁.steps hsteps₂ htook₂.taken).onward hthree rfl
  have htook := htook₁.trans htook₂
  obtain ⟨m₃, hsteps₃, htook₃, hmem₃⟩ := terminator_runs rfl rfl rfl rfl (m := m₂.setReg .b 3) rfl
    (htook.stack.trans hs) hf₂
  refine ⟨m₃, hsteps₁.trans (hsteps₂.trans (hthree.trans hsteps₃)), ?_, ?_⟩
  · have hall := htook.trans ⟨htook₃.e, htook₃.ix, htook₃.stack, htook₃.taken⟩
    rwa [← encode_eq_front] at hall
  · change m₃.mem = Function.update m₂.mem (m₂.pair .hl) 0 at hmem₃
    rw [hmem₃, hmem₂, hhl₂, hhl₁, hmem₁]
    rfl

/-! ## One call, one packet -/

/-- One call takes this packet and nothing else, and what is behind it is still
    to come. -/
def Consumes (bus : Bus) (m : State) (address : UInt16) (stack : List UInt16)
    (packet rest : List BYTE) : Prop :=
  ∃ m', Steps program bus m m' ∧ m'.pc = address ∧ m'.stack = stack ∧
    taken m' = taken m ++ packet ∧ Feeds bus m' rest

/-- What was taken stays taken. -/
theorem taken_prefix (h : Steps program bus m m') : taken m <+: taken m' :=
  ((h.ins_prefix).filter _).map _

theorem Consumes.of_took {packet : List BYTE} (hsteps : Steps program bus m ({ m' with stack := stack }.goto address))
    (htook : Took m m' packet) (hf : Feeds bus m (packet ++ rest)) :
    Consumes bus m address stack packet rest :=
  ⟨_, hsteps, rfl, rfl, htook.taken, hf.steps hsteps htook.taken⟩

/-- A packet of another type is not taken. -/
theorem not_consumes_type {m : State} {body : List BYTE} (hpc : m.pc = receivePacket)
    (hs : m.stack = address :: stack) (hout : program[address.toNat]? = none)
    (hf : Feeds bus m (encode ty body ++ rest)) (hne : ty ≠ m.e) :
    ¬ Consumes bus m address stack (encode ty body) rest := by
  rintro ⟨m₁, hsteps₁, hpc₁, -, htaken₁, -⟩
  have hm : m.goto receivePacket = m := State.goto_self hpc
  rw [encode_eq_front, List.append_assoc, List.append_assoc, ← hm] at hf
  obtain ⟨m₂, hsteps₂, htook⟩ := type_rejected hs hne hf
  rw [hm] at hsteps₂
  have hsame := hsteps₁.unique hsteps₂ (halted_at hpc₁ hout) (halted_at rfl hout)
  have htaken₂ : taken m₁ = taken m ++ front ty body.length := by
    rw [hsame]
    exact htook.taken
  rw [htaken₁] at htaken₂
  have hl := congrArg List.length (List.append_cancel_left htaken₂)
  rw [length_encode, show (front ty body.length).length = 6 from rfl] at hl
  omega

/-- `ReceiveByte` waits for ever when nothing is left. -/
theorem receiveByte_never (hf : Feeds bus (m.goto receiveByte) [])
    (h : Steps program bus (m.goto receiveByte) m') : step program bus m' ≠ none := by
  have hround : ∀ w, ((∃ a z cy k l, fromFifo l = taken m ∧ w =
        { m with a := a, z := z, cy := cy, reads := k, ins := l }.goto receiveByte) ∧
        m.reads ≤ w.reads) → ∃ w', Steps program bus w w' ∧ ((∃ a z cy k l, fromFifo l = taken m ∧
        w' = { m with a := a, z := z, cy := cy, reads := k, ins := l }.goto receiveByte) ∧
        m.reads ≤ w'.reads) ∧ w'.reads = w.reads + 1 := by
    rintro w ⟨hw, hle⟩
    obtain ⟨w', hsteps, hw', hreads⟩ := waiting_round hw (hf.none w.reads hle)
    exact ⟨w', hsteps, ⟨hw', by omega⟩, hreads⟩
  exact Steps.never_halts hround ⟨⟨m.a, m.z, m.cy, m.reads, m.ins, rfl, rfl⟩, le_rfl⟩ h

/-- A packet without a body is taken, and then more. -/
theorem not_consumes_empty {m : State} (hpc : m.pc = receivePacket)
    (hout : program[address.toNat]? = none) (he : ty = m.e)
    (hf : Feeds bus m (encode ty [] ++ rest)) :
    ¬ Consumes bus m address stack (encode ty []) rest := by
  rintro ⟨m₁, hsteps₁, hpc₁, -, htaken₁, -⟩
  have hm : m.goto receivePacket = m := State.goto_self hpc
  rw [encode_eq_front, List.append_nil, List.append_assoc, ← hm] at hf
  -- the loop is in its fourth round when the packet is over
  obtain ⟨m₂, hsteps₂, htook₂, hbc, -, -⟩ := body_reached he (by decide) hf
  have hleft : leftInBc m₂ = 65535 := by
    rw [leftInBc, hbc]
    rfl
  have hf₂ := hf.steps hsteps₂ htook₂.taken
  obtain ⟨m₃, hsteps₃, htook₃, -⟩ := (body_loop bus).rounds (by rw [hleft]; decide) hf₂
  have hf₃ := hf₂.steps hsteps₃ htook₃.taken
  have hthere := hsteps₂.trans hsteps₃
  rw [hm] at hthere
  have htaken₃ : taken m₃ = taken m ++ encode ty [] := (htook₂.trans htook₃).taken
  have hhalt : step program bus m₁ = none := halted_at hpc₁ hout
  cases rest with
  | nil =>
    have hcall : Steps program bus (m₃.goto nextBodyByte)
        ({ m₃ with stack := (nextBodyByte + 1) :: m₃.stack }.goto receiveByte) := .call rfl .refl
    exact receiveByte_never (hf₃.onward hcall rfl) (hsteps₁.to_halted (hthere.trans hcall) hhalt) hhalt
  | cons b rest =>
    obtain ⟨m₄, hsteps₄, htook₄, -⟩ := (body_loop bus).round m₃ b rest hf₃
    have hprefix := taken_prefix (hsteps₁.to_halted (hthere.trans hsteps₄) hhalt)
    have htaken₄ : taken (m₄.goto (if leftInBc m₃ = 0 then 121 else nextBodyByte)) =
        taken m₁ ++ [b] := by
      rw [htaken₁, ← htaken₃]
      exact htook₄.taken
    have hl := hprefix.length_le
    rw [htaken₄, List.length_append, List.length_singleton] at hl
    omega

/-- **`ReceivePacket` takes exactly its packet** if it is of the type that is
    expected and has a body, and only then. -/
theorem consumes_iff {m : State} {body : List BYTE} (hpc : m.pc = receivePacket)
    (hs : m.stack = address :: stack) (hout : program[address.toNat]? = none)
    (hb : body.length ≤ 65532) (hf : Feeds bus m (encode ty body ++ rest)) :
    Consumes bus m address stack (encode ty body) rest ↔ ty = m.e ∧ body ≠ [] := by
  constructor
  · intro h
    by_cases he : ty = m.e
    · refine ⟨he, ?_⟩
      rintro rfl
      exact not_consumes_empty hpc hout he hf h
    · exact absurd h (not_consumes_type hpc hs hout hf he)
  · rintro ⟨he, h0⟩
    have hm : m.goto receivePacket = m := State.goto_self hpc
    have hf' := hf
    rw [← hm] at hf'
    by_cases hn : body.length < 4096
    · obtain ⟨m', hsteps, htook, -⟩ := packet_received hs he h0 hn hf'
      rw [hm] at hsteps
      exact .of_took hsteps htook hf
    · obtain ⟨m', hsteps, htook⟩ := size_rejected hs he (Nat.le_of_not_lt hn) hb hf'
      rw [hm] at hsteps
      exact .of_took hsteps htook hf

end

/-! ## A FIFO to try -/

/-- A FIFO that has every byte after some looks. -/
def waitingFifo (looks : ℕ) (data : List BYTE) : Bus := fun k port =>
  if port = fifoStatus then
    if looks ≤ k % (looks + 2) ∧ k / (looks + 2) < data.length then fifoDor else 0
  else data.getD (k / (looks + 2)) 0

/-- A FIFO that has every byte at the first look. -/
def readyFifo (data : List BYTE) : Bus := waitingFifo 0 data

/-- As many reads took a byte each. -/
def inStep (looks : ℕ) (m : State) : Bool := m.reads / (looks + 2) == (taken m).length

/-- A run that soon ends shows that the bytes come in. -/
theorem feeds_waitingFifo {looks : ℕ} {data : List BYTE} {m : State} (n : ℕ) (ht : taken m = [])
    (h : allSteps program (waitingFifo looks data) (inStep looks) n m = true) :
    Feeds (waitingFifo looks data) m data := by
  have dor : ∀ j, Dor (waitingFifo looks data) j ↔
      looks ≤ j % (looks + 2) ∧ j / (looks + 2) < data.length := by
    intro j
    unfold Dor waitingFifo
    rw [if_pos rfl]
    split
    next hj => exact ⟨fun _ => hj, fun _ => by decide⟩
    next hj => exact ⟨fun h => absurd rfl h, fun h => absurd h hj⟩
  intro m' before after hsteps htaken hdata
  have hreads : m'.reads / (looks + 2) = before.length := by
    have hstep : m'.reads / (looks + 2) = (taken m').length := eq_of_beq (allSteps_steps h hsteps :)
    rwa [htaken, ht, List.nil_append] at hstep
  have hl := congrArg List.length hdata
  rw [List.length_append] at hl
  cases after with
  | nil =>
    intro j hj
    rw [dor, not_and, not_lt]
    rw [List.length_nil] at hl
    intro _
    rw [hl, Nat.add_zero, ← hreads]
    exact Nat.div_le_div_right hj
  | cons b after =>
    rw [List.length_cons] at hl
    -- the last look of the round in which the byte comes
    have hlook : Dor (waitingFifo looks data) ((looks + 2) * before.length + (looks + 1)) := by
      rw [dor, Nat.mul_add_mod, Nat.mul_add_div (by omega), Nat.mod_eq_of_lt (by omega),
        Nat.div_eq_of_lt (by omega)]
      omega
    have hle : m'.reads ≤ (looks + 2) * before.length + (looks + 1) := by
      have hlt := Nat.lt_mul_div_succ m'.reads (by omega : 0 < looks + 2)
      rw [hreads, Nat.mul_succ] at hlt
      omega
    refine ⟨⟨_, hle, hlook⟩, fun _ => ?_⟩
    have hne : ¬ fifoData = fifoStatus := by decide
    rw [waitingFifo, if_neg hne, hreads, hdata, List.getD_append_right _ _ _ _ le_rfl, Nat.sub_self]
    rfl

theorem feeds_readyFifo {data : List BYTE} {m : State} (n : ℕ) (ht : taken m = [])
    (h : allSteps program (readyFifo data) (inStep 0) n m = true) : Feeds (readyFifo data) m data :=
  feeds_waitingFifo n ht h

/-- The parameters are at address 0: a buffer at 0x4000, the error at 0x5000 and
    the length at 0x5100. -/
def parameters : UInt16 → BYTE := fun w =>
  if w = 1 then 0x50 else if w = 5 then 0x51 else if w = 7 then 0x40 else 0

/-- A call with these four parameters. -/
def expecting (pc : UInt16) (ty : BYTE) : State where
  a := 4
  b := 0
  c := 0
  d := 0
  e := ty
  h := 0
  l := 0
  ix := 0
  z := false
  pc := pc
  stack := [1000]
  mem := parameters
  reads := 0
  outs := []

/-- An instance: a packet of three bytes, with the next packet behind it, and a FIFO to wait
    for. -/
theorem consumes_three :
    Consumes (waitingFifo 1 (encode 2 [7, 43, 45] ++ plusPlusPlus)) (expecting receivePacket 2) 1000 []
      (encode 2 [7, 43, 45]) plusPlusPlus := by
  have hf : Feeds (waitingFifo 1 (encode 2 [7, 43, 45] ++ plusPlusPlus)) (expecting receivePacket 2)
      (encode 2 [7, 43, 45] ++ plusPlusPlus) := feeds_waitingFifo 700 rfl (by decide +kernel)
  exact (consumes_iff rfl rfl rfl (by decide) hf).2 ⟨rfl, by decide⟩

/-- A text packet when binary data is expected: its last four bytes are left. -/
theorem packet_left :
    Feeds (readyFifo (encode 1 [7])) (expecting receivePacket 3) (encode 1 [7] ++ []) ∧
    ¬ Consumes (readyFifo (encode 1 [7])) (expecting receivePacket 3) 1000 [] (encode 1 [7]) [] := by
  have hf : Feeds (readyFifo (encode 1 [7])) (expecting receivePacket 3) (encode 1 [7] ++ []) :=
    feeds_readyFifo 400 rfl (by decide +kernel)
  exact ⟨hf, not_consumes_type rfl rfl rfl hf (by decide)⟩

end CpcLink.Mcplib
