/-
  Do the Pi and the CPC agree on a packet?

  The Pi writes a payload with `write_data_to_packet`, and the CPC calls the
  command that is for packets of this type.  The text command stores the payload.
  The two binary commands expect three parameters, and have four.
-/
import CpcLink.Proof.ReceivePacket

namespace CpcLink.Mcplib

open Z80

/-! ## A call -/

/-- The command that is for packets of this type: `|GETTXTCMDREPLY`,
    `|GETBINCMDREPLY` or `|GETBINDATA`. -/
def entry (ty : BYTE) : UInt16 :=
  if ty = textCommand then receiveTextCommandResponse
  else if ty = binaryCommand then receiveBinaryCommandResponse
  else receiveBinaryData

/-- How much of the buffer a packet is written to: the header comes in there
    first, and a zero goes behind the payload. -/
def room (n : ℕ) : ℕ := max 6 (n + 1)

/-- A call with the four parameters, `printval` 0, from a place outside the
    library.  The buffer, the two variables and the parameters are apart. -/
structure Called (m : State) (pc address : UInt16) (stack : List UInt16) (n : ℕ) : Prop where
  pc : m.pc = pc
  number : m.a = 4
  stack : m.stack = address :: stack
  back : program[address.toNat]? = none
  printval : word (m.mem (m.ix + 3)) (m.mem (m.ix + 2)) = 0
  buffer_params : Apart (receiveAddress m) (room n) m.ix 8
  buffer_length : Apart (receiveAddress m) (room n) (lengthAddress m) 2
  buffer_error : Apart (receiveAddress m) (room n) (errorAddress m) 2
  length_params : Apart (lengthAddress m) 2 m.ix 8
  length_error : Apart (lengthAddress m) 2 (errorAddress m) 2

/-- The call comes back with the payload in the buffer, its length in
    `bufferlength%` and no error in `error%`. -/
def Agrees (bus : Bus) (m : State) (address : UInt16) (stack : List UInt16) (payload : List BYTE) :
    Prop :=
  ∃ m', Steps program bus m m' ∧ m'.pc = address ∧ m'.stack = stack ∧
    bytesFrom m'.mem (receiveAddress m) payload.length = payload ∧
    wordAt m'.mem (lengthAddress m) = UInt16.ofNat payload.length ∧
    wordAt m'.mem (errorAddress m) = 0

section
variable {bus : Bus} {m : State} {address pc w : UInt16} {stack : List UInt16} {ty : BYTE} {n : ℕ}
  {payload rest : List BYTE}

/-! ## What the memory holds -/

theorem headerIn_outside (h : Outside (receiveAddress m) (room n) w) :
    (headerIn m ty n).mem w = m.mem w :=
  storeFrom_outside (h.mono (le_max_left 6 (n + 1)))

theorem lengthIn_outside (h : Outside (lengthAddress m) 2 w) (n : ℕ) :
    (lengthIn m n).mem w = m.mem w := storeFrom_outside h

theorem bodyIn_outside (h : Outside (receiveAddress m) (room payload.length) w) :
    (bodyIn m payload).mem w = m.mem w := by
  have hle : payload.length + 1 ≤ room payload.length := le_max_right 6 _
  have hne : w ≠ receiveAddress m + UInt16.ofNat payload.length := h _ hle
  refine (Function.update_of_ne hne _ _).trans (storeFrom_outside (h.mono ?_))
  exact (Nat.le_succ _).trans hle

/-- The memory after a packet that is stored. -/
def stored (m : State) (ty : BYTE) (payload : List BYTE) : State :=
  bodyIn (lengthIn (headerIn m ty payload.length) payload.length) payload

namespace Called

/-- The parameters stay as they are. -/
theorem param_header (h : Called m pc address stack n) {i : ℕ} (hi : i < 8) (ty : BYTE) :
    (headerIn m ty n).mem (m.ix + UInt16.ofNat i) = m.mem (m.ix + UInt16.ofNat i) :=
  headerIn_outside (h.buffer_params i hi)

theorem lengthAddress_header (h : Called m pc address stack n) (ty : BYTE) :
    lengthAddress (headerIn m ty n) = lengthAddress m := by
  have h4 : (headerIn m ty n).mem (m.ix + 4) = m.mem (m.ix + 4) :=
    h.param_header (i := 4) (by decide) ty
  have h5 : (headerIn m ty n).mem (m.ix + 5) = m.mem (m.ix + 5) :=
    h.param_header (i := 5) (by decide) ty
  exact congrArg₂ word h5 h4

theorem param_length (h : Called m pc address stack n) {i : ℕ} (hi : i < 8) (ty : BYTE) :
    (lengthIn (headerIn m ty n) n).mem (m.ix + UInt16.ofNat i) = m.mem (m.ix + UInt16.ofNat i) := by
  have hout : Outside (lengthAddress (headerIn m ty n)) 2 (m.ix + UInt16.ofNat i) := by
    rw [h.lengthAddress_header]
    exact h.length_params i hi
  exact (lengthIn_outside hout n).trans (h.param_header hi ty)

theorem receiveAddress_length (h : Called m pc address stack n) (ty : BYTE) :
    receiveAddress (lengthIn (headerIn m ty n) n) = receiveAddress m := by
  have h6 : (lengthIn (headerIn m ty n) n).mem (m.ix + 6) = m.mem (m.ix + 6) :=
    h.param_length (i := 6) (by decide) ty
  have h7 : (lengthIn (headerIn m ty n) n).mem (m.ix + 7) = m.mem (m.ix + 7) :=
    h.param_length (i := 7) (by decide) ty
  exact congrArg₂ word h7 h6

/-- What is neither in the buffer nor in `bufferlength%` stays. -/
theorem stored_outside (h : Called m pc address stack payload.length)
    (hbuffer : Outside (receiveAddress m) (room payload.length) w)
    (hlength : Outside (lengthAddress m) 2 w) (ty : BYTE) : (stored m ty payload).mem w = m.mem w := by
  have hbuffer' : Outside (receiveAddress (lengthIn (headerIn m ty payload.length) payload.length))
      (room payload.length) w := by rwa [h.receiveAddress_length]
  have hlength' : Outside (lengthAddress (headerIn m ty payload.length)) 2 w := by
    rwa [h.lengthAddress_header]
  exact (bodyIn_outside hbuffer').trans ((lengthIn_outside hlength' _).trans (headerIn_outside hbuffer))

theorem payload_stored (h : Called m pc address stack payload.length) (hn : payload.length < 65536)
    (ty : BYTE) :
    bytesFrom (stored m ty payload).mem (receiveAddress m) payload.length = payload := by
  have haddress : receiveAddress (lengthIn (headerIn m ty payload.length) payload.length) =
      receiveAddress m := h.receiveAddress_length ty
  rw [stored, bodyIn, haddress, bytesFrom_update _ (outside_before _ hn),
    bytesFrom_storeFrom (Nat.le_of_lt hn)]

theorem length_stored (h : Called m pc address stack payload.length) (ty : BYTE) :
    wordAt (stored m ty payload).mem (lengthAddress m) = UInt16.ofNat payload.length := by
  have hset : wordAt (lengthIn (headerIn m ty payload.length) payload.length).mem (lengthAddress m) =
      UInt16.ofNat payload.length := by
    rw [lengthIn, h.lengthAddress_header]
    exact wordAt_storeFrom _
  refine (wordAt_kept fun i hi => bodyIn_outside ?_).trans hset
  rw [h.receiveAddress_length]
  exact h.buffer_length i hi

/-- `error%` is not written to. -/
theorem error_stored (h : Called m pc address stack payload.length) (ty : BYTE) :
    wordAt (stored m ty payload).mem (errorAddress m) = wordAt m.mem (errorAddress m) :=
  wordAt_kept fun i hi => h.stored_outside (h.buffer_error i hi) (h.length_error i hi) ty

theorem printval_stored (h : Called m pc address stack payload.length) (ty : BYTE) :
    (stored m ty payload).mem (m.ix + 2) = 0 := by
  have h2 : (stored m ty payload).mem (m.ix + 2) = m.mem (m.ix + 2) :=
    h.stored_outside (h.buffer_params 2 (by decide)) (h.length_params 2 (by decide)) ty
  rw [h2]
  exact (word_eq_zero_iff.1 h.printval).1

/-! ## The commands -/

/-- `ReceiveTextCommandResponse` calls `ReceivePacket`. -/
theorem text_starts (h : Called m receiveTextCommandResponse address stack n) (bus : Bus) :
    Steps program bus m
      ({ m.compare 4 with e := textCommand, stack := 62 :: m.stack }.goto receivePacket) := by
  have hm : m.goto receiveTextCommandResponse = m := State.goto_self h.pc
  have hrun : Steps program bus (m.goto receiveTextCommandResponse)
      ({ m.compare 4 with e := textCommand, stack := 62 :: m.stack }.goto receivePacket) := by
    refine .plain rfl rfl (.jpNz_next rfl ?_ (.plain rfl rfl (.call rfl .refl)))
    simp [h.number]
  rwa [hm] at hrun

/-- It prints nothing, and is over. -/
theorem text_ends {m' : State} (h : Called m receiveTextCommandResponse address stack payload.length)
    (hs : m'.stack = address :: stack) (hix : m'.ix = m.ix)
    (hmem : m'.mem = (stored m textCommand payload).mem) (bus : Bus) : ∃ m'', Steps program bus (m'.goto 62) m'' ∧
      m''.pc = address ∧ m''.stack = stack ∧ m''.mem = (stored m textCommand payload).mem := by
  have hprint : m'.mem (m'.ix + 2) = 0 := by
    rw [hix, hmem]
    exact h.printval_stored textCommand
  refine ⟨_, .call rfl (.plain rfl rfl (.plain rfl rfl (.retNz_taken rfl ?_ rfl
    (.ret rfl hs .refl)))), rfl, rfl, hmem⟩
  simp [hprint]

/-- The payload of a text packet is stored. -/
theorem text_received (h : Called m receiveTextCommandResponse address stack payload.length)
    (h0 : payload ≠ []) (hn : payload.length < 4096)
    (hf : Feeds bus m (encode textCommand payload ++ rest)) : ∃ m', Steps program bus m m' ∧
      m'.pc = address ∧ m'.stack = stack ∧ m'.mem = (stored m textCommand payload).mem := by
  have hstart := h.text_starts bus
  obtain ⟨m₁, hsteps, htook, hmem⟩ := packet_received rfl rfl h0 hn (hf.onward hstart rfl)
  have hs₁ : { m₁ with stack := m.stack }.stack = address :: stack := h.stack
  obtain ⟨m', hends, hpc, hs, hmem'⟩ := h.text_ends hs₁ htook.ix hmem bus
  exact ⟨m', hstart.trans (hsteps.trans hends), hpc, hs, hmem'⟩

/-- The binary commands set an error. -/
theorem binary_refuses (h : Called m (entry ty) address stack n) (hne : ty ≠ textCommand)
    (bus : Bus) : ∃ m', Steps program bus m m' ∧ m'.pc = address ∧
      m'.mem = storeFrom m.mem (errorAddress m) [1, 0] := by
  have hm : m = m.goto (entry ty) := (State.goto_self h.pc).symm
  generalize hm₁ : m.compare 3 = m₁
  have hs₁ : m₁.stack = address :: stack := by
    rw [← hm₁]
    exact h.stack
  obtain ⟨m₂, hsteps, -, hmem⟩ := setError_runs bus paramError rfl rfl hs₁
  have hz : m₁.z = false := by
    rw [← hm₁, State.compare, h.number]
    rfl
  refine ⟨{ m₂ with stack := stack }.goto address, ?_, rfl, ?_⟩
  · rw [hm, entry, if_neg hne]
    split
    · exact .plain rfl rfl (.jpNz_taken rfl (by rwa [hm₁]) (by rw [hm₁]; exact hsteps))
    · exact .plain rfl rfl (.jpNz_taken rfl (by rwa [hm₁]) (by rw [hm₁]; exact hsteps))
  · refine Eq.trans hmem ?_
    rw [← hm₁]
    rfl

end Called

/-! ## Agreement -/

/-- What the memory holds when the call comes back decides. -/
theorem agrees_of_ends (hback : program[address.toNat]? = none) {m' : State}
    (hsteps : Steps program bus m m') (hpc : m'.pc = address)
    (h : Agrees bus m address stack payload) : wordAt m'.mem (errorAddress m) = 0 := by
  obtain ⟨m'', hsteps', hpc', -, -, -, herror⟩ := h
  rw [hsteps.unique hsteps' (halted_at hpc hback) (halted_at hpc' hback)]
  exact herror

/-- A text that never comes is waited for. -/
theorem Called.not_agrees_nothing (h : Called m receiveTextCommandResponse address stack n)
    (hf : Feeds bus m []) : ¬ Agrees bus m address stack payload := by
  rintro ⟨m', hsteps, hpc, -⟩
  have hhalt : step program bus m' = none := halted_at hpc h.back
  have hwaits := (h.text_starts bus).trans (.plain rfl rfl (.plain rfl rfl (.plain rfl rfl
    (.call rfl .refl))))
  exact receiveByte_never (hf.onward hwaits rfl) (hsteps.to_halted hwaits hhalt) hhalt

theorem Called.not_agrees_binary (h : Called m (entry ty) address stack n) (hne : ty ≠ textCommand) :
    ¬ Agrees bus m address stack payload := by
  intro hagrees
  obtain ⟨m', hsteps, hpc, hmem⟩ := h.binary_refuses hne bus
  have h0 := agrees_of_ends h.back hsteps hpc hagrees
  have hbytes : [(1 : BYTE), 0] = [low 1, high 1] := by
    rw [low_eq (v := 1) rfl, high_eq (v := 0) rfl]
  rw [hmem, hbytes, wordAt_storeFrom] at h0
  cases h0

theorem Called.agrees_text (h : Called m receiveTextCommandResponse address stack payload.length)
    (h0 : payload ≠ []) (hn : payload.length < 4096)
    (hf : Feeds bus m (encode textCommand payload ++ rest)) :
    Agrees bus m address stack payload ↔ wordAt m.mem (errorAddress m) = 0 := by
  obtain ⟨m', hsteps, hpc, hs, hmem⟩ := h.text_received h0 hn hf
  have herror : wordAt m'.mem (errorAddress m) = wordAt m.mem (errorAddress m) := by
    rw [hmem]
    exact h.error_stored textCommand
  rw [← herror]
  constructor
  · exact agrees_of_ends h.back hsteps hpc
  · intro he
    refine ⟨m', hsteps, hpc, hs, ?_, ?_, he⟩
    · rw [hmem]
      exact h.payload_stored (by omega) textCommand
    · rw [hmem]
      exact h.length_stored textCommand

/-- What is sent for a packet: what is to be read behind the bytes that were
    unread before. -/
def sentFor (q q' : Queue) : List BYTE := q'.unread.drop q.count

theorem sentFor_packet {q : Queue} (hq : Valid q)
    (hn : (q.count : ℤ) + payload.length + 9 < queueSize) :
    sentFor q (emit q ty payload) = encode ty payload := by
  have hu : (emit q ty payload).unread = q.unread ++ encode ty payload := (hq.emit payload hn).2
  rw [sentFor, hu, ← length_unread]
  exact List.drop_left

/-- **Pi and CPC agree** on texts, if `error%` was 0 before, and only on them.
    No one sees a packet that fills the queue of the Pi to the last cell. -/
theorem agrees_iff {q q' : Queue} (hq : Valid q) (h1 : 1 ≤ payload.length)
    (h2 : payload.length ≤ 4095) (hw : writeDataToPacket q payload ty = (true, q'))
    (h : Called m (entry ty) address stack payload.length)
    (hf : Feeds bus m (sentFor q q' ++ rest)) (hrest : q'.unread = [] → rest = []) :
    Agrees bus m address stack payload ↔ ty = textCommand ∧ wordAt m.mem (errorAddress m) = 0 ∧
      numberBytesInQueueToRead q + payload.length + 9 ≠ queueSize := by
  have hwrite : writeDataToPacket q payload ty = _ := hq.writePacket payload
  have hspace : isQueueSpaceAvailable q (payload.length + 9) = true := by
    by_contra hno
    rw [hw, if_neg hno] at hwrite
    cases congrArg Prod.fst hwrite
  obtain rfl : q' = emit q ty payload := by
    rw [hw, if_pos hspace] at hwrite
    exact congrArg Prod.snd hwrite
  have hle := ((hq.fits (by omega)).1 hspace).le
  rw [hq.numberBytes]
  by_cases hty : ty = textCommand
  swap
  · exact ⟨fun hagrees => absurd hagrees (h.not_agrees_binary hty), fun hc => absurd hc.1 hty⟩
  subst hty
  by_cases hfull : (q.count : ℤ) + payload.length + 9 = queueSize
  · have hu : (emit q textCommand payload).unread = [] := hq.unread_emit_full hfull
    rw [sentFor, hu, hrest hu, List.drop_nil, List.append_nil] at hf
    exact ⟨fun hagrees => absurd hagrees (h.not_agrees_nothing hf), fun hc => absurd hfull hc.2.2⟩
  · rw [sentFor_packet hq (by omega)] at hf
    have h0 : payload ≠ [] := List.ne_nil_of_length_pos h1
    rw [h.agrees_text h0 (by omega) hf]
    exact ⟨fun he => ⟨rfl, he, hfull⟩, fun hc => hc.2.1⟩

end

theorem expecting_called (pc : UInt16) (ty : BYTE) : Called (expecting pc ty) pc 1000 [] 2 := by
  have hbuffer : receiveAddress (expecting pc ty) = 0x4000 :=
    word_eq (show (parameters (0 + 7)).toNat * 256 + (parameters (0 + 6)).toNat = _ by decide)
  have hlength : lengthAddress (expecting pc ty) = 0x5100 :=
    word_eq (show (parameters (0 + 5)).toNat * 256 + (parameters (0 + 4)).toNat = _ by decide)
  have herror : errorAddress (expecting pc ty) = 0x5000 :=
    word_eq (show (parameters (0 + 1)).toNat * 256 + (parameters (0 + 0)).toNat = _ by decide)
  have hprint : word (parameters (0 + 3)) (parameters (0 + 2)) = 0 := word_eq (by decide)
  have hix : (expecting pc ty).ix = 0 := rfl
  refine ⟨rfl, rfl, rfl, rfl, hprint, ?_, ?_, ?_, ?_, ?_⟩
  · rw [hbuffer, hix]
    decide +kernel
  · rw [hbuffer, hlength]
    decide +kernel
  · rw [hbuffer, herror]
    decide +kernel
  · rw [hlength, hix]
    decide +kernel
  · rw [hlength, herror]
    decide +kernel

/-- A queue without a packet. -/
def noPacket : Queue := ⟨fun _ => 0, 0, 0⟩

theorem noPacket_valid : Valid noPacket :=
  ⟨⟨⟨by decide, by decide⟩, by decide, by decide⟩, by decide⟩

/-- An instance: a text of two bytes, with the next packet behind it. -/
theorem agrees_two : Agrees (readyFifo (encode textCommand [79, 75] ++ plusPlusPlus))
    (expecting receiveTextCommandResponse 0) 1000 [] [79, 75] := by
  have hw : writeDataToPacket noPacket [79, 75] textCommand =
      (true, (writeDataToPacket noPacket [79, 75] textCommand).2) := Prod.ext (by decide) rfl
  have hsent : sentFor noPacket (writeDataToPacket noPacket [79, 75] textCommand).2 =
      encode textCommand [79, 75] := by decide +kernel
  have hf : Feeds (readyFifo (encode textCommand [79, 75] ++ plusPlusPlus))
      (expecting receiveTextCommandResponse 0)
      (sentFor noPacket (writeDataToPacket noPacket [79, 75] textCommand).2 ++ plusPlusPlus) := by
    rw [hsent]
    exact feeds_readyFifo 500 rfl (by decide +kernel)
  have hunread : (writeDataToPacket noPacket [79, 75] textCommand).2.unread ≠ [] := by decide +kernel
  have hcalled : Called (expecting receiveTextCommandResponse 0) (entry textCommand) 1000 [] 2 :=
    expecting_called _ _
  exact (agrees_iff noPacket_valid (by decide) (by decide) hw hcalled hf
    fun he => absurd he hunread).2 ⟨rfl, by decide +kernel, by decide +kernel⟩

/-- Binary data is refused: `error%`, which was 0, is 1. -/
theorem binary_disagrees :
    (writeDataToPacket noPacket [79, 75] binaryData).1 = true ∧
    Feeds (readyFifo (encode binaryData [79, 75])) (expecting receiveBinaryData 0)
      (sentFor noPacket (writeDataToPacket noPacket [79, 75] binaryData).2) ∧
    Called (expecting receiveBinaryData 0) (entry binaryData) 1000 [] 2 ∧
    wordAt parameters 0x5000 = 0 ∧
    ¬ Agrees (readyFifo (encode binaryData [79, 75])) (expecting receiveBinaryData 0) 1000 []
      [79, 75] := by
  have hsent : sentFor noPacket (writeDataToPacket noPacket [79, 75] binaryData).2 =
      encode binaryData [79, 75] := by decide +kernel
  have hcalled : Called (expecting receiveBinaryData 0) (entry binaryData) 1000 [] 2 :=
    expecting_called _ _
  refine ⟨by decide, ?_, hcalled, by decide +kernel, hcalled.not_agrees_binary (by decide)⟩
  rw [hsent]
  exact feeds_readyFifo 500 rfl (by decide +kernel)

end CpcLink.Mcplib
