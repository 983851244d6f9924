/-
  One answer for each memory request.

  Every exit of the memory commands answers with a packet that starts with the
  command's id but one: data that is too short is taken without an answer.
-/
import CpcLink.Proof.InStep
import CpcLink.Proof.Progress

namespace CpcLink

/-- The answer to a memory command is one packet; a page goes out behind it. -/
def Answered (c : Command) (q : Queue) : Prop :=
  (∃ a, q.unread = encode binaryCommand (byte c :: a)) ∨
    (c = retrieveAlloc ∧ ∃ a page,
      q.unread = encode binaryCommand (byte c :: (a ++ [0])) ++ encode binaryData page)

/-- The data packet is shorter than what an accepted request wants. -/
def TooShort (env : Env) (fn : CommandFunction) (s : Server) (data : List BYTE) : Prop :=
  takesData fn = true ∧ ¬ DataRejected env fn s ∧ (data.length : ℤ) < dataWant fn s

section
variable {env : Env} {s : Server} {q : Queue} {c : Command}

/-! ## An empty out queue -/

theorem Valid.fits_empty (hv : Valid q) (h0 : numberBytesInQueueToRead q = 0) {n : ℤ}
    (hn : n < queueSize) : Fits q n := by
  rw [hv.numberBytes] at h0
  exact .inl ⟨by omega, hn⟩

theorem Valid.unread_empty (hv : Valid q) (h0 : numberBytesInQueueToRead q = 0) : q.unread = [] := by
  rw [hv.numberBytes] at h0
  exact unread_eq_nil.2 (by omega)

theorem sendPackets_empty (hv : Valid q) (h0 : numberBytesInQueueToRead q = 0)
    (packets : List (PacketType × List BYTE))
    (hn : ((encodePackets packets).length : ℤ) < queueSize) :
    (sendPackets q packets).unread = encodePackets packets := by
  have hu := hv.unread_empty h0
  have hc : q.count = 0 := by rw [← length_unread, hu]; rfl
  rw [(sendPackets_unread packets hv (by rw [hc]; omega)).2, hu, List.nil_append]

/-- The answer of a command without data. -/
theorem AnswersWith.answered {fn : CommandFunction} {run : Server → Except Fault (Bool × Server)}
    (hv : Valid s.outQueue) (h0 : numberBytesInQueueToRead s.outQueue = 0)
    (ha : AnswersWith fn c s run) {r : Bool × Server} (hr : run s = .ok r) :
    r.1 = true ∧ Answered c r.2.outQueue := by
  obtain ⟨a, hl, hrun⟩ := ha
  obtain ⟨-, hdone, hout⟩ := hrun s.outQueue r hr
  refine ⟨hdone, .inl ⟨a, ?_⟩⟩
  rw [hout hv (hv.fits_empty h0 (by decide)), sendPackets_empty hv h0 _ (by
    rw [show queueSize = 131070 from rfl]; simp [encodePackets]; omega)]
  simp [encodePackets]

theorem retrieveAlloc_answered (h : InRange s.inQueue) (hm : StoreValid s.memstore)
    (hv : Valid s.outQueue) (h0 : numberBytesInQueueToRead s.outQueue = 0) {r : Bool × Server}
    (hr : commandRetrieveAlloc s = .ok r) : r.1 = true ∧ Answered retrieveAlloc r.2.outQueue := by
  have hQ : queueSize = 131070 := rfl
  rcases retrieveAlloc_spec h hm with ⟨a, ha, hrun⟩ | ⟨a, page, ha, hl, -, hrun⟩
  · obtain ⟨-, hdone, hout⟩ := hrun s.outQueue r hr
    refine ⟨hdone, .inl ⟨a ++ [1], ?_⟩⟩
    rw [hout hv (hv.fits_empty h0 (by decide)), sendPackets_empty hv h0 _ (by
      simp [encodePackets]; omega)]
    simp [encodePackets]
  · obtain ⟨-, ⟨hsp, -⟩ | ⟨-, hdone, hout⟩⟩ := hrun s.outQueue r hr
    · rw [space_of_empty hv h0 (by omega) (by omega)] at hsp; cases hsp
    · refine ⟨hdone, .inr ⟨rfl, a, page, ?_⟩⟩
      rw [hout hv (hv.fits_empty h0 (by decide)), sendPackets_empty hv h0 _ (by
        simp [encodePackets]; omega)]
      simp [encodePackets]

/-- The answer of `SALLOC` and `IALLOC`, if there is one. -/
theorem answerData_answered {fn : CommandFunction} (hv : Valid s.outQueue)
    (h0 : numberBytesInQueueToRead s.outQueue = 0) (allocationId errorId : ℤ) :
    Answered (dataCommand fn) (answerData fn s allocationId errorId) := by
  have hl : (dataAnswer fn s.inQueue allocationId errorId).length ≤ 4 := by
    unfold dataAnswer; split <;> simp
  have hf : Fits s.outQueue
      ((byte (dataCommand fn) :: dataAnswer fn s.inQueue allocationId errorId).length + 9) :=
    hv.fits_empty h0 (by rw [show queueSize = 131070 from rfl]; simp; omega)
  have hu := hv.unread_empty h0
  refine .inl ⟨dataAnswer fn s.inQueue allocationId errorId, ?_⟩
  rw [answerData, buildResponse_eq hv hf, (hv.emit _ ?_).2, hu, List.nil_append]
  rw [← length_unread, hu]
  simp only [List.length_nil, List.length_cons, show queueSize = 131070 from rfl]
  push_cast; omega

/-- The commands without data always answer. -/
theorem memory_answered (h : InRange s.inQueue) (hm : StoreValid s.memstore) (hv : Valid s.outQueue)
    (h0 : numberBytesInQueueToRead s.outQueue = 0) (hc : createAlloc ≤ c ∧ c ≤ saveAlloc)
    (hd : takesData (functionOf c) = false) {tick : ℤ} {r : Bool × Server}
    (hr : callFunction env s tick (functionOf c) = .ok r) : r.1 = true ∧ Answered c r.2.outQueue := by
  obtain ⟨h1, h2⟩ := hc
  simp only [createAlloc, saveAlloc] at h1 h2
  interval_cases c
  · exact (createAlloc_answers env h).answered hv h0 hr
  · exact freeAlloc_answers.answered hv h0 hr
  · exact retrieveAlloc_answered h hm hv h0 hr
  · cases hd
  · cases hd
  · exact (cutAlloc_answers h).answered hv h0 hr
  · exact (loadAlloc_answers env h).answered hv h0 hr
  · exact (saveAlloc_answers env h).answered hv h0 hr

theorem request_binary {body rest : List BYTE} (hc : c < 256)
    (hp : AtPacket q binaryCommand (byte c :: body) rest) : request q = some (c, 7) := by
  have ht := hp.packetType
  have hpeek := peek_body hp (k := 0) (by simp)
  simp only [Nat.add_zero, List.getElem_cons_zero] at hpeek
  rw [request, if_neg (by rw [ht]; decide), if_pos ht, hpeek, toNat_byte, Nat.mod_eq_of_lt hc]

/-- The parameters of `SALLOC` and `IALLOC` fill the packet. -/
def ParamsFit (c : Command) (params : List BYTE) : Prop :=
  params.length = if c = storeAlloc then 3 else 9

theorem not_answered {q : Queue} (hu : q.unread = []) : ¬ Answered c q := by
  rintro (⟨a, he⟩ | ⟨-, a, page, he⟩)
  · rw [hu] at he; simp [encode, plusPlusPlus] at he
  · rw [hu] at he; simp [encode, plusPlusPlus] at he

/-- The size of the data packet decides which exit is taken. -/
theorem readData_iff (h : InRange s.inQueue) {fn : CommandFunction} {data rest : List BYTE}
    (hp : AtPacket (atData fn s.inQueue) binaryData data rest) :
    (readData fn s).1 = true ↔ dataWant fn s ≤ data.length := by
  have hsize : getPacketSize (atData fn s.inQueue) - frontPacketOverhead = data.length := hp.bodySize
  constructor
  · intro hd
    have hlong := (readData_long (h.atData fn) hd).1
    rwa [hsize] at hlong
  · intro hle
    by_contra hd
    have hlt := readData_short_lt (Bool.eq_false_iff.2 hd)
    omega

/-- With a complete data packet every exit is processed, and all answer but the
    one for data that is too short. -/
theorem DataStep.answered_iff (h : InRange s.inQueue) (hv : Valid s.outQueue)
    (h0 : numberBytesInQueueToRead s.outQueue = 0) {fn : CommandFunction} (hfn : takesData fn = true)
    {data rest : List BYTE} (ht : (isCompletePacketAvailable (behind fn s.inQueue)).1 = true)
    (hp : AtPacket (atData fn s.inQueue) binaryData data rest) {r : Bool × Server}
    (hs : DataStep env fn s r) :
    r.1 = true ∧ (Answered (dataCommand fn) r.2.outQueue ↔ ¬ TooShort env fn s data) := by
  have hread := readData_iff h hp
  cases hs with
  | rejected errorId hrej =>
    refine ⟨rfl, fun _ hshort => hshort.2.1 hrej, fun _ => ?_⟩
    exact answerData_answered hv h0 0 errorId
  | incomplete hrej hf => rw [hf] at ht; cases ht
  | short hrej _ hd =>
    refine ⟨rfl, fun ha => absurd ha (not_answered (hv.unread_empty h0)), fun hshort => ?_⟩
    have hlt : (data.length : ℤ) < dataWant fn s := by
      rw [← not_le, ← hread, hd]; exact Bool.false_ne_true
    exact absurd ⟨hfn, hrej, hlt⟩ hshort
  | stored allocationId errorId w hrej _ hd hw =>
    refine ⟨rfl, fun _ hshort => ?_, fun _ => answerData_answered hv h0 allocationId errorId⟩
    exact absurd (hread.1 hd) (not_le.2 hshort.2.2)

/-- A command without data that was processed has answered. -/
theorem plain_answered (h : InRange s.inQueue) (hm : StoreValid s.memstore) (hv : Valid s.outQueue)
    (h0 : numberBytesInQueueToRead s.outQueue = 0) (hc : createAlloc ≤ c ∧ c ≤ saveAlloc)
    (hp : ∃ ty body rest, AtPacket s.inQueue ty body rest) {k : ℕ}
    (hr : request s.inQueue = some (c, k)) (hd : takesData (functionOf c) = false) {s' : Server}
    (hs : dispatch env s = .ok (.processed, s')) : Answered c s'.outQueue := by
  have hcall : ∀ {r}, callFunction env (atParams s k) 0 (functionOf c) = .ok r →
      r.1 = true ∧ Answered c r.2.outQueue :=
    fun hrun => memory_answered (s := atParams s k) (h.inc k) hm hv h0 hc hd hrun
  cases dispatch_step h hp hs with
  | complete hr' hR hsp hrun =>
    cases hr.symm.trans hr'
    exact (hcall hrun).2
  | scheduled hr' hR hsp hret hrun hsched =>
    cases hr.symm.trans hr'
    cases (hcall hrun).1

/-- **One answer for each memory request.**  With nothing else to send, a memory
    command that was processed has answered once, unless its data was too short. -/
theorem one_answer_iff (h : InRange s.inQueue) (hm : StoreValid s.memstore) (hv : Valid s.outQueue)
    (h0 : numberBytesInQueueToRead s.outQueue = 0) (hc : createAlloc ≤ c ∧ c ≤ saveAlloc)
    {params following data : List BYTE}
    (hp : AtPacket s.inQueue binaryCommand (byte c :: params) following)
    (hfollow : takesData (functionOf c) = true → ParamsFit c params ∧ data.length ≤ 65532 ∧
      ∃ rest, following = encode binaryData data ++ rest) :
    (∀ s', dispatch env s = .ok (.processed, s') → Answered c s'.outQueue) ↔
      ¬ TooShort env (functionOf c) (atParams s 7) data := by
  have hr : request s.inQueue = some (c, 7) :=
    request_binary (lt_of_le_of_lt hc.2 (by decide)) hp
  by_cases hd : takesData (functionOf c) = true
  swap
  · constructor
    · rintro _ ⟨hdata, -⟩
      exact hd hdata
    · intro _ s' hs
      exact plain_answered h hm hv h0 hc ⟨_, _, _, hp⟩ hr (Bool.eq_false_iff.2 hd) hs
  obtain ⟨hfit, hl, rest, rfl⟩ := hfollow hd
  obtain ⟨hcmd, hfull⟩ : dataCommand (functionOf c) = c ∧
      paramsEnd s.inQueue c 7 = (byte c :: params).length + 6 := by
    rw [List.length_cons, hfit, paramsEnd]
    rcases data_command hd with rfl | rfl <;> exact ⟨rfl, rfl⟩
  -- the packet behind the parameters is the data packet
  have hparams : InRange (atParams s 7).inQueue := h.inc (7 : ℕ)
  obtain ⟨ht, hat⟩ : (isCompletePacketAvailable (behind (functionOf c) (atParams s 7).inQueue)).1 =
      true ∧ AtPacket (atData (functionOf c) (atParams s 7).inQueue) binaryData data rest := by
    refine atData_packet (hparams.behind _) (by decide) hl ?_
    rw [show (atParams s 7).inQueue = incrementReadNextIndex s.inQueue (7 : ℕ) from rfl,
      hp.behind_full h hfull, resync_encode]
  have hsp : isQueueSpaceAvailable s.outQueue 30 = true := space_of_empty hv h0 (by decide) (by decide)
  rw [dispatch_data h ⟨_, _, _, hp⟩ hr hd hsp]
  rcases data_spec hparams hd 0 with ⟨⟨done, s₁⟩, hcall, hstep⟩ | ⟨hfault, e, hcall⟩
  · obtain ⟨hdone, ha⟩ := hstep.answered_iff hparams hv h0 hd ht hat
    cases hdone
    rw [hcmd] at ha
    rw [hcall, ← ha]
    constructor
    · intro hall
      exact hall (skipEnd s₁) rfl
    · rintro ha s' ⟨⟩
      exact ha
  · -- a fault is no answer, and the data was not too short
    rw [hcall]
    constructor
    · rintro _ ⟨-, -, hlt⟩
      exact absurd ((readData_iff hparams hat).1 hfault.2.2.1) (not_le.2 hlt)
    · rintro _ s' ⟨⟩

end

/-- An instance: an insertion with its data packet is answered. -/
theorem one_answer_insert : ∃ s',
    dispatch calmEnv (withPage (serverOf insertingDelimiters)) = .ok (.processed, s') ∧
      Answered insertAlloc s'.outQueue := by
  have hin : Valid (queueOf insertingDelimiters) := queueOf_valid (by decide)
  have hout : Valid (queueOf []) := queueOf_valid (by decide)
  have hp : AtPacket (queueOf insertingDelimiters) binaryCommand
      (byte insertAlloc :: [1, 0, 0, 2, 0, 0, 0, 6, 0])
      (encode binaryData (plusPlusPlus ++ minusMinusMinus) ++ encode binaryCommand [1]) :=
    atPacket_queueOf (by decide) (by decide) (by decide)
  obtain ⟨s', hs⟩ : ∃ s', dispatch calmEnv (withPage (serverOf insertingDelimiters)) =
      .ok (.processed, s') := by
    have hrun : (dispatch calmEnv (withPage (serverOf insertingDelimiters))).toOption.map Prod.fst =
      some .processed := by decide +kernel
    cases hd : dispatch calmEnv (withPage (serverOf insertingDelimiters)) with
    | error => rw [hd] at hrun; cases hrun
    | ok r =>
      rw [hd] at hrun
      obtain ⟨o, s'⟩ := r
      cases hrun
      exact ⟨s', rfl⟩
  have hshort : ¬ TooShort calmEnv (functionOf insertAlloc)
      (atParams (withPage (serverOf insertingDelimiters)) 7) (plusPlusPlus ++ minusMinusMinus) :=
    fun ht => absurd ht.2.2 (by decide)
  exact ⟨s', hs, (one_answer_iff (s := withPage (serverOf insertingDelimiters)) hin.toInRange
    (withPage_store _ (serverOf_store _)) hout (by decide) (by decide) hp
    fun _ => ⟨rfl, by decide, _, rfl⟩).2 hshort s' hs⟩

/-- One byte for a page of 1024: the request is processed, and nothing is sent. -/
theorem one_answer_short : ∃ s',
    dispatch calmEnv (withPage (serverOf (encode binaryCommand [24, 1, 0, 0] ++
      encode binaryData [7]))) = .ok (.processed, s') ∧ ¬ Answered storeAlloc s'.outQueue := by
  refine ⟨_, rfl, ?_⟩
  have hu : (queueOf []).unread = [] := queueOf_unread (by decide)
  rintro (⟨a, he⟩ | ⟨hc, -⟩)
  · rw [show Server.outQueue _ = queueOf [] from rfl, hu] at he
    simp [encode, plusPlusPlus] at he
  · cases hc

end CpcLink
