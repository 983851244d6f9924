/-
  Does a dispatch get past the packet it found?

  A data packet in the wrong place is left where it is, and so is a `SALLOC` or
  `IALLOC` whose receive lock is not positive, or whose search for a data packet
  comes round the ring to the command itself.  `progress_iff`: everything else
  gets past.
-/
import CpcLink.Proof.Containment

namespace CpcLink

/-- The same packet is not simply found again: the read index is not at the
    packet, or the receive lock waits for more bytes, or the in queue was emptied. -/
def Advanced (s s' : Server) : Prop :=
  s'.inQueue.readNextByte ≠ (polled s).inQueue.readNextByte ∨ 0 < s'.binaryDataReceiveMode ∨
    numberBytesInQueueToRead s'.inQueue = 0

/-- `SALLOC` and `IALLOC` get past their packet.  `s` is at the parameters, `k`
    bytes behind the start of the packet at the head of `q`. -/
def DataAdvances (env : Env) (q : Queue) (c : Command) (k : ℕ) (s : Server) : Prop :=
  let fn := functionOf c
  let place := nextPlace q (behindPlace q c k)
  (DataRejected env fn s → ¬ ComesRound q (nextPlace q (behindPlace q c k + 1))) ∧
  (¬ DataRejected env fn s → (isCompletePacketAvailable (behind fn s.inQueue)).1 = false →
    0 < wrap32 (dataWant fn s + packetOverhead - numberBytesInQueueToRead (atData fn s.inQueue))) ∧
  (¬ DataRejected env fn s → (isCompletePacketAvailable (behind fn s.inQueue)).1 = true →
    (if dataWant fn s ≤ getPacketSize (atData fn s.inQueue) - frontPacketOverhead then
      ¬ ComesRound q (skipPlace q (place + 6 + (dataWant fn s).toNat))
    else ¬ ComesRound q place))

/-- The packet at the head is a text command, or a binary command, and if it is
    one that takes data it gets past. -/
def CanAdvance (env : Env) (s : Server) : Prop :=
  match request s.inQueue with
  | some (c, k) => takesData (functionOf c) = true →
      DataAdvances env s.inQueue c k (atParams s k)
  | none => getPacketType s.inQueue = textCommand

section
variable {env : Env} {s s' : Server}

/-- A command that moves the read index to a place and sets no lock. -/
theorem advanced_place (h : InRange (polled s).inQueue) (hc : 0 < (polled s).inQueue.count) {n : ℕ}
    (h0 : 0 < n) (hn : (n : ℤ) < 2 * queueSize)
    (hin : s'.inQueue = incrementReadNextIndex (polled s).inQueue n)
    (hrecv : s'.binaryDataReceiveMode = 0) :
    Advanced s s' ↔ ¬ ComesRound (polled s).inQueue n := by
  unfold Advanced
  rw [hrecv, hin, ne_eq, h.place_eq h0 hn]
  constructor
  · rintro (ha | ha | ha)
    · exact ha
    · omega
    · intro hcr
      have he : incrementReadNextIndex (polled s).inQueue n = (polled s).inQueue :=
        congrArg (fun r => { (polled s).inQueue with readNextByte := r }) ((h.place_eq h0 hn).2 hcr)
      rw [he, h.numberBytes] at ha; omega
  · intro ha
    exact .inl ha

/-- A dispatch that leaves the read index and the lock where they are. -/
theorem not_advanced (h : InRange (polled s).inQueue) (hc : 0 < (polled s).inQueue.count)
    (hin : s'.inQueue = (polled s).inQueue) (hrecv : s'.binaryDataReceiveMode ≤ 0) :
    ¬ Advanced s s' := by
  have hn := h.numberBytes
  unfold Advanced
  rw [hin]
  rintro (ha | ha | ha)
  · exact ha rfl
  · omega
  · omega

/-- A place less than a round away is not the packet. -/
theorem not_comesRound_of_lt {q : Queue} {n : ℕ} (hn : (n : ℤ) < queueSize) : ¬ ComesRound q n :=
  fun hc => by have := hc.1; omega

/-- Into an empty out queue every answer fits. -/
theorem space_of_empty {q : Queue} (hv : Valid q) (h0 : numberBytesInQueueToRead q = 0) {n : ℤ}
    (hn : 0 < n) (hnQ : n < queueSize) : isQueueSpaceAvailable q n = true := by
  rw [hv.numberBytes] at h0
  exact (hv.space hn).2 (.inl ⟨by omega, hnQ⟩)

/-- A page and a shell result fit into an empty out queue, so they are not sent
    later. -/
theorem not_retried {fn : CommandFunction} (h : InRange s.inQueue) (hm : StoreValid s.memstore)
    (hv : Valid s.outQueue) (h0 : numberBytesInQueueToRead s.outQueue = 0)
    (hd : takesData fn = false) (hret : retried fn = true) {tick : ℤ} :
    callFunction env s tick fn ≠ .ok (false, s') := by
  intro hcall
  have hQ : queueSize = 131070 := rfl
  rcases function_kinds fn with hone | hdata | rfl | rfl | rfl
  · rw [not_retried_of_onePacket hone] at hret; cases hret
  · rw [hd] at hdata; cases hdata
  · cases hret
  · rcases retrieveAlloc_spec h hm with ⟨_, _, hrun⟩ | ⟨_, page, _, hl, _, hrun⟩
    · obtain ⟨-, hdone, -⟩ := hrun s.outQueue _ hcall
      cases hdone
    · obtain ⟨-, ⟨hsp, -⟩ | ⟨-, hdone, -⟩⟩ := hrun s.outQueue _ hcall
      · rw [space_of_empty hv h0 (by omega) (by omega)] at hsp; cases hsp
      · cases hdone
  · rcases shellexec_spec env h with ⟨-, -, hrun⟩ | ⟨-, result, _, hl, -, hrun⟩
    · have hdone := hrun s.outQueue _ hcall
      cases hdone
    · obtain ⟨-, ⟨hsp, -⟩ | ⟨-, hdone, -⟩⟩ := hrun s.outQueue _ hcall
      · rw [space_of_empty hv h0 (by omega) (by omega)] at hsp; cases hsp
      · cases hdone

/-- With a data packet it is the end of the reading that counts. -/
theorem dataAdvances_accepted {q : Queue} {c : Command} {k : ℕ}
    (hrej : ¬ DataRejected env (functionOf c) s)
    (ht : (isCompletePacketAvailable (behind (functionOf c) s.inQueue)).1 = true) :
    DataAdvances env q c k s ↔
      if dataWant (functionOf c) s ≤
          getPacketSize (atData (functionOf c) s.inQueue) - frontPacketOverhead then
        ¬ ComesRound q (skipPlace q (nextPlace q (behindPlace q c k) + 6 +
          (dataWant (functionOf c) s).toNat))
      else ¬ ComesRound q (nextPlace q (behindPlace q c k)) := by
  constructor
  · intro ha
    exact ha.2.2 hrej ht
  · intro ha
    refine ⟨fun hr => absurd hr hrej, fun _ hf => ?_, fun _ _ => ha⟩
    rw [ht] at hf; cases hf

theorem getPacketSize_le (q : Queue) : getPacketSize q ≤ 65535 := by
  have h3 := (queueReadAheadByte q 3).toNat_lt
  have h4 := (queueReadAheadByte q 4).toNat_lt
  unfold getPacketSize; omega

/-- The exits of `SALLOC` and `IALLOC`. -/
theorem data_advances (h : InRange (polled s).inQueue) (hc : 0 < (polled s).inQueue.count)
    (hu : s.binaryDataReceiveMode = 0) {c : Command} {k : ℕ} (hk : 1 ≤ k) (hk' : k ≤ 36)
    (hd : takesData (functionOf c) = true) {r : Bool × Server}
    (hs : DataStep env (functionOf c) (atParams (polled s) k) r)
    (hin : s'.inQueue = if r.1 then queueSkipTerminatorOfPacket r.2.inQueue
      else { r.2.inQueue with readNextByte := (polled s).inQueue.readNextByte })
    (hrecv : s'.binaryDataReceiveMode = r.2.binaryDataReceiveMode) :
    Advanced s s' ↔ DataAdvances env (polled s).inQueue c k (atParams (polled s) k) := by
  have hQ : queueSize = 131070 := rfl
  have hb := h.behind_place c k
  have hlen := dataParams_le hd (incrementReadNextIndex (polled s).inQueue k)
  have hplace : 4 ≤ behindPlace (polled s).inQueue c k ∧ behindPlace (polled s).inQueue c k ≤ 48 := by
    have := skipPlace_le (polled s).inQueue (paramsEnd (polled s).inQueue c k)
    unfold behindPlace paramsEnd at *; omega
  have hnext := h.nextPlace_le (behindPlace (polled s).inQueue c k)
  cases hs with
  | rejected errorId hrej =>
    simp only [if_true, rejectData, atParams, hb] at hin
    rw [show (1 : ℤ) = ((1 : ℕ) : ℤ) from rfl, h.inc_nat, h.next_place, h.skip_place, h.skip_next] at hin
    have hnext := h.nextPlace_le (behindPlace (polled s).inQueue c k + 1)
    rw [advanced_place h hc (by omega) (by omega) hin (hrecv.trans hu)]
    constructor
    · intro ha
      exact ⟨fun _ => ha, fun hn => absurd hrej hn, fun hn => absurd hrej hn⟩
    · intro ha
      exact ha.1 hrej
  | incomplete hrej hf =>
    have hframe := isComplete_frame (h.inc (behindPlace (polled s).inQueue c k))
    have he : s'.inQueue = (polled s).inQueue := by
      simp only [Bool.false_eq_true, if_false, awaitData, atData, atParams, hb] at hin
      rw [hin, hframe.1, hframe.2]; rfl
    constructor
    · intro ha
      refine ⟨fun hr => absurd hr hrej, fun _ _ => ?_, fun _ ht => ?_⟩
      · by_contra hlock
        exact not_advanced h hc he (hrecv.le.trans (not_lt.1 hlock)) ha
      · rw [hf] at ht; cases ht
    · intro ha
      exact .inr (.inl (hrecv ▸ ha.2.1 hrej hf))
  | short hrej ht hd =>
    have hlt := readData_short_lt hd
    have hat : atData (functionOf c) (atParams (polled s) k).inQueue = _ := h.atData_place ht
    simp only [if_true, hat] at hin
    rw [h.skip_place, h.skip_next] at hin
    rw [advanced_place h hc (by omega) (by omega) hin (hrecv.trans hu),
      dataAdvances_accepted hrej ht, if_neg (by omega)]
  | stored allocationId errorId w hrej ht hd hw =>
    have hat : atData (functionOf c) (atParams (polled s) k).inQueue = _ := h.atData_place ht
    have hdata : InRange (atData (functionOf c) (atParams (polled s) k).inQueue) := by
      rw [hat]; exact h.inc _
    obtain ⟨hle, hq⟩ := readData_long hdata hd
    have hsize := getPacketSize_le (atData (functionOf c) (atParams (polled s) k).inQueue)
    simp only [if_true] at hin
    rw [hq, hat, h.inc_nat, ← Nat.add_assoc, h.skip_place] at hin
    have hskip := skipPlace_le (polled s).inQueue (nextPlace (polled s).inQueue
      (behindPlace (polled s).inQueue c k) + 6 + (dataWant (functionOf c) (atParams (polled s) k)).toNat)
    have hle' : dataWant (functionOf c) (atParams (polled s) k) ≤
        getPacketSize (atData (functionOf c) (atParams (polled s) k).inQueue) - 3 := hle
    rw [advanced_place h hc (by omega) (by omega) hin (hrecv.trans hu),
      dataAdvances_accepted hrej ht, if_pos hle]

/-- A text without a name is passed. -/
theorem badText_moves {q : Queue} {ty : PacketType} {body rest : List BYTE} (h : InRange q)
    (hp : AtPacket q ty body rest) (hbad : (getCommandText q).1 = false) :
    (queueSkipTerminatorOfPacket (getCommandText q).2.2).readNextByte ≠ q.readNextByte := by
  have hQ : queueSize = 131070 := rfl
  rcases getCommandText_cases h hp with ⟨hgood, -⟩ | ⟨-, -, hq⟩ | ⟨-, hs, hq⟩
  · rw [hgood] at hbad; cases hbad
  · have hle : 6 ≤ badTextLength body ∧ badTextLength body ≤ 65545 := by
      have := hp.2.1
      unfold badTextLength; split_ifs <;> omega
    have hskip := skipPlace_le q (badTextLength body)
    rw [hq, h.skip_place, ne_eq, h.place_eq (by omega) (by omega)]
    exact not_comesRound_of_lt (by omega)
  · -- below the array the terminator is stepped over, or not
    have hr := hs.2.2
    rw [hq, queueSkipTerminatorOfPacket]
    split
    · exact fun he => by have : (-1 : ℤ) = q.readNextByte := he; omega
    · split
      · have h2 : (-1 + 3 : ℤ).tmod queueSize = 2 := by rw [hQ]; decide
        exact fun he => by have : (-1 + 3 : ℤ).tmod queueSize = q.readNextByte := he; omega
      · exact fun he => by have : (-1 : ℤ) = q.readNextByte := he; omega

/-- A command without data that was processed is passed. -/
theorem plain_advances (h : InRange (polled s).inQueue) (hm : StoreValid s.memstore)
    {ty : PacketType} {body rest : List BYTE} (hp : AtPacket (polled s).inQueue ty body rest)
    (hs : DispatchStep env (polled s) .processed s') {c : Command} {k : ℕ}
    (hr : request (polled s).inQueue = some (c, k)) (hspecial : ¬ Special c) :
    Advanced s s' ↔ CanAdvance env (polled s) := by
  have hQ : queueSize = 131070 := rfl
  obtain ⟨c', k', hr', hlt, hin⟩ := DispatchStep.plain h hm hs
  cases hr.symm.trans hr'
  have hle := paramsEnd_le h hp hr hlt
  have hskip := skipPlace_le (polled s).inQueue (paramsEnd (polled s).inQueue c k)
  have hin := hin hspecial
  rw [h.skip_place] at hin
  rw [CanAdvance, hr]
  constructor
  · intro _ hd
    exact absurd (.inl hd) hspecial
  · intro _
    refine .inl ?_
    rw [hin, ne_eq, h.place_eq (by omega) (by omega)]
    exact not_comesRound_of_lt (by omega)

/-- A reset leaves nothing to read. -/
theorem reset_advances (s : Server) : Advanced s (skipEnd (commandReset s').2) := by
  have hv := valid_initQueue s'.inQueue
  have hu : (initQueue s'.inQueue).unread = [] := unread_eq_nil.2 (count_initQueue _)
  refine .inr (.inr ?_)
  rw [skipEnd, (reset_spec _).2.1, skipTerminator_eq hv.toInRange, hu, if_neg (by decide),
    hv.numberBytes, count_initQueue]
  rfl

/-- **Does a dispatch get past the packet it found?**  With nothing to send and
    no transfer under way it does exactly if the packet `CanAdvance`. -/
theorem progress_iff (h : InRange s.inQueue) (hm : StoreValid s.memstore) (hv : Valid s.outQueue)
    (hout : numberBytesInQueueToRead s.outQueue = 0) (hu : Unlocked s)
    (hfound : (isCompletePacketAvailable s.inQueue).1 = true)
    (hrun : pollAndDispatch env s = .ok s') : Advanced s s' ↔ CanAdvance env (polled s) := by
  have hQ : queueSize = 131070 := rfl
  obtain ⟨hpoll, ty, body, rest, hp⟩ := isComplete_true h hfound
  rw [← hpoll] at hp
  have hq : InRange (polled s).inQueue := by rw [polled, hpoll]; exact h.synced
  have hc : 0 < (polled s).inQueue.count := by have := hp.count; simp only [polled]; omega
  simp only [pollAndDispatch, hfound, if_true] at hrun
  obtain ⟨⟨o, s₁⟩, hd, hrun⟩ := bind_eq_ok.1 hrun
  cases hrun
  have hstep : DispatchStep env (polled s) o s₁ := dispatch_step hq ⟨ty, body, rest, hp⟩ hd
  -- the exits of a command that takes data
  have data : ∀ {c k r}, request (polled s).inQueue = some (c, k) → c < maxCommands →
      takesData (functionOf c) = true →
      callFunction env (atParams (polled s) k) 0 (functionOf c) = .ok r →
      (s₁.inQueue = if r.1 then queueSkipTerminatorOfPacket r.2.inQueue
        else { r.2.inQueue with readNextByte := (polled s).inQueue.readNextByte }) →
      s₁.binaryDataReceiveMode = r.2.binaryDataReceiveMode →
      (Advanced s s₁ ↔ CanAdvance env (polled s)) := by
    intro c k r hr hlt hdata hcall hin hrecv
    have hk := request_le hq hp hr hlt
    rw [data_advances hq hc hu.1 (by omega) hk.2.2 hdata (data_call (hq.inc k) hdata hcall) hin hrecv,
      CanAdvance, hr]
    simp only [hdata, forall_const]
  cases hstep with
  | ignored ht hb =>
    have hr : request (polled s).inQueue = none := by rw [request, if_neg ht, if_neg hb]
    rw [CanAdvance, hr]
    constructor
    · intro ha
      exact absurd ha (not_advanced hq hc rfl hu.1.le)
    · intro ha
      exact absurd ha ht
  | badText ht hbad =>
    have hr : request (polled s).inQueue = none := by rw [request, if_pos ht, if_neg (by simp [hbad])]
    rw [CanAdvance, hr]
    constructor
    · intro _
      exact ht
    · intro _
      exact .inl (badText_moves hq hp hbad)
  | noSpace hr hR hsp =>
    have := hR.bounds
    have hsp : isQueueSpaceAvailable s.outQueue _ = false := hsp
    rw [space_of_empty hv hout (by omega) (by omega)] at hsp; cases hsp
  | @complete c k _ s' hr hR hsp hcall =>
    by_cases hspecial : Special c
    swap
    · exact plain_advances hq hm hp (.complete hr hR hsp hcall) hr hspecial
    rcases hspecial with hdata | hreset
    · exact data hr hR.lt hdata hcall rfl rfl
    · rw [hreset] at hcall
      cases hcall
      rw [CanAdvance, hr]
      constructor
      · intro _ hdata
        rw [hreset] at hdata; cases hdata
      · intro _
        exact reset_advances s
  | @retried c k _ s' hr hR hsp hret hcall =>
    by_cases hdata : takesData (functionOf c) = true
    · exact data hr hR.lt hdata hcall rfl rfl
    · exact absurd hcall (not_retried (s := atParams (polled s) k) (hq.inc k) hm hv hout
        (Bool.eq_false_iff.2 hdata) hret)
  | @scheduled c k _ s' s'' hr hR hsp hret hcall hsched =>
    refine plain_advances hq hm hp (.scheduled hr hR hsp hret hcall hsched) hr ?_
    rintro (hdata | hreset)
    · rw [retried_of_takesData hdata] at hret; cases hret
    · rw [hreset] at hcall; cases hcall

end

/-- An instance: a `PING` is passed. -/
theorem progress_ping : ∃ s', pollAndDispatch calmEnv (serverOf (textPacket "PING\n")) = .ok s' ∧
    Advanced (serverOf (textPacket "PING\n")) s' := by
  have hr : request (polled (serverOf (textPacket "PING\n"))).inQueue = some (1, 11) := by decide
  obtain ⟨s', hrun⟩ : ∃ s', pollAndDispatch calmEnv (serverOf (textPacket "PING\n")) = .ok s' :=
    ⟨_, rfl⟩
  have hin : Valid (serverOf (textPacket "PING\n")).inQueue := queueOf_valid (by decide)
  have hout : Valid (serverOf (textPacket "PING\n")).outQueue := queueOf_valid (by decide)
  refine ⟨s', hrun, (progress_iff hin.toInRange (serverOf_store _) hout (by decide) (by decide)
    (by decide) hrun).2 ?_⟩
  rw [CanAdvance, hr]
  exact fun hd => absurd hd (by decide)

/-- A data packet that no command waits for is found again and again. -/
theorem progress_dataPacket :
    let s := serverOf (encode binaryData [1, 2])
    (isCompletePacketAvailable s.inQueue).1 = true ∧ Unlocked s ∧
      numberBytesInQueueToRead s.outQueue = 0 ∧ pollAndDispatch calmEnv s = .ok s ∧
      ¬ Advanced s s :=
  ⟨by decide, by decide, by decide, rfl, by unfold Advanced; decide⟩

end CpcLink
