/-
  Is the send lock released when the out queue is empty?

  `RALLOC` sets the lock to the bytes of the page packet and the bytes that wait
  in the *in* queue, where those that wait in the out queue are meant.  The lock
  outlives the out queue when more has been received behind the request than
  there is in front of the page.
-/
import CpcLink.Proof.CallFrames
import CpcLink.Proof.Runs

namespace CpcLink

/-- A page that is sent has no more bytes in front of it than are received
    behind the request, and does not fill the out queue to the last byte. -/
def SendLockFits (_ : Env) (s : Server) : Prop :=
  ∀ c k offset n, request s.inQueue = some (c, k) → functionOf c = .commandRetrieveAlloc →
    pageAsked (atParams s k) = some (offset, n) →
    isQueueSpaceAvailable s.outQueue (n + 23) = true →
    ((atParams s (k + 3)).inQueue.count ≤ s.outQueue.count + 14) ∧
      (s.outQueue.count : ℤ) + n + 23 ≠ queueSize

instance (env : Env) (s : Server) : Decidable (SendLockFits env s) :=
  decidable_of_iff (∀ c k, request s.inQueue = some (c, k) → functionOf c = .commandRetrieveAlloc →
      ∀ offset n, pageAsked (atParams s k) = some (offset, n) →
        isQueueSpaceAvailable s.outQueue (n + 23) = true →
        ((atParams s (k + 3)).inQueue.count ≤ s.outQueue.count + 14) ∧
          (s.outQueue.count : ℤ) + n + 23 ≠ queueSize)
    ⟨fun h c k offset n hr hfn => h c k hr hfn offset n,
      fun h c k hr hfn offset n => h c k offset n hr hfn⟩

/-- The lock is no more than the bytes that wait to be sent. -/
def SendLocked (s : Server) : Prop :=
  0 ≤ s.binaryDataSendMode ∧ s.binaryDataSendMode ≤ numberBytesInQueueToRead s.outQueue

section
variable {env : Env} {s s' : Server}

theorem SendLocked.unlocked (h : InRange s.outQueue) (h0 : s.binaryDataSendMode = 0) :
    SendLocked s := by
  have := h.numberBytes
  unfold SendLocked
  omega

/-! ## Packets that fill the queue -/

/-- Packets that fit together are all written, up to the last free byte. -/
theorem sendPackets_foldl (packets : List (PacketType × List BYTE)) {q : Queue} (h : Valid q)
    (hf : Fits q (encodePackets packets).length) :
    sendPackets q packets = (encodePackets packets).foldl storeByte q := by
  induction packets generalizing q with
  | nil => rfl
  | cons p packets ih =>
    have hcons : encodePackets (p :: packets) = encode p.1 p.2 ++ encodePackets packets := rfl
    rw [hcons, List.length_append, length_encode] at hf
    have hw : (writeDataToPacket q p.2 p.1).2 = emit q p.1 p.2 := by
      rw [h.writePacket, if_pos ((h.fits (by omega)).2 (hf.mono (by push_cast; omega)))]
    rw [show sendPackets q (p :: packets) = sendPackets (emit q p.1 p.2) packets by rw [← hw]; rfl,
      hcons, List.foldl_append]
    by_cases h0 : packets = []
    · rw [h0]; rfl
    -- the packets behind the first one leave it a byte
    have hpos : 0 < (encodePackets packets).length := by
      cases packets with
      | nil => exact absurd rfl h0
      | cons p' packets => simp [encodePackets]
    have hle := hf.le
    push_cast at hle
    obtain ⟨hv, hu⟩ : Valid (emit q p.1 p.2) ∧ (emit q p.1 p.2).unread = q.unread ++ encode p.1 p.2 :=
      h.emit p.2 (by omega)
    have hc : (emit q p.1 p.2).count = q.count + (p.2.length + 9) := by
      rw [← length_unread, hu]; simp
    exact ih hv (by unfold Fits; rw [hc]; push_cast; omega)

/-! ## The page -/

/-- The answer of `RALLOC` in front of the page. -/
def pageAnswer (q : Queue) : List BYTE :=
  [byte retrieveAlloc, byte (allocationIdOf q), byte (pageNumberOf q % 256),
    byte (pageNumberOf q / 256), byte 0]

/-- `RALLOC` sends this page and sets the lock. -/
structure SendsPage (s : Server) (r : Bool × Server) (offset : ℤ) (page : List BYTE) : Prop where
  asked : pageAsked s = some (offset, (page.length : ℤ))
  read : memRead (s.memstore (allocationIdOf s.inQueue)).data offset page.length = .ok page
  space : isQueueSpaceAvailable s.outQueue (page.length + 23) = true
  done : r.1 = true
  outQueue : r.2.outQueue = sendPackets s.outQueue
    [(binaryCommand, pageAnswer s.inQueue), (binaryData, page)]
  lock : r.2.binaryDataSendMode =
    wrap32 (page.length + 9 + (incrementReadNextIndex s.inQueue (3 : ℕ)).count)

/-- A page that was found is sent, if there is space. -/
theorem retrieveAlloc_page (h : InRange s.inQueue) (hm : StoreValid s.memstore)
    (hv : Valid s.outQueue) (hf : Fits s.outQueue 30) {offset : ℤ} {page : List BYTE}
    (hlimit : ¬ pageNumberOf s.inQueue > 9999)
    (hasked : pageAsked s = some (offset, (page.length : ℤ)))
    (hread : memRead (s.memstore (allocationIdOf s.inQueue)).data offset page.length = .ok page)
    (hsp : isQueueSpaceAvailable s.outQueue (page.length + 23) = true) :
    ∃ r, commandRetrieveAlloc s = .ok r ∧ SendsPage s r offset page := by
  obtain ⟨hpos, -⟩ := hm.retrieve hasked
  have hin : (getCommandNext16bitParamBin (getCommandNext8bitParamBin s.inQueue).2).2 =
      incrementReadNextIndex s.inQueue (3 : ℕ) := by
    rw [next8_queue, next16_queue (h.inc _), h.inc_nat]
  have hspace : (5 + packetOverhead + page.length + packetOverhead : ℤ) = page.length + 23 := by
    simp only [packetOverhead]; omega
  have hanswer := respondBytes_eq (s := atParams s 3) hv hf retrieveAlloc
    (show [allocationIdOf s.inQueue, pageNumberOf s.inQueue % 256, pageNumberOf s.inQueue / 256,
      0].length ≤ 6 by simp)
  have hrun : commandRetrieveAlloc s = .ok (true, setBinaryDataSendLockMode
      { respondBytes (atParams s 3) retrieveAlloc [allocationIdOf s.inQueue,
          pageNumberOf s.inQueue % 256, pageNumberOf s.inQueue / 256, 0] with
        outQueue := (writeDataToPacket (respondBytes (atParams s 3) retrieveAlloc
          [allocationIdOf s.inQueue, pageNumberOf s.inQueue % 256, pageNumberOf s.inQueue / 256,
            0]).outQueue page binaryData).2 }
      (page.length + packetOverhead)) := by
    unfold pageNumberOf at hlimit
    unfold pageAsked at hasked
    unfold allocationIdOf at hread
    unfold commandRetrieveAlloc
    dsimp only at hasked ⊢
    rw [if_neg hlimit, hasked]
    dsimp only
    rw [if_pos (by omega), hspace, if_pos hsp, hin, hread]
    rfl
  refine ⟨_, hrun, hasked, hread, hsp, rfl, ?_, ?_⟩
  · change (writeDataToPacket (respondBytes (atParams s 3) retrieveAlloc
      [allocationIdOf s.inQueue, pageNumberOf s.inQueue % 256, pageNumberOf s.inQueue / 256,
        0]).outQueue page binaryData).2 = _
    rw [hanswer]
    rfl
  · have hn := (h.inc (3 : ℕ)).numberBytes
    rw [← hn]
    rfl

theorem retrieveAlloc_sends (h : InRange s.inQueue) (hm : StoreValid s.memstore)
    (hv : Valid s.outQueue) (hf : Fits s.outQueue 30) {r : Bool × Server}
    (hr : commandRetrieveAlloc s = .ok r) : r.2.binaryDataSendMode = s.binaryDataSendMode ∨
      ∃ offset page, SendsPage s r offset page := by
  have hrun := hr
  unfold commandRetrieveAlloc at hr
  dsimp only at hr
  split at hr
  · cases hr; exact .inl rfl
  next hlimit =>
  split at hr
  swap
  · cases hr; exact .inl rfl
  next offset n hpage =>
  split at hr
  swap
  · cases hr; exact .inl rfl
  split at hr
  swap
  · cases hr; exact .inl rfl
  next hsp =>
  obtain ⟨-, -, page, hread, hlen⟩ := hm.retrieve hpage
  subst hlen
  rw [show (5 + packetOverhead + page.length + packetOverhead : ℤ) = page.length + 23 by
    simp only [packetOverhead]; omega] at hsp
  obtain ⟨r', hr', hsends⟩ := retrieveAlloc_page h hm hv hf hlimit hpage hread hsp
  cases hrun.symm.trans hr'
  exact .inr ⟨offset, page, hsends⟩

/-- **The lock of a page fits exactly when `SendLockFits` says so.** -/
theorem SendsPage.locked_iff {r : Bool × Server} {offset : ℤ} {page : List BYTE}
    (h : InRange s.inQueue) (hm : StoreValid s.memstore) (hv : Valid s.outQueue)
    (hp : SendsPage s r offset page) : SendLocked r.2 ↔
      (incrementReadNextIndex s.inQueue (3 : ℕ)).count ≤ s.outQueue.count + 14 ∧
        (s.outQueue.count : ℤ) + page.length + 23 ≠ queueSize := by
  have hQ : queueSize = 131070 := rfl
  obtain ⟨h1, h2, -⟩ := hm.retrieve hp.asked
  have hb := (h.inc (3 : ℕ)).count_lt
  have hl : (encodePackets [(binaryCommand, pageAnswer s.inQueue), (binaryData, page)]).length =
      page.length + 23 := by
    simp [encodePackets, pageAnswer]; omega
  have hf : Fits s.outQueue (page.length + 23) := (hv.fits (by omega)).1 hp.space
  have hle := hf.le
  have hout := sendPackets_foldl [(binaryCommand, pageAnswer s.inQueue), (binaryData, page)] hv
    (by rw [hl]; push_cast; exact hf)
  obtain ⟨hin, hcount⟩ := hv.toInRange.foldl_store_mod
    (encodePackets [(binaryCommand, pageAnswer s.inQueue), (binaryData, page)])
  rw [← hout, ← hp.outQueue] at hin hcount
  rw [hl] at hcount
  push_cast at hcount
  unfold SendLocked
  rw [hin.numberBytes, hcount, hp.lock, wrap32_id (by omega) (by omega)]
  by_cases hfull : (s.outQueue.count : ℤ) + (page.length + 23) = queueSize
  · rw [hfull, Int.emod_self]
    omega
  · rw [Int.emod_eq_of_lt (by omega) (by omega)]
    omega

/-! ## Steps -/

/-- A call of a dispatched command, if the lock fits. -/
theorem call_sendLocked (h : Healthy s) (h0 : s.binaryDataSendMode = 0) {fn : CommandFunction}
    {tick : ℤ} {r : Bool × Server} (hf : reliesOnSpace fn = true → Fits s.outQueue 30)
    (hfit : fn = .commandRetrieveAlloc → ∀ offset n, pageAsked s = some (offset, n) →
      isQueueSpaceAvailable s.outQueue (n + 23) = true →
      (incrementReadNextIndex s.inQueue (3 : ℕ)).count ≤ s.outQueue.count + 14 ∧
        (s.outQueue.count : ℤ) + n + 23 ≠ queueSize)
    (hr : callFunction env s tick fn = .ok r) : SendLocked r.2 := by
  have hv : Valid r.2.outQueue := (h.call hf hr).outQueue
  by_cases hreset : fn = .commandReset
  · subst hreset
    cases hr
    exact .unlocked hv.toInRange h0
  by_cases hpage : fn = .commandRetrieveAlloc
  swap
  · have hsend := ((call_leaves env s tick hreset).result hr).sendMode hpage
    exact .unlocked hv.toInRange (hsend.trans h0)
  subst hpage
  rcases retrieveAlloc_sends h.inQueue h.memstore h.outQueue (hf rfl) hr with
    he | ⟨offset, page, hp⟩
  · exact .unlocked hv.toInRange (he.trans h0)
  · exact (hp.locked_iff h.inQueue h.memstore h.outQueue).2 (hfit rfl offset _ hp.asked hp.space)

theorem dispatch_sendLocked (h : Healthy s) (h0 : s.binaryDataSendMode = 0)
    (hp : ∃ ty body rest, AtPacket s.inQueue ty body rest) (hfit : SendLockFits env s) {o : Outcome}
    (hd : dispatch env s = .ok (o, s')) : SendLocked s' := by
  have hout := (h.dispatch hp hd).outQueue.toInRange
  -- the call of the request `c`
  have call : ∀ {c : Command} {k : ℕ} {space : ℤ} {r : Bool × Server},
      request s.inQueue = some (c, k) → Row c (functionOf c) space →
      isQueueSpaceAvailable s.outQueue space = true →
      callFunction env (atParams s k) 0 (functionOf c) = .ok r → SendLocked r.2 := by
    intro c k space r hr hR hsp hcall
    refine call_sendLocked (h.atParams k) h0 (fun _ => (hR.fits h hsp).2) ?_ hcall
    intro hfn offset n hpage hroom
    have hfit' := hfit c k offset n hr hfn hpage hroom
    rw [atParams, ← h.inQueue.inc_nat] at hfit'
    exact hfit'
  cases dispatch_step h.inQueue hp hd with
  | ignored | noSpace | badText => exact .unlocked hout h0
  | complete hr hR hsp hcall => exact call hr hR hsp hcall
  | retried hr hR hsp _ hcall => exact call hr hR hsp hcall
  | scheduled hr hR hsp _ hcall hsched =>
    obtain ⟨_, rfl, -⟩ := schedule_spec hsched
    exact call hr hR hsp hcall

theorem exchange_sendLocked {m : Mcp} (h : Healthy m.server) (input : Input)
    (hl : SendLocked m.server) : SendLocked (exchangeBytes input m).server := by
  have received : SendLocked (receiveByte m input.dor).server := by
    rcases receiveByte_cases m input.dor with he | ⟨b, -, -, he⟩ <;> rw [he] <;> exact hl
  have hx := h.receive input.dor
  unfold exchangeBytes
  generalize receiveByte m input.dor = m' at received hx
  rcases sendByte_cases m' input.dir with he | ⟨hpos, he⟩ <;> rw [he]
  · exact received
  -- the byte that leaves is counted, unless the lock is released
  obtain ⟨hl0, hl1⟩ := received
  have hn := hx.outQueue.toInRange.numberBytes
  have hc := hx.outQueue.toInRange.count_inc (a := 1) (by omega)
  have hn' := (hx.outQueue.toInRange.inc 1).numberBytes
  rw [Nat.cast_one] at hc
  unfold SendLocked
  dsimp only
  split <;> omega

/-- **The send lock is released no later than the out queue is empty**, in a run
    in which every page that is sent meets `SendLockFits`. -/
theorem send_locked {m : Mcp}
    (hr : Reach Initial Round (RoundMeets SendLockFits fun _ _ => True) m) :
    SendLocked m.server := by
  refine hr.inv_with (P := fun m => SendLocked m.server) (I := fun m => Healthy m.server)
    (fun _ => healthy_reach) ?_ ?_
  · rintro m ⟨inQueue, outQueue, memstore, world, rfl⟩
    exact .unlocked (valid_initQueue _).toInRange rfl
  intro m input m' h hl hok hround
  obtain ⟨m₁, hp, ht⟩ := hround.steps
  have hx : Healthy (exchangeBytes input m).server := h.exchange input
  have hlx := exchange_sendLocked h input hl
  obtain ⟨hps, -, -⟩ := checkPackets_step hp
  have hl₁ : SendLocked m₁.server := by
    generalize hs : m₁.server = s₁ at hps
    cases hps with
    | idle => exact hlx
    | polled => exact hlx
    | dispatched hd hrun =>
      exact dispatch_sendLocked hx.polled hd.2.1.2 (hd.atPacket hx) (hok.dispatch hd) hrun
  have h₁ : Healthy m₁.server := hx.packets hps
  obtain ⟨hts, -⟩ := checkTicks_step ht
  generalize hs : m'.server = s' at hts
  cases hts with
  | idle => exact hl₁
  | @run i fn done s₂ states hgo _ hfn hcall _ =>
    have hkind := staged_kind (h₁.commandStates i fn hfn)
    have hr₂ : SendLocked s₂ := call_sendLocked h₁ hgo.2.2
      (fun hspace => by rw [hkind.1] at hspace; cases hspace)
      (fun hpage => by subst hpage; exact absurd (h₁.commandStates i _ hfn) (by decide)) hcall
    exact hr₂

end

/-- An allocation of one page and its page are asked for; the client takes every
    byte at once. -/
def pageRounds : List Input :=
  (encode binaryCommand [21, 1, 0, 1] ++ encode binaryCommand [23, 1, 0, 0]).map
    (fun b => ⟨some b, true, calmEnv⟩) ++ List.replicate 27 ⟨none, true, calmEnv⟩

/-- An instance: eleven bytes of the answer and the page are sent. -/
theorem send_locked_page : ∃ m, runRounds pageRounds startedMcp = .ok m ∧
    m.server.binaryDataSendMode = 1025 ∧ numberBytesInQueueToRead m.server.outQueue = 1036 ∧
    SendLocked m.server := by
  have hend : runMeets (fun env s => decide (SendLockFits env s)) (fun _ _ => true) pageRounds
      startedMcp (fun m => m.server.binaryDataSendMode == 1025 &&
        numberBytesInQueueToRead m.server.outQueue == 1036) = true := by decide +kernel
  obtain ⟨m, hrun, hr, hm⟩ := reach_of_started (D := SendLockFits) (T := fun _ _ => True) hend
  simp only [Bool.and_eq_true, beq_iff_eq] at hm
  exact ⟨m, hrun, hm.1, hm.2, send_locked hr⟩

/-- An allocation of one page is asked for, and its page twice; the client takes
    every byte at once. -/
def pipelinedPages : List Input :=
  (encode binaryCommand [21, 1, 0, 1] ++ encode binaryCommand [23, 1, 0, 0] ++
    encode binaryCommand [23, 1, 0, 0]).map (fun b => ⟨some b, true, calmEnv⟩) ++
  List.replicate 3 ⟨none, true, calmEnv⟩

/-- The lock asks for two bytes more than wait to be sent. -/
theorem send_lock_outlives : ∃ m, runRounds pipelinedPages startedMcp = .ok m ∧
    Reach Initial Round (fun _ _ => True) m ∧ m.server.binaryDataSendMode = 1049 ∧
    numberBytesInQueueToRead m.server.outQueue = 1047 := by
  have h : endsIn pipelinedPages startedMcp (fun m => m.server.binaryDataSendMode == 1049 &&
      numberBytesInQueueToRead m.server.outQueue == 1047) = true := by decide +kernel
  obtain ⟨m, hm, hr, hp⟩ := reach_of_endsIn h
  simp only [Bool.and_eq_true, beq_iff_eq] at hp
  exact ⟨m, hm, hr, hp.1, hp.2⟩

end CpcLink
