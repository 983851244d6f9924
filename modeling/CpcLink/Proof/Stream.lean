/-
  Is the stream to the client well framed?

  Every answer is a list of whole packets, unless it fills the out queue to the
  last cell, which then looks empty, or it is the result of a shell command that
  is not written as it was announced.
-/
import CpcLink.Proof.Runs

namespace CpcLink

/-- The bytes are packets, one behind the other, each with the size it announces. -/
def FramedStream (l : List BYTE) : Prop := ∃ packets, Sized packets ∧ l = encodePackets packets

/-! ## The condition -/

/-- As many bytes fill the queue to the last cell. -/
def Fills (q : Queue) (n : ℕ) : Prop := (q.count : ℤ) + n = queueSize

/-- A result of a shell command is read, and there is space for its payload. -/
def ResultSent (env : Env) (s : Server) : Prop :=
  ResultRead env s ∧ isQueueSpaceAvailable s.outQueue ((shellOutput env s).length + 25) = true

/-- The answer leaves a cell of the out queue free; the result of a shell command
    that is sent has no NUL byte, and there is space for its packet. -/
structure AnswersWhole (env : Env) (tick : ℤ) (fn : CommandFunction) (s : Server) : Prop where
  notFull : ¬ Fills s.outQueue (answerSize env s tick fn)
  noNul : fn = .commandShellexec → ResultSent env s → env.fseekSet = true →
    (0 : BYTE) ∉ shellOutput env s
  space : fn = .commandShellexec → ResultSent env s →
    isQueueSpaceAvailable s.outQueue ((shellOutput env s).length + 34) = true

/-- The command that is run is not `RESET` and answers whole; the answer to a
    text without a name leaves a cell free. -/
structure PacketWhole (env : Env) (s : Server) : Prop where
  command : ∀ c k, request s.inQueue = some (c, k) → functionOf c ≠ .commandReset ∧
    (isQueueSpaceAvailable s.outQueue (spaceOf (functionOf c)) = true →
      AnswersWhole env 0 (functionOf c) (atParams s k))
  badText : getPacketType s.inQueue = textCommand → request s.inQueue = none →
    ¬ Fills s.outQueue 26

/-- So does a command that is run when its time has come. -/
def TickWhole (env : Env) (s : Server) : Prop :=
  ∀ i fn, dueCommandState s.commandStates (getCurrentExecTime env.timeOfDay) = some i →
    (s.commandStates i).commandFunction = some fn →
    AnswersWhole env (s.commandStates i).nextTickCount fn s

instance (env : Env) (tick : ℤ) (fn : CommandFunction) (s : Server) :
    Decidable (AnswersWhole env tick fn s) :=
  decidable_of_iff ((s.outQueue.count : ℤ) + answerSize env s tick fn ≠ queueSize ∧
      (fn = .commandShellexec → ResultRead env s ∧
        isQueueSpaceAvailable s.outQueue ((shellOutput env s).length + 25) = true →
        (env.fseekSet = true → (0 : BYTE) ∉ shellOutput env s) ∧
          isQueueSpaceAvailable s.outQueue ((shellOutput env s).length + 34) = true))
    ⟨fun h => ⟨h.1, fun hfn hs => (h.2 hfn hs).1, fun hfn hs => (h.2 hfn hs).2⟩,
      fun h => ⟨h.notFull, fun hfn hs => ⟨h.noNul hfn hs, h.space hfn hs⟩⟩⟩

instance (env : Env) (s : Server) : Decidable (PacketWhole env s) :=
  decidable_of_iff ((∀ c k, request s.inQueue = some (c, k) → functionOf c ≠ .commandReset ∧
      (isQueueSpaceAvailable s.outQueue (spaceOf (functionOf c)) = true →
        AnswersWhole env 0 (functionOf c) (atParams s k))) ∧
      (getPacketType s.inQueue = textCommand → request s.inQueue = none →
        (s.outQueue.count : ℤ) + 26 ≠ queueSize))
    ⟨fun h => ⟨h.1, h.2⟩, fun h => ⟨h.command, h.badText⟩⟩

instance (env : Env) (s : Server) : Decidable (TickWhole env s) := decidableDue

/-- The stream, with what waits in the out queue. -/
def StreamFramed (s : Server) (written : List BYTE) : Prop :=
  FramedStream (written ++ s.outQueue.unread)

section
variable {env : Env} {s s' : Server} {fn : CommandFunction} {q : Queue} {l : List BYTE}

/-! ## Packets behind one another -/

theorem framedStream_nil : FramedStream [] := ⟨[], sized_nil, rfl⟩

theorem FramedStream.append (h : FramedStream l) {packets : List (PacketType × List BYTE)}
    (hs : Sized packets) : FramedStream (l ++ encodePackets packets) := by
  obtain ⟨packets', hs', rfl⟩ := h
  refine ⟨packets' ++ packets, fun p hp => ?_, ?_⟩
  · rcases List.mem_append.1 hp with hp | hp
    · exact hs' p hp
    · exact hs p hp
  · simp [encodePackets]

/-- The first packet ends where it says. -/
theorem FramedStream.frameEnd (h : FramedStream l) (hne : l ≠ []) :
    frameEnd l = minusMinusMinus := by
  obtain ⟨packets, hs, rfl⟩ := h
  match packets with
  | [] => exact absurd rfl hne
  | (ty, body) :: packets =>
    have hl : body.length ≤ 65532 := hs (ty, body) (by simp)
    have he : encodePackets ((ty, body) :: packets) = encode ty body ++ encodePackets packets := by
      simp [encodePackets]
    rw [he, CpcLink.frameEnd, frameSize_encode ty hl, show body.length + 3 + 3 = body.length + 6 by
      omega, drop_encode]
    rfl

/-- One more packet, or none if there is no space. -/
theorem sendPacket_framed (hv : Valid q) {packets : List (PacketType × List BYTE)}
    (hs : Sized packets) (hl : packets.length ≤ 1) (hfill : ¬ Fills q (encodePackets packets).length) :
    ∃ sent, Sized sent ∧ (sendPackets q packets).unread = q.unread ++ encodePackets sent := by
  match packets with
  | [] => exact ⟨[], sized_nil, by simp [sendPackets, encodePackets]⟩
  | [(ty, body)] =>
    rw [sendPackets_single hv]
    rw [length_encodePackets_single, Fills] at hfill
    split
    next hsp =>
      have hle := ((hv.fits (by omega)).1 hsp).le
      refine ⟨[(ty, body)], hs, ?_⟩
      rw [(hv.emit body (by push_cast at hfill; omega)).2]
      simp [encodePackets]
    next => exact ⟨[], sized_nil, by simp [encodePackets]⟩
  | _ :: _ :: _ => simp at hl

/-- **What a command adds to the out queue are packets.** -/
theorem Sends.framed {tick : ℤ} (hs : Sends env tick fn s q) (hv : Valid s.outQueue)
    (hroom : staged fn = false → Fits s.outQueue (spaceOf fn)) (hw : AnswersWhole env tick fn s) :
    ∃ sent, Sized sent ∧ q.unread = s.outQueue.unread ++ encodePackets sent := by
  obtain ⟨hfill, hnul, hspace⟩ := hw
  unfold Fills at hfill
  cases hs with
  | nothing => exact ⟨[], sized_nil, by simp [encodePackets]⟩
  | packet hs hl hsize =>
    refine sendPacket_framed hv hs hl fun hf => ?_
    unfold Fills at hf
    rcases hsize with ⟨hstaged, hlt⟩ | he
    · have := (hroom hstaged).le
      omega
    · exact hfill (by rw [← he]; exact hf)
  | @page a page off hfn ha hl hpage hsp =>
    subst hfn
    have hlen : (encodePackets [(binaryCommand, byte retrieveAlloc :: (a ++ [0])),
        (binaryData, page)]).length = page.length + 23 := by
      simp [encodePackets, ha]; omega
    have hsize : answerSize env s tick .commandRetrieveAlloc = page.length + 23 := by
      rw [answerSize, hpage]; rfl
    have hle := ((hv.fits (by omega)).1 hsp).le
    rw [hsize] at hfill
    refine ⟨_, .cons (by simp [ha]) (sized_single (by omega)), (sendPackets_unread _ hv ?_).2⟩
    rw [hlen]; push_cast at hfill ⊢; omega
  | @result result _ hfn hread he hl h0 hsp hq =>
    subst hfn
    have hsize : answerSize env s tick .commandShellexec = result.length + 34 := by
      rw [answerSize, if_pos hread, he]
    rw [hsize] at hfill
    have hsent : ResultSent env s := ⟨hread, by rw [← he]; exact hsp⟩
    have hsp34 := hspace rfl hsent
    rw [← he] at hsp34
    have hf := (hv.fits (by omega)).1 hsp34
    have hle := hf.le
    have hQ : queueSize = 131070 := rfl
    have htext := resultText_length result
    rw [hQ] at hl
    refine ⟨[(textCommand, resultText result)], sized_single (by omega), ?_⟩
    rw [sendShellResult_eq hv hf (h0 (hnul rfl hsent)) hq,
      (hv.emit _ (by rw [htext]; push_cast at hfill ⊢; omega)).2]
    simp [encodePackets]

/-! ## Steps -/

theorem StreamFramed.append {w : List BYTE} (h : StreamFramed s w) (hq : ∃ sent, Sized sent ∧
    s'.outQueue.unread = s.outQueue.unread ++ encodePackets sent) : StreamFramed s' w := by
  obtain ⟨sent, hs, hu⟩ := hq
  rw [StreamFramed, hu, ← List.append_assoc]
  exact FramedStream.append h hs

/-- The call of a dispatched command. -/
theorem call_framed {c : Command} {k : ℕ} {space : ℤ} (h : Healthy s) (hw : PacketWhole env s)
    (hr : request s.inQueue = some (c, k)) (hR : Row c (functionOf c) space)
    (hsp : isQueueSpaceAvailable s.outQueue space = true) {r : Bool × Server}
    (hcall : callFunction env (atParams s k) 0 (functionOf c) = .ok r) :
    ∃ sent, Sized sent ∧ r.2.outQueue.unread = s.outQueue.unread ++ encodePackets sent := by
  obtain ⟨hreset, hwhole⟩ := hw.command c k hr
  obtain ⟨hf, h30⟩ := hR.fits h hsp
  rw [hR.space] at hf hsp
  have h' := h.atParams k
  exact (call_sends h'.inQueue h'.memstore h'.outQueue (fun _ => h30) hreset hcall).framed
    h'.outQueue (fun _ => hf) (hwhole hsp)

theorem dispatch_framed (h : Healthy s) (hp : ∃ ty body rest, AtPacket s.inQueue ty body rest)
    (hw : PacketWhole env s) {o : Outcome} (hd : dispatch env s = .ok (o, s')) {w : List BYTE}
    (hs : StreamFramed s w) : StreamFramed s' w := by
  cases dispatch_step h.inQueue hp hd with
  | ignored | noSpace => exact hs
  | badText ht hbad =>
    have hr : request s.inQueue = none := by rw [request, if_pos ht, if_neg (by simp [hbad])]
    have hl : (bytes "Bad Text Command\n").length = 17 := length_bytes _
    have hsized : Sized [(textCommand, bytes "Bad Text Command\n")] := sized_single (by omega)
    refine hs.append (sendPacket_framed h.outQueue hsized le_rfl ?_)
    rw [length_encodePackets_single, hl]
    exact hw.badText ht hr
  | complete hr hR hsp hcall => exact hs.append (call_framed h hw hr hR hsp hcall)
  | retried hr hR hsp _ hcall => exact hs.append (call_framed h hw hr hR hsp hcall)
  | scheduled hr hR hsp _ hcall hsched =>
    obtain ⟨_, rfl, -⟩ := schedule_spec hsched
    exact hs.append (call_framed h hw hr hR hsp hcall)

theorem send_framed {m : Mcp} (h : Healthy m.server) (hs : StreamFramed m.server m.written)
    (dir : Bool) : StreamFramed (sendByte m dir).server (sendByte m dir).written := by
  rcases sendByte_cases m dir with he | ⟨hn, he⟩ <;> rw [he]
  · exact hs
  · have hq := h.outQueue.toInRange
    rw [hq.numberBytes] at hn
    have hu := hq.unread_inc (a := 1) (by omega)
    rw [Nat.cast_one] at hu
    have hl := length_unread m.server.outQueue
    have hpos : 0 < m.server.outQueue.unread.length := by omega
    have hhead : m.server.outQueue.unread = getCurrentReadByte m.server.outQueue ::
        m.server.outQueue.unread.drop 1 := by
      rw [hq.current, ← getElem_unread hpos]
      exact List.drop_eq_getElem_cons hpos
    unfold StreamFramed at hs ⊢
    simp only [hu]
    rw [hhead] at hs
    simpa using hs

theorem stream_kept : Kept PacketWhole TickWhole StreamFramed where
  start m h := by
    obtain ⟨_, outQ, _, _, rfl⟩ := h
    have hu : (initQueue outQ).unread = [] := unread_eq_nil.2 (count_initQueue outQ)
    change FramedStream ([] ++ (initQueue outQ).unread)
    rw [hu]; exact framedStream_nil
  receive m dor h hs := by
    rcases receiveByte_cases m dor with he | ⟨b, -, -, he⟩ <;> rw [he] <;> exact hs
  send m dir h hs := send_framed h hs dir
  poll _ _ hs := hs
  dispatch env s w o s' h hp hw hd hs := dispatch_framed h hp hw hd hs
  tick env s w i fn done s' states h hdue hfn hT hcall hs := by
    have hstaged := h.commandStates i fn hfn
    obtain ⟨hrely, hreset, -⟩ := staged_kind hstaged
    have hsends := call_sends h.inQueue h.memstore h.outQueue
      (fun hf => by rw [hrely] at hf; cases hf) hreset hcall
    exact hs.append (hsends.framed h.outQueue (fun hf => by rw [hstaged] at hf; cases hf)
      (hT i fn hdue hfn))

/-- **The stream to the client is well framed** in a run in which every answer
    is written whole and none fills the out queue. -/
theorem stream_framed {m : Mcp} (hr : Reach Initial Round (RoundMeets PacketWhole TickWhole) m) :
    FramedStream (m.written ++ m.server.outQueue.unread) := stream_kept.reach hr

end

/-- A shell that writes two lines. -/
def linesEnv : Env := { calmEnv with system := fun _ _ => (0, fun _ => some (bytes "ab\ncd\n")) }

/-- `SHELLEXEC x` and `REBOOT` come in, and the `REBOOT` is due in the last round.
    The client takes every byte at once. -/
def shellThenReboot : List Input :=
  (encode textCommand (bytes "SHELLEXEC x\n") ++ encode textCommand (bytes "REBOOT\n")).map
    (fun b => ⟨some b, true, linesEnv⟩) ++
  List.replicate 64 ⟨none, true, { calmEnv with timeOfDay := ⟨60, 0⟩ }⟩

/-- An instance: the result and the answer to the `REBOOT` are written, and both
    commands were given to the shell. -/
theorem stream_framed_shell : ∃ m, runRounds shellThenReboot startedMcp = .ok m ∧
    m.written.length = 40 + 35 ∧ m.server.world.commands.length = 2 ∧
    FramedStream (m.written ++ m.server.outQueue.unread) := by
  have hend : runMeets (fun env s => decide (PacketWhole env s))
      (fun env s => decide (TickWhole env s)) shellThenReboot startedMcp (fun m =>
        m.written.length == 40 + 35 && m.server.world.commands.length == 2) = true := by
    decide +kernel
  obtain ⟨m, hrun, hr, hm⟩ := reach_of_started (D := PacketWhole) (T := TickWhole) hend
  simp only [Bool.and_eq_true, beq_iff_eq] at hm
  exact ⟨m, hrun, hm.1, hm.2, stream_framed hr⟩

/-- No packet of the run is a `RESET`. -/
def NoReset (_ : Env) (s : Server) : Prop :=
  ∀ c k, request s.inQueue = some (c, k) → functionOf c ≠ .commandReset

instance (env : Env) (s : Server) : Decidable (NoReset env s) :=
  inferInstanceAs (Decidable (∀ _ _, _ → _))

/-- A shell that writes a NUL byte. -/
def nulEnv : Env := { calmEnv with
  system := fun _ _ => (0, fun _ => some [97, 98, 0, 99, 10, 120, 121]) }

/-- `SHELLEXEC x` comes in, and is dispatched with its last byte. -/
def nulRounds : List Input :=
  receiving ((encode textCommand (bytes "SHELLEXEC x\n")).take 20) ++ [⟨some 45, false, nulEnv⟩]

/-- The line with the NUL is cut short, the size announced is not. -/
theorem stream_nul : ∃ m, runRounds nulRounds startedMcp = .ok m ∧
    Reach Initial Round (RoundMeets NoReset fun _ _ => True) m ∧
    ¬ FramedStream (m.written ++ m.server.outQueue.unread) := by
  have h : runMeets (fun env s => decide (NoReset env s)) (fun _ _ => true) nulRounds startedMcp
      (fun m => m.written == [] && m.server.outQueue.unread.length == 38 &&
        frameEnd m.server.outQueue.unread == []) = true := by decide +kernel
  obtain ⟨m, hrun, hr, hm⟩ := reach_of_started (D := NoReset) (T := fun _ _ => True) h
  simp only [Bool.and_eq_true, beq_iff_eq] at hm
  obtain ⟨⟨hw, hl⟩, he⟩ := hm
  refine ⟨m, hrun, hr, fun hf => ?_⟩
  rw [hw, List.nil_append] at hf
  have hend := hf.frameEnd fun h0 => by rw [h0] at hl; cases hl
  rw [he] at hend; cases hend

end CpcLink
