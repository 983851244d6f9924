/-
  What one call of a command function leaves: queues, store and table in order,
  and behind the unread bytes of the out queue a packet, a page or the result of
  the shell.
-/
import CpcLink.Proof.Places

namespace CpcLink

/-- Only commands of several steps wait for their tick. -/
def OnlyStaged (commandStates : ℕ → CommandState) : Prop :=
  ∀ i fn, (commandStates i).commandFunction = some fn → staged fn

/-- What holds between any two steps of the server. -/
structure Healthy (s : Server) : Prop where
  inQueue : InRange s.inQueue
  outQueue : Valid s.outQueue
  memstore : StoreValid s.memstore
  commandStates : OnlyStaged s.commandStates

theorem onlyStaged_zero : OnlyStaged fun _ => .zero := fun _ _ h => by cases h

/-- What a command other than `RESET` does to the out queue. -/
inductive Sends (env : Env) (tick : ℤ) (fn : CommandFunction) (s : Server) : Queue → Prop
  | nothing : Sends env tick fn s s.outQueue
  | packet {packets : List (PacketType × List BYTE)} : Sized packets → packets.length ≤ 1 →
      SizeKnown fn (answerSize env s tick fn) packets →
      Sends env tick fn s (sendPackets s.outQueue packets)
  | page {a page : List BYTE} {offset : ℤ} : fn = .commandRetrieveAlloc → a.length = 3 →
      page.length ≤ 32768 → pageAsked s = some (offset, (page.length : ℤ)) →
      isQueueSpaceAvailable s.outQueue (page.length + 23) = true →
      Sends env tick fn s (sendPackets s.outQueue
        [(binaryCommand, byte retrieveAlloc :: (a ++ [0])), (binaryData, page)])
  | result {result : List BYTE} {q : Queue} : fn = .commandShellexec → ResultRead env s →
      result.length = (shellOutput env s).length → (result.length : ℤ) ≤ queueSize / 4 →
      ((env.fseekSet = true → (0 : BYTE) ∉ shellOutput env s) → (0 : BYTE) ∉ result) →
      isQueueSpaceAvailable s.outQueue (result.length + 25) = true →
      sendShellResult s.outQueue result = .ok q → Sends env tick fn s q

section
variable {env : Env} {s : Server} {fn : CommandFunction} {tick : ℤ} {r : Bool × Server}

theorem Sends.valid {q : Queue} (hs : Sends env tick fn s q) (hv : Valid s.outQueue) : Valid q := by
  cases hs with
  | nothing => exact hv
  | packet => exact hv.sendPackets _
  | page => exact hv.sendPackets _
  | result _ _ _ _ _ _ hq => exact hv.sendShellResult hq

theorem length_dataAnswer (fn : CommandFunction) (q : Queue) (allocationId errorId : ℤ) :
    (dataAnswer fn q allocationId errorId).length ≤ 4 := by
  unfold dataAnswer; split <;> simp

/-- The answer of `SALLOC` and `IALLOC` is a short packet. -/
theorem answerData_sends (hv : Valid s.outQueue) (hf : Fits s.outQueue 30)
    (hd : takesData fn = true) (allocationId errorId : ℤ) :
    Sends env tick fn s (answerData fn s allocationId errorId) := by
  have hl := length_dataAnswer fn s.inQueue allocationId errorId
  set payload := byte (dataCommand fn) :: dataAnswer fn s.inQueue allocationId errorId with hp
  have hlen : payload.length ≤ 5 := by rw [hp, List.length_cons]; omega
  have hf' : Fits s.outQueue (payload.length + 9) := hf.mono (by omega)
  have he : answerData fn s allocationId errorId =
      sendPackets s.outQueue [(binaryCommand, payload)] := by
    rw [answerData, buildResponse_eq hv hf', sendPackets_single hv,
      if_pos ((hv.fits (by omega)).2 hf')]
  rw [he]
  refine .packet (sized_single (by omega)) le_rfl (.inl ⟨?_, ?_⟩)
  · revert hd; cases fn <;> decide
  · rw [length_encodePackets_single, spaceOf_takesData hd]; push_cast; omega

theorem reliesOnSpace_takesData (hd : takesData fn = true) : reliesOnSpace fn = true := by
  revert hd; cases fn <;> decide

/-- **The out queue after a call.** -/
theorem call_sends (h : InRange s.inQueue) (hm : StoreValid s.memstore) (hv : Valid s.outQueue)
    (hf : reliesOnSpace fn = true → Fits s.outQueue 30) (hreset : fn ≠ .commandReset)
    (hr : callFunction env s tick fn = .ok r) : Sends env tick fn s r.2.outQueue := by
  rcases function_kinds fn with hone | hd | rfl | rfl | rfl
  · obtain ⟨packets, hs, hl, hsize, hrun⟩ := onePacket_answers env tick h hone
    rw [(hrun s.outQueue r hr).2 hv hf]
    exact .packet hs hl hsize
  · have hfit := hf (reliesOnSpace_takesData hd)
    cases data_call h hd hr with
    | rejected errorId _ => exact answerData_sends hv hfit hd 0 errorId
    | incomplete | short => exact .nothing
    | stored allocationId errorId => exact answerData_sends hv hfit hd allocationId errorId
  · exact absurd rfl hreset
  · rcases retrieveAlloc_spec h hm with ⟨a, ha, hrun⟩ | ⟨a, page, ha, hl, ⟨off, hpage⟩, hrun⟩
    · obtain ⟨-, -, hout⟩ := hrun s.outQueue r hr
      rw [hout hv (hf rfl)]
      have hlen : (byte retrieveAlloc :: (a ++ [1])).length = 5 := by simp [ha]
      refine .packet (sized_single (by omega)) le_rfl (.inl ⟨rfl, ?_⟩)
      rw [length_encodePackets_single, hlen]; decide
    · obtain ⟨-, ⟨-, -, hout⟩ | ⟨hsp, -, hout⟩⟩ := hrun s.outQueue r hr
      · rw [hout]; exact .nothing
      · rw [hout hv (hf rfl)]
        exact .page rfl ha hl hpage hsp
  · rcases shellexec_spec env h with ⟨hno, ⟨packets, hs, hl, hsize, hrun⟩, -⟩ |
        ⟨hread, result, he, hl, h0, hrun⟩
    · rw [(hrun s.outQueue r hr).2 hv hf]
      refine .packet hs hl ?_
      rw [answerSize, if_neg hno]
      exact hsize
    · obtain ⟨-, ⟨-, -, hout⟩ | ⟨hsp, -, hout⟩⟩ := hrun s.outQueue r hr
      · rw [hout]; exact .nothing
      · exact .result rfl hread he hl h0 hsp hout

/-! ## The exits of the data commands -/

theorem DataStep.inRange (h : InRange s.inQueue) (hs : DataStep env fn s r) : InRange r.2.inQueue := by
  cases hs with
  | rejected =>
    simp only [rejectData]
    rw [skipToNext_eq ((h.behind fn).inc 1)]
    exact ((h.behind fn).inc 1).inc _
  | incomplete | short => exact h.atData fn
  | stored _ _ _ _ _ hd =>
    rw [(readData_long (h.atData fn) hd).2]
    exact (h.atData fn).inc _

theorem DataStep.memstore (hm : StoreValid s.memstore) (hs : DataStep env fn s r) :
    StoreValid r.2.memstore := by
  cases hs with
  | rejected | incomplete | short => exact hm
  | stored _ _ _ _ _ _ hw => exact storeData_valid hw hm

theorem DataStep.commandStates (hs : DataStep env fn s r) :
    r.2.commandStates = s.commandStates := by
  cases hs <;> rfl

/-! ## Any call -/

/-- **A call leaves the server healthy.** -/
theorem Healthy.call (h : Healthy s) (hf : reliesOnSpace fn = true → Fits s.outQueue 30)
    (hr : callFunction env s tick fn = .ok r) : Healthy r.2 := by
  by_cases hreset : fn = .commandReset
  · subst hreset
    cases hr
    obtain ⟨-, hin, hout, hm, hst, -⟩ := reset_spec s
    exact ⟨by rw [hin]; exact (valid_initQueue _).toInRange,
      by rw [hout]; exact (valid_initQueue _).sendPackets _, by rw [hm]; exact storeValid_init _,
      by rw [hst]; exact onlyStaged_zero⟩
  have hv : Valid r.2.outQueue :=
    (call_sends h.inQueue h.memstore h.outQueue hf hreset hr).valid h.outQueue
  by_cases hd : takesData fn = true
  · have hs := data_call h.inQueue hd hr
    exact ⟨hs.inRange h.inQueue, hv, hs.memstore h.memstore,
      by rw [hs.commandStates]; exact h.commandStates⟩
  · have hp := plain_call h.inQueue h.memstore (Bool.eq_false_iff.2 hd) hreset hr
    exact ⟨by rw [hp.inQueue]; exact h.inQueue.inc _, hv, hp.memstore h.memstore,
      by rw [hp.commandStates]; exact h.commandStates⟩

end

end CpcLink
