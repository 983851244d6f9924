/-
  What one command does, for every command but `RESET`, `SALLOC` and `IALLOC`:
  it takes its parameters off the in queue, leaves the receive lock alone, keeps
  the store valid, and answers with packets that do not depend on the out queue.
-/
import CpcLink.Proof.Params
import CpcLink.Proof.Store
import CpcLink.Proof.Writing

namespace CpcLink

/-- The commands that come back for another step. -/
def staged : CommandFunction → Bool
  | .commandShutdown | .commandHelp | .commandReboot | .commandGetFile | .commandPutFile
  | .commandGetMemFile | .commandPutMemFile => true
  | _ => false

/-- What the plain commands have in common. -/
structure Plain (fn : CommandFunction) (s : Server) (r : Bool × Server) : Prop where
  inQueue : r.2.inQueue = incrementReadNextIndex s.inQueue (paramsLength fn s.inQueue)
  receive : r.2.binaryDataReceiveMode = s.binaryDataReceiveMode
  commandStates : r.2.commandStates = s.commandStates
  memstore : StoreValid s.memstore → StoreValid r.2.memstore
  staged : r.1 = false → staged fn ∨ fn = .commandRetrieveAlloc ∨ fn = .commandShellexec

/-- A command that takes no parameters and touches neither lock, table nor store. -/
theorem plain_noParams {fn : CommandFunction} {s : Server} (h : InRange s.inQueue)
    (hp : paramsLength fn s.inQueue = 0) {r : Bool × Server} (hin : r.2.inQueue = s.inQueue)
    (hrecv : r.2.binaryDataReceiveMode = s.binaryDataReceiveMode)
    (hst : r.2.commandStates = s.commandStates) (hm : r.2.memstore = s.memstore)
    (hd : r.1 = false → staged fn) : Plain fn s r :=
  ⟨by rw [hin, hp, Nat.cast_zero, h.inc_zero], hrecv, hst, by rw [hm]; exact id,
    fun hf => .inl (hd hf)⟩

/-! ## Answers -/

/-- A list of packets whose sizes fit into the header. -/
def Sized (packets : List (PacketType × List BYTE)) : Prop := ∀ p ∈ packets, p.2.length ≤ 65532

theorem sized_nil : Sized [] := fun _ h => by cases h

theorem sized_single {ty : PacketType} {body : List BYTE} (h : body.length ≤ 65532) :
    Sized [(ty, body)] := by
  intro p hp
  rw [List.mem_singleton.1 hp]; exact h

theorem Sized.cons {ty : PacketType} {body : List BYTE} {packets : List (PacketType × List BYTE)}
    (h : body.length ≤ 65532) (hs : Sized packets) : Sized ((ty, body) :: packets) := by
  intro p hp
  rcases List.mem_cons.1 hp with rfl | hp
  · exact h
  · exact hs p hp

section
variable {q : Queue}

theorem addBytes_eq (h : Valid q) (a b : List BYTE)
    (hn : (q.count : ℤ) + a.length + b.length < queueSize) :
    addBytesOfDataToPacket (a.foldl storeByte q) b = (a ++ b).foldl storeByte q := by
  induction b generalizing a with
  | nil => simp [addBytesOfDataToPacket]
  | cons x b ih =>
    rw [addBytesOfDataToPacket, List.foldl_cons, addByteOfDataToPacket,
      h.writeByte_after (by simp only [List.length_cons] at hn; push_cast at hn; omega)]
    have := ih (a ++ [x]) (by simp only [List.length_append, List.length_cons, List.length_nil] at *
                              push_cast at *; omega)
    rw [addBytesOfDataToPacket] at this
    rw [this, List.append_assoc]; rfl

/-- The parts of a packet, once its start found space. -/
theorem finish_eq (h : Valid q) {ty : PacketType} {body : List BYTE}
    (hf : Fits q (body.length + 9)) :
    finishBuildDataPacketAndSend ((front ty body.length ++ body).foldl storeByte q) =
      emit q ty body := by
  have hle := hf.le
  have hlf : (front ty body.length).length = 6 := rfl
  rw [finishBuildDataPacketAndSend, h.write_after, emit, encode_eq_front]
  · simp only [List.length_append, hlf]; push_cast; omega
  · simp only [List.length_append, hlf, minusMinusMinus, List.length_cons, List.length_nil]
    push_cast; omega

/-- An answer built byte by byte is whole when there is space for it. -/
theorem buildResponse_eq (h : Valid q) {payload : List BYTE} (hf : Fits q (payload.length + 9)) :
    buildResponse q payload = emit q binaryCommand payload := by
  have hle := hf.le
  have hlf : (front binaryCommand payload.length).length = 6 := rfl
  rw [buildResponse, h.startBuild (by omega), if_pos ((h.fits (by omega)).2 hf), addBytes_eq h _ _ (by
    rw [hlf]; push_cast; omega), finish_eq h hf]

theorem sendPackets_single (h : Valid q) (ty : PacketType) (body : List BYTE) :
    sendPackets q [(ty, body)] =
      if isQueueSpaceAvailable q (body.length + 9) then emit q ty body else q := by
  rw [sendPackets, List.foldl_cons, List.foldl_nil, h.writePacket]
  split <;> rfl

theorem Fits.mono {m n : ℤ} (hf : Fits q n) (hmn : m ≤ n) : Fits q m := by
  unfold Fits at *; omega

/-- A short answer to a command that the space check let in. -/
theorem respondBytes_eq {s : Server} (h : Valid s.outQueue) (hf : Fits s.outQueue 30)
    (commandId : Command) {params : List ℤ} (hl : params.length ≤ 6) :
    (respondBytes s commandId params).outQueue =
      sendPackets s.outQueue [(binaryCommand, byte commandId :: params.map byte)] := by
  have hf' : Fits s.outQueue ((byte commandId :: params.map byte).length + 9 : ℤ) :=
    hf.mono (by simp only [List.length_cons, List.length_map]; push_cast; omega)
  rw [sendPackets_single h, if_pos ((h.fits (by omega)).2 hf'), respondBytes,
    buildResponse_eq h hf']

/-- The answer of `PILALLOC` is built in pieces. -/
theorem loadResponse_eq {s : Server} (h : Valid s.outQueue) (hf : Fits s.outQueue 30)
    (allocationId fileSize errorId : ℤ) :
    (loadResponse s allocationId fileSize errorId).outQueue = sendPackets s.outQueue
      [(binaryCommand,
        byte loadAlloc :: byte allocationId :: (intBytes fileSize ++ [byte errorId]))] := by
  set payload := byte loadAlloc :: byte allocationId :: (intBytes fileSize ++ [byte errorId])
    with hpayload
  have hl : payload.length = 7 := rfl
  have hf' : Fits s.outQueue (payload.length + 9) := hf.mono (by rw [hl]; decide)
  rw [sendPackets_single h, if_pos ((h.fits (by omega)).2 hf'), ← buildResponse_eq h hf']
  rfl

end

end CpcLink
