/-
  Building a packet in pieces (packet.c): the payload is added chunk by chunk
  between `start_build_data_packet` and `finish_build_data_packet_and_send`.

  After each chunk the queue is the one with the header and the chunks so far
  stored, byte by byte (`chunks_after`); hence the pieces make the packet
  `write_data_to_packet` writes (`building_agrees`).
-/
import CpcLink.Proof.Handlers

namespace CpcLink

/-- What one call adds to the payload. -/
inductive Chunk
  | data (data : List BYTE)
  | byte (dataByte : BYTE)
  | threeBytes (byte1 byte2 byte3 : BYTE)
  | fourBytes (byte1 byte2 byte3 byte4 : BYTE)
  | fiveBytes (byte1 byte2 byte3 byte4 byte5 : BYTE)
  | int (value : ℤ)

/-- The payload bytes of a chunk. -/
def Chunk.bytes : Chunk → List BYTE
  | .data d => d
  | .byte b => [b]
  | .threeBytes a b c => [a, b, c]
  | .fourBytes a b c d => [a, b, c, d]
  | .fiveBytes a b c d e => [a, b, c, d, e]
  | .int value => intBytes value

/-- The call that adds it. -/
def Chunk.add (q : Queue) : Chunk → Queue
  | .data d => addDataToPacket q d
  | .byte b => addByteOfDataToPacket q b
  | .threeBytes a b c => addBytesOfDataToPacket q [a, b, c]
  | .fourBytes a b c d => addBytesOfDataToPacket q [a, b, c, d]
  | .fiveBytes a b c d e => addBytesOfDataToPacket q [a, b, c, d, e]
  | .int value => addIntToPacket q value

/-- The payload the chunks make. -/
def payload (chunks : List Chunk) : List BYTE := chunks.flatMap Chunk.bytes

@[simp] theorem payload_cons (c : Chunk) (chunks : List Chunk) :
    payload (c :: chunks) = c.bytes ++ payload chunks := rfl

/-- Start a packet, add the chunks and finish it. -/
def buildInPieces (q : Queue) (chunks : List Chunk) (ty : PacketType) : Queue :=
  finishBuildDataPacketAndSend
    (chunks.foldl Chunk.add (startBuildDataPacket q (payload chunks).length ty).2)

section
variable {q : Queue}

/-- A chunk behind the bytes `a` is stored byte by byte. -/
theorem chunk_after (h : Valid q) (c : Chunk) (a : List BYTE)
    (hn : (q.count : ℤ) + a.length + c.bytes.length < queueSize) :
    c.add (a.foldl storeByte q) = (a ++ c.bytes).foldl storeByte q := by
  cases c with
  | data d => exact congrArg Prod.snd (h.write_after (by omega) (le_of_lt hn))
  | byte b => exact congrArg Prod.snd (h.writeByte_after (by omega) b)
  | threeBytes | fourBytes | fiveBytes | int => exact addBytes_eq h _ _ hn

theorem chunks_after (h : Valid q) (chunks : List Chunk) (a : List BYTE)
    (hn : (q.count : ℤ) + a.length + (payload chunks).length < queueSize) :
    chunks.foldl Chunk.add (a.foldl storeByte q) = (a ++ payload chunks).foldl storeByte q := by
  induction chunks generalizing a with
  | nil => simp [payload]
  | cons c chunks ih =>
    rw [payload_cons, List.length_append, Nat.cast_add] at hn
    have hstep := chunk_after h c a (by omega)
    have hrest := ih (a ++ c.bytes) (by rw [List.length_append, Nat.cast_add]; omega)
    rw [List.foldl_cons, hstep, hrest, payload_cons, List.append_assoc]

end

/-- **Building in pieces and writing at once agree.**  With more free space than
    the payload and 9 bytes, the packet is started, and the queue in the end is
    the one `write_data_to_packet` leaves, however the payload was cut. -/
theorem building_agrees (q : Queue) (hstore : 0 ≤ q.storeNextByte)
    (hstoreQ : q.storeNextByte < queueSize) (hread : 0 ≤ q.readNextByte)
    (hreadQ : q.readNextByte < queueSize) (ty : PacketType) (chunks : List Chunk)
    (hfree : numberFreeBytesInQueueToWriteToo q > (payload chunks).length + 9) :
    (startBuildDataPacket q (payload chunks).length ty).1 = true ∧
      buildInPieces q chunks ty = (writeDataToPacket q (payload chunks) ty).2 := by
  have h : Valid q := ⟨⟨⟨by have := queueSize_pos; omega, hreadQ⟩, hstore, hstoreQ⟩, hread⟩
  have hcount : (q.count : ℤ) + (payload chunks).length + 9 < queueSize := by
    rw [h.free] at hfree
    omega
  have hlf : (front ty (payload chunks).length).length = 6 := rfl
  have hfit : Fits q ((payload chunks).length + 9) := by
    unfold Fits
    omega
  have hspace := (h.fits (n := (payload chunks).length + 9) (by omega)).2 hfit
  have hstart : startBuildDataPacket q (payload chunks).length ty = _ := h.startBuild (by omega)
  rw [if_pos hspace] at hstart
  have hpieces := chunks_after h chunks (front ty (payload chunks).length) (by
    rw [hlf]; push_cast; omega)
  refine ⟨by rw [hstart], ?_⟩
  calc buildInPieces q chunks ty
      = finishBuildDataPacketAndSend (chunks.foldl Chunk.add
          ((front ty (payload chunks).length).foldl storeByte q)) := by rw [buildInPieces, hstart]
    _ = finishBuildDataPacketAndSend
          ((front ty (payload chunks).length ++ payload chunks).foldl storeByte q) := by rw [hpieces]
    _ = emit q ty (payload chunks) := finish_eq h hfit
    _ = (writeDataToPacket q (payload chunks) ty).2 := by rw [h.writePacket, if_pos hspace]

/-- An instance: a file answer in five chunks, across the end of the array. -/
theorem building_agrees_wrap :
    let q : Queue := ⟨fun _ => 7, 131066, 131064⟩
    let chunks : List Chunk :=
      [.byte 26, .int 70000, .data (bytes "+++"), .threeBytes 1 2 3, .data []]
    (startBuildDataPacket q (payload chunks).length 2).1 = true ∧
      buildInPieces q chunks 2 = (writeDataToPacket q (payload chunks) 2).2 :=
  building_agrees _ (by decide) (by decide) (by decide) (by decide) 2 _ (by decide)

end CpcLink
