/-
  Writing packets into a queue, and the round trip of a list of packets.

  A packet goes in whole, if the space check lets it in: each of its parts is
  then accepted.
-/
import CpcLink.Proof.Framing

namespace CpcLink

/-- The queue with a packet behind its unread bytes. -/
def emit (q : Queue) (ty : PacketType) (body : List BYTE) : Queue :=
  (encode ty body).foldl storeByte q

section
variable {q : Queue} {ty : PacketType}

theorem Valid.count_foldl (h : Valid q) {a : List BYTE} (ha : (q.count : ℤ) + a.length < queueSize) :
    (a.foldl storeByte q).count = q.count + a.length := by
  rw [← length_unread, (h.foldl_store a ha).2, List.length_append, length_unread]

/-- A part of a packet is accepted behind the parts before it. -/
theorem Valid.write_after (h : Valid q) {a b : List BYTE} (ha : (q.count : ℤ) + a.length < queueSize)
    (hab : (q.count : ℤ) + a.length + b.length ≤ queueSize) :
    writeDataToQueue (a.foldl storeByte q) b = (true, (a ++ b).foldl storeByte q) := by
  rw [(h.foldl_store a ha).1.write, h.count_foldl ha, if_pos (by push_cast; omega),
    List.foldl_append]

theorem Valid.writeByte_after (h : Valid q) {a : List BYTE}
    (ha : (q.count : ℤ) + a.length < queueSize) (b : BYTE) :
    writeByteOfDataToQueue (a.foldl storeByte q) b = (true, (a ++ [b]).foldl storeByte q) := by
  rw [(h.foldl_store a ha).1.writeByte, List.foldl_append]; rfl

/-- What the space check of `n` bytes lets in. -/
def Fits (q : Queue) (n : ℤ) : Prop :=
  (q.count = 0 ∧ n < queueSize) ∨ (0 < q.count ∧ n ≤ queueSize - q.count)

theorem Fits.le {n : ℤ} (hf : Fits q n) : (q.count : ℤ) + n ≤ queueSize := by
  rcases hf with ⟨h0, h⟩ | ⟨_, h⟩ <;> omega

theorem Valid.fits (h : Valid q) {n : ℤ} (hn : 0 < n) : isQueueSpaceAvailable q n = true ↔ Fits q n :=
  h.space hn

/-- The front of a packet whose payload has `n` bytes. -/
def front (ty : PacketType) (n : ℤ) : List BYTE := [43, 43, 43, byte (n + 3), byte ((n + 3) / 256), ty]

theorem encode_eq_front (ty : PacketType) (body : List BYTE) :
    encode ty body = front ty body.length ++ body ++ minusMinusMinus := by
  simp [encode, front, plusPlusPlus]

theorem Valid.startBuild (h : Valid q) {n : ℤ} (hn : 0 ≤ n) : startBuildDataPacket q n ty =
    if isQueueSpaceAvailable q (n + 9) then (true, (front ty n).foldl storeByte q) else (false, q) := by
  unfold startBuildDataPacket
  simp only [packetOverhead, frontPacketOverhead]
  by_cases hs : isQueueSpaceAvailable q (n + 9) = true
  · have hle := ((h.fits (by omega)).1 hs).le
    simp only [hs, if_true]
    have h0 := h.write_after (a := []) (b := plusPlusPlus) (by simp; omega)
      (by simp [plusPlusPlus]; omega)
    have h1 := h.write_after (a := plusPlusPlus) (b := [byte (n + 3)]) (by simp [plusPlusPlus]; omega)
      (by simp [plusPlusPlus]; omega)
    have h2 := h.write_after (a := plusPlusPlus ++ [byte (n + 3)]) (b := [byte ((n + 3) / 256)])
      (by simp [plusPlusPlus]; omega) (by simp [plusPlusPlus]; omega)
    have h3 := h.write_after (a := plusPlusPlus ++ [byte (n + 3)] ++ [byte ((n + 3) / 256)]) (b := [ty])
      (by simp [plusPlusPlus]; omega) (by simp [plusPlusPlus]; omega)
    simp only [List.foldl_nil, List.nil_append] at h0
    simp only [h0, h1, h2, h3]; rfl
  · simp only [hs, Bool.false_eq_true, if_false]

/-- **A packet is written whole or not at all.** -/
theorem Valid.writePacket (h : Valid q) (body : List BYTE) : writeDataToPacket q body ty =
    if isQueueSpaceAvailable q (body.length + 9) then (true, emit q ty body) else (false, q) := by
  have hst : startBuildDataPacket q body.length ty =
      if isQueueSpaceAvailable q (body.length + 9) then
        (true, (front ty body.length).foldl storeByte q) else (false, q) := h.startBuild (by omega)
  unfold writeDataToPacket
  unfold startBuildDataPacket at hst
  simp only [packetOverhead, frontPacketOverhead] at hst ⊢
  by_cases hs : isQueueSpaceAvailable q (body.length + 9) = true
  · have hle := ((h.fits (by omega)).1 hs).le
    have hlf : (front ty body.length).length = 6 := rfl
    simp only [hs, if_true, Prod.mk.injEq, true_and] at hst ⊢
    rw [hst, h.write_after (by rw [hlf]; push_cast; omega) (by rw [hlf]; push_cast; omega),
      h.write_after (by simp only [List.length_append, hlf]; push_cast; omega)
        (by simp only [List.length_append, hlf, minusMinusMinus, List.length_cons, List.length_nil]
            push_cast; omega), ← encode_eq_front]
    rfl
  · simp only [hs, Bool.false_eq_true, if_false]

theorem Valid.emit (h : Valid q) (body : List BYTE)
    (hn : (q.count : ℤ) + body.length + 9 < queueSize) :
    Valid (emit q ty body) ∧ (CpcLink.emit q ty body).unread = q.unread ++ encode ty body :=
  h.foldl_store _ (by rw [length_encode]; push_cast; omega)

/-! ### Whole or not at all -/

/-- What the six inner writes of a packet write. -/
def packetParts (ty : PacketType) (body : List BYTE) : List (List BYTE) :=
  [plusPlusPlus, [byte (body.length + 3)], [byte ((body.length + 3) / 256)], [ty], body] ++
    [minusMinusMinus]

/-- Every write of a list is accepted behind those before it. -/
def AllAccepted (q : Queue) : List (List BYTE) → Prop
  | [] => True
  | part :: parts =>
    (writeDataToQueue q part).1 = true ∧ AllAccepted (writeDataToQueue q part).2 parts

/-- A refused packet leaves the queue as it is; of one that is written every
    byte can be read; and no inner write fails once there is space. -/
structure WholeOrNothing (q : Queue) (ty : PacketType) (body : List BYTE) : Prop where
  refused : (writeDataToPacket q body ty).1 = false → (writeDataToPacket q body ty).2 = q
  written : (writeDataToPacket q body ty).1 = true →
    (writeDataToPacket q body ty).2.unread = q.unread ++ encode ty body
  inner : isQueueSpaceAvailable q (body.length + packetOverhead) = true →
    AllAccepted q (packetParts ty body)

theorem Valid.allAccepted (h : Valid q) {parts : List (List BYTE)} {last : List BYTE}
    (hlast : 0 < last.length) (hn : (q.count : ℤ) + (parts ++ [last]).flatten.length ≤ queueSize) :
    AllAccepted q (parts ++ [last]) := by
  induction parts generalizing q with
  | nil =>
    simp only [List.nil_append, List.flatten_cons, List.flatten_nil, List.append_nil] at hn ⊢
    have hw := h.write_after (a := []) (b := last) (by have := h.count_lt; simpa) (by simpa)
    exact ⟨congrArg Prod.fst hw, trivial⟩
  | cons part parts ih =>
    simp only [List.cons_append, List.flatten_cons, List.flatten_append, List.flatten_nil,
      List.append_nil, List.length_append, Nat.cast_add] at hn ih ⊢
    have hw := h.write_after (a := []) (b := part) (by have := h.count_lt; simpa)
      (by simp only [List.length_nil]; push_cast; omega)
    rw [List.foldl_nil, List.nil_append] at hw
    refine ⟨congrArg Prod.fst hw, ?_⟩
    rw [hw]
    have hfit : (q.count : ℤ) + part.length < queueSize := by omega
    exact ih (h.foldl_store part hfit).1 (by rw [h.count_foldl hfit]; push_cast; omega)

theorem flatten_packetParts (ty : PacketType) (body : List BYTE) :
    (packetParts ty body).flatten = encode ty body := by
  simp [packetParts, encode]

/-- A packet that fills the queue to the last cell makes it look empty. -/
theorem Valid.unread_emit_full (h : Valid q) {body : List BYTE}
    (hfull : (q.count : ℤ) + body.length + 9 = queueSize) :
    (CpcLink.emit q ty body).unread = [] := by
  have hc := (h.toInRange.foldl_store_mod (encode ty body)).2
  rw [length_encode, show (q.count : ℤ) + ((body.length + 9 : ℕ) : ℤ) = queueSize by
    push_cast; omega, Int.emod_self] at hc
  exact unread_eq_nil.2 (Nat.cast_eq_zero.1 hc)

/-- The check lets such a packet in: a queue that is not empty may be filled. -/
theorem Valid.writePacket_full (h : Valid q) {body : List BYTE} (hb : body.length ≤ 65532)
    (hfull : (q.count : ℤ) + body.length + 9 = queueSize) :
    writeDataToPacket q body ty = (true, CpcLink.emit q ty body) := by
  have hQ : queueSize = 131070 := rfl
  have hfit : Fits q (body.length + 9) := by
    right
    constructor <;> omega
  rw [h.writePacket, if_pos ((h.fits (by omega)).2 hfit)]

/-- A packet is stored if it leaves a cell free. -/
theorem Valid.stored_iff (h : Valid q) (body : List BYTE) :
    (writeDataToPacket q body ty).2.unread = q.unread ++ encode ty body ↔
      (q.count : ℤ) + body.length + 9 < queueSize := by
  have hw : writeDataToPacket q body ty = _ := h.writePacket body
  have hfits : isQueueSpaceAvailable q (body.length + 9) = true ↔ Fits q (body.length + 9) :=
    h.fits (by omega)
  constructor
  · intro hu
    by_contra hge
    have hlen := congrArg List.length hu
    rw [List.length_append, length_encode] at hlen
    by_cases hs : isQueueSpaceAvailable q (body.length + 9) = true
    · -- it fills the queue to the last cell
      have hle := (hfits.1 hs).le
      rw [hw, if_pos hs, h.unread_emit_full (by omega), List.length_nil] at hlen
      omega
    · rw [hw, if_neg hs] at hlen
      dsimp only at hlen
      omega
  · intro hlt
    have hfit : Fits q (body.length + 9) := by
      rcases Nat.eq_zero_or_pos q.count with h0 | h0
      · exact .inl ⟨h0, by omega⟩
      · exact .inr ⟨h0, by omega⟩
    rw [hw, if_pos (hfits.2 hfit)]
    exact (h.emit body hlt).2

theorem Valid.not_whole_full (h : Valid q) {body : List BYTE} (hb : body.length ≤ 65532)
    (hfull : (q.count : ℤ) + body.length + 9 = queueSize) : ¬ WholeOrNothing q ty body := by
  intro hwhole
  have hlt := (h.stored_iff body).1 (hwhole.written (by rw [h.writePacket_full hb hfull]))
  omega

/-- **A packet goes in whole or not at all** exactly if it does not fill the
    queue to the last cell. -/
theorem wholeOrNothing_iff (h : Valid q) {body : List BYTE} (hb : body.length ≤ 65532) :
    WholeOrNothing q ty body ↔ numberBytesInQueueToRead q + body.length + 9 ≠ queueSize := by
  have hw : writeDataToPacket q body ty = _ := h.writePacket body
  have hfits : isQueueSpaceAvailable q (body.length + 9) = true ↔ Fits q (body.length + 9) :=
    h.fits (by omega)
  rw [h.numberBytes]
  constructor
  · intro hwhole hfull
    exact h.not_whole_full hb hfull hwhole
  · intro hne
    refine ⟨fun hr => ?_, fun ht => ?_, fun hs => ?_⟩
    · by_cases hs : isQueueSpaceAvailable q (body.length + 9) = true
      · rw [hw, if_pos hs] at hr
        cases hr
      · rw [hw, if_neg hs]
    · have hs : isQueueSpaceAvailable q (body.length + 9) = true := by
        by_contra hs
        rw [hw, if_neg hs] at ht
        cases ht
      have hle := (hfits.1 hs).le
      exact (h.stored_iff body).2 (by omega)
    · have hle := (hfits.1 hs).le
      refine h.allAccepted (by decide) ?_
      change (q.count : ℤ) + (packetParts ty body).flatten.length ≤ queueSize
      rw [flatten_packetParts, length_encode]
      push_cast
      omega

/-- An instance: a packet into a queue with one unread byte, across the end of
    the array. -/
theorem wholeOrNothing_wrap : WholeOrNothing ⟨fun _ => 7, 131065, 131064⟩ 3 (bytes "+++---") := by
  refine (wholeOrNothing_iff ⟨⟨⟨by decide, by decide⟩, by decide, by decide⟩, by decide⟩ ?_).2 ?_
  · decide
  · decide

/-- One unread byte short of a packet that fills the queue: it is written, and
    nothing is left to read. -/
theorem packet_fills : let q : Queue := ⟨fun _ => 7, 131056, 0⟩
    (writeDataToPacket q (bytes "PING\n") 1).1 = true ∧
      (writeDataToPacket q (bytes "PING\n") 1).2.unread = [] ∧
      ¬ WholeOrNothing q 1 (bytes "PING\n") := by
  intro q
  have h : Valid q := ⟨⟨⟨by decide, by decide⟩, by decide, by decide⟩, by decide⟩
  have hb : (bytes "PING\n").length = 5 := by decide
  have hn : numberBytesInQueueToRead q = 131056 := by decide
  have hfull : (q.count : ℤ) + (bytes "PING\n").length + 9 = queueSize := by
    rw [← h.numberBytes, hn, hb]
    rfl
  have hw : writeDataToPacket q (bytes "PING\n") 1 = _ := h.writePacket_full (by omega) hfull
  refine ⟨by rw [hw], by rw [hw, h.unread_emit_full hfull], h.not_whole_full (by omega) hfull⟩

end

/-! ## The round trip -/

/-- Write packets one after the other. -/
def sendPackets (q : Queue) (packets : List (PacketType × List BYTE)) : Queue :=
  packets.foldl (fun q p => (writeDataToPacket q p.2 p.1).2) q

/-- Take packets off a queue until none is found, at most `n`. -/
def receivePackets : ℕ → Queue → List (PacketType × List BYTE) × Queue
  | 0, q => ([], q)
  | n + 1, q =>
    let r := isCompletePacketAvailable q
    if r.1 then
      let d := getDataFromPacket r.2 (getPacketSize r.2 - frontPacketOverhead)
      let s := receivePackets n (queueSkipTerminatorOfPacket d.2.2)
      ((getPacketType r.2, d.2.1) :: s.1, s.2)
    else ([], r.2)

def encodePackets (packets : List (PacketType × List BYTE)) : List BYTE :=
  packets.flatMap fun p => encode p.1 p.2

theorem sendPackets_unread (packets : List (PacketType × List BYTE)) {q : Queue} (h : Valid q)
    (hn : (q.count : ℤ) + (encodePackets packets).length < queueSize) :
    Valid (sendPackets q packets) ∧
      (sendPackets q packets).unread = q.unread ++ encodePackets packets := by
  induction packets generalizing q with
  | nil => exact ⟨h, by simp [sendPackets, encodePackets]⟩
  | cons p packets ih =>
    have hl : (encodePackets (p :: packets)).length =
        p.2.length + 9 + (encodePackets packets).length := by simp [encodePackets]
    rw [hl] at hn; push_cast at hn
    have hw : (writeDataToPacket q p.2 p.1).2 = emit q p.1 p.2 := by
      rw [h.writePacket, if_pos ((h.fits (by omega)).2 (by unfold Fits; omega))]
    obtain ⟨hv, hu⟩ : Valid (emit q p.1 p.2) ∧ (emit q p.1 p.2).unread = q.unread ++ encode p.1 p.2 :=
      h.emit p.2 (by omega)
    have hc : (emit q p.1 p.2).count = q.count + (p.2.length + 9) := by
      rw [← length_unread, hu]; simp
    obtain ⟨hv', hu'⟩ := ih hv (by rw [hc]; push_cast; omega)
    rw [show sendPackets q (p :: packets) = sendPackets (emit q p.1 p.2) packets by
      rw [← hw]; rfl]
    refine ⟨hv', ?_⟩
    rw [hu', hu, List.append_assoc]; simp [encodePackets]

/-- Taking one packet off leaves what is behind it. -/
theorem AtPacket.take {q : Queue} {ty : PacketType} {body rest : List BYTE} (h : InRange q)
    (hp : AtPacket q ty body rest) :
    (getDataFromPacket q (getPacketSize q - frontPacketOverhead)).2.1 = body ∧
      queueSkipTerminatorOfPacket (getDataFromPacket q (getPacketSize q - frontPacketOverhead)).2.2 =
        incrementReadNextIndex q (body.length + 9 : ℕ) := by
  have hc := hp.count
  rw [hp.bodySize, hp.getData h le_rfl]
  refine ⟨List.take_length, ?_⟩
  have hu := h.unread_inc (a := 6 + body.length) (by omega)
  rw [hp.2.2, Nat.add_comm 6, drop_encode] at hu
  simp only
  rw [Nat.add_comm 6, skipTerminator_eq (h.inc _), hu, if_pos (by rfl),
    h.inc_inc (by omega) (by omega)]
  congr 1

theorem receivePackets_unread (packets : List (PacketType × List BYTE)) {q : Queue} (h : InRange q)
    (hps : ∀ p ∈ packets, AcceptedType p.1 ∧ p.2.length ≤ 65532)
    (hu : q.unread = encodePackets packets) {n : ℕ} (hn : packets.length < n) :
    InRange (receivePackets n q).2 ∧ (receivePackets n q).1 = packets ∧
      (receivePackets n q).2.unread = [] := by
  induction packets generalizing q n with
  | nil =>
    obtain ⟨n, rfl⟩ := Nat.exists_eq_succ_of_ne_zero (Nat.ne_of_gt hn)
    have hu' : q.unread = [] := hu
    have hc : isCompletePacketAvailable q = (false, q) := by
      rw [isComplete_eq h, hu']
      simp only [resync, frameNext, List.length_nil, Nat.zero_lt_succ, if_true]
      rw [synced_of_resync h (by rw [hu']; rfl)]
    simp [receivePackets, hc, hu', h]
  | cons p packets ih =>
    obtain ⟨n, rfl⟩ := Nat.exists_eq_succ_of_ne_zero (Nat.ne_of_gt (Nat.zero_lt_of_lt hn))
    obtain ⟨ht, hb⟩ := hps p (by simp)
    have hp : AtPacket q p.1 p.2 (encodePackets packets) := ⟨ht, hb, by rw [hu]; simp [encodePackets]⟩
    obtain ⟨hd, hs⟩ := hp.take h
    have hnext := h.unread_inc (a := p.2.length + 9) (by have := hp.count; omega)
    have hdrop : q.unread.drop (p.2.length + 9) = encodePackets packets := by
      rw [hp.2.2]; exact List.drop_left' (by simp)
    obtain ⟨h0, h1, h2⟩ := ih (h.inc _) (fun p' hp' => hps p' (by simp [hp']))
      (hnext.trans hdrop) (n := n) (by simpa using hn)
    simp only [receivePackets, hp.isComplete h, if_true, hp.packetType, hd, hs, h0, h1, h2, and_self]

/-- **Framing is transparent.**  Packets that fit into an empty queue come out
    as they went in, and leave it empty. -/
theorem framing_roundtrip (q : Queue) (hr : 0 ≤ q.readNextByte) (hrQ : q.readNextByte < queueSize)
    (hempty : q.storeNextByte = q.readNextByte) (packets : List (PacketType × List BYTE))
    (hps : ∀ p ∈ packets, 1 ≤ p.1 ∧ p.1 ≤ 4 ∧ p.2.length ≤ 65532)
    (hn : ((encodePackets packets).length : ℤ) < queueSize) (n : ℕ) (hfuel : packets.length < n) :
    (receivePackets n (sendPackets q packets)).1 = packets ∧
      numberBytesInQueueToRead (receivePackets n (sendPackets q packets)).2 = 0 := by
  have h : Valid q := ⟨⟨⟨by have := queueSize_pos; omega, hrQ⟩, by omega, by omega⟩, hr⟩
  have h0 : q.count = 0 := h.count_eq_zero.2 hempty
  obtain ⟨hv, hu⟩ := sendPackets_unread packets h (by rw [h0]; simpa using hn)
  rw [unread_eq_nil.2 h0, List.nil_append] at hu
  have hacc : ∀ p ∈ packets, AcceptedType p.1 ∧ p.2.length ≤ 65532 := by
    intro p hp
    obtain ⟨h1, h4, hb⟩ := hps p hp
    exact ⟨⟨fun h0 => by rw [h0] at h1; exact absurd h1 (by decide),
      UInt8.lt_of_le_of_lt h4 (by decide)⟩, hb⟩
  obtain ⟨hr', h1, h2⟩ := receivePackets_unread packets hv.toInRange hacc hu hfuel
  exact ⟨h1, by rw [hr'.numberBytes, unread_eq_nil.1 h2]; rfl⟩

/-- An instance: a text and a packet with delimiters in its payload, at the end
    of the ring. -/
theorem framing_roundtrip_wrap :
    let q : Queue := ⟨fun _ => 7, 131060, 131060⟩
    let packets : List (PacketType × List BYTE) := [(1, bytes "PING\n"), (3, bytes "+++---")]
    (receivePackets 3 (sendPackets q packets)).1 = packets ∧
      numberBytesInQueueToRead (receivePackets 3 (sendPackets q packets)).2 = 0 :=
  framing_roundtrip _ (by decide) (by decide) rfl _ (by decide) (by decide) 3 (by decide)

end CpcLink
