/-
  Packets in a queue: what recognising, reading and writing them does to the
  unread bytes, and the round trip of a list of packets.
-/
import CpcLink.Proof.Fifo
import CpcLink.Proof.Frames

namespace CpcLink

section
variable {q : Queue}

/-! ## Looking ahead -/

theorem peek_eq_getD {k : ℕ} (hk : k < q.count) : q.peek k = q.unread.getD k 0 := by
  rw [List.getD_eq_getElem _ _ (by simpa using hk), getElem_unread]

theorem getPacketSize_eq (hc : 6 ≤ q.count) : getPacketSize q = frameSize q.unread := by
  rw [getPacketSize, frameSize, ← peek_eq_getD (by omega), ← peek_eq_getD (by omega)]
  push_cast; rfl

theorem getPacketType_eq (hc : 6 ≤ q.count) : getPacketType q = frameType q.unread := by
  rw [frameType, ← peek_eq_getD (by omega)]; rfl

theorem checkTerminator_eq {n : ℕ} (hc : n + 6 ≤ q.count) :
    checkPacketForTerminator q n = decide ((q.unread.drop (n + 3)).take 3 = minusMinusMinus) := by
  have hl : (q.unread.drop (n + 3)).length = q.count - (n + 3) := by simp
  have hd : (q.unread.drop (n + 3)).take 3 =
      [q.peek (3 + n), q.peek (3 + n + 1), q.peek (3 + n + 2)] := by
    refine List.ext_getElem (by rw [List.length_take, hl]; simp; omega) fun k h1 h2 => ?_
    rw [List.getElem_take, List.getElem_drop, getElem_unread]
    match k, h2 with
    | 0, _ | 1, _ | 2, _ => simp [Nat.add_comm, Nat.add_left_comm]
  rw [hd, checkPacketForTerminator, minusMinusMinus]
  simp only [frontDelimiterOverhead, List.cons.injEq, and_true]
  exact decide_eq_decide.2 (by rw [← readAhead_eq, ← readAhead_eq, ← readAhead_eq]; push_cast; rfl)

/-! ## Recognising -/

theorem skipLoop_eq : ∀ (n : ℕ) {q : Queue}, InRange q → 3 ≤ q.count → q.count ≤ n + 2 →
    skipLoop n q (q.unread.take 3) = (decide ((resync q.unread).take 3 = plusPlusPlus),
      incrementReadNextIndex q (q.count - (resync q.unread).length : ℕ))
  | 0, _, _, _, _ => by omega
  | n + 1, q, h, h3, hn => by
    have hl := length_unread q
    have h1 := h.unread_inc (a := 1) (by omega)
    have hc1 := h.count_inc (a := 1) (by omega)
    rw [Nat.cast_one] at h1 hc1
    by_cases hp : q.unread.take 3 = plusPlusPlus
    · rw [skipLoop, if_pos hp, resync_of_plus hp, hl, Nat.sub_self, Nat.cast_zero, h.inc_zero]
      simp [hp]
    · have hr : resync q.unread = resync (q.unread.drop 1) := by
        match hu : q.unread with
        | a :: b :: c :: rest =>
          rw [hu] at hp
          rw [resync, if_neg (by simpa using hp)]; rfl
        | [] | [_] | [_, _] => rw [hu] at hl; simp at hl; omega
      have hle := length_resync_le (q.unread.drop 1)
      rw [List.length_drop, hl] at hle
      rw [skipLoop, if_neg hp, getNextThree_unread (h.inc 1), hr]
      by_cases h4 : 3 ≤ (incrementReadNextIndex q 1).count
      · rw [if_pos h4]
        simp only
        rw [skipLoop_eq n (h.inc 1) h4 (by omega), h1, hc1, h.inc_inc (by omega) (by omega)]
        congr 2; omega
      · have hs : resync (q.unread.drop 1) = q.unread.drop 1 :=
          resync_of_short (by rw [List.length_drop]; omega)
        rw [if_neg h4, hs, List.length_drop, hl, show q.count - (q.count - 1) = 1 by omega]
        have : (q.unread.drop 1).take 3 ≠ plusPlusPlus := by
          intro he
          have := congrArg List.length he
          rw [List.length_take, List.length_drop] at this
          simp only [plusPlusPlus, List.length_cons, List.length_nil] at this; omega
        simp only [this, decide_false]; rfl

theorem skipToNext_eq (h : InRange q) : queueSkipToNextPacket q =
    (decide ((resync q.unread).take 3 = plusPlusPlus),
      incrementReadNextIndex q (q.count - (resync q.unread).length : ℕ)) := by
  rw [queueSkipToNextPacket, getNextThree_unread h]
  by_cases h3 : 3 ≤ q.count
  · rw [if_pos h3, h.numberBytes, Int.toNat_natCast]
    exact skipLoop_eq _ h h3 (by omega)
  · have hs : resync q.unread = q.unread := resync_of_short (by rw [length_unread]; omega)
    have : q.unread.take 3 ≠ plusPlusPlus := by
      intro he
      have := congrArg List.length he
      rw [List.length_take, length_unread] at this
      simp only [plusPlusPlus, List.length_cons, List.length_nil] at this; omega
    rw [if_neg h3, hs, length_unread, Nat.sub_self, Nat.cast_zero, h.inc_zero]
    simp [this]

/-- The queue after the noise in front of a packet. -/
def synced (q : Queue) : Queue :=
  incrementReadNextIndex q (q.count - (resync q.unread).length : ℕ)

theorem InRange.synced (h : InRange q) : InRange (synced q) := h.inc _

theorem Valid.synced (h : Valid q) : Valid (synced q) := h.inc (by omega)

theorem InRange.unread_synced (h : InRange q) : (CpcLink.synced q).unread = resync q.unread := by
  rw [CpcLink.synced, h.unread_inc (by omega)]
  have hdrop := List.suffix_iff_eq_drop.1 (resync_suffix q.unread)
  rw [length_unread] at hdrop
  exact hdrop.symm

theorem InRange.count_synced (h : InRange q) :
    (CpcLink.synced q).count = (resync q.unread).length := by
  rw [← length_unread, h.unread_synced]

/-- The recogniser of the code decides as `frameNext` does. -/
theorem isComplete_eq (h : InRange q) : isCompletePacketAvailable q =
    match frameNext (resync q.unread) with
    | none => (false, synced q)
    | some (k, none) => (false, incrementReadNextIndex (synced q) k)
    | some (_, some _) => (true, synced q) := by
  have hu := h.unread_synced
  have hc := h.count_synced
  have hn := h.synced.numberBytes
  have hsk : queueSkipToNextPacket q =
      (decide ((resync q.unread).take 3 = plusPlusPlus), synced q) := skipToNext_eq h
  unfold isCompletePacketAvailable frameNext
  simp only [hsk, decide_eq_true_eq, hn, hc]
  by_cases hp : (resync q.unread).take 3 = plusPlusPlus
  swap
  · have := (resync_front q.unread).resolve_right hp
    simp [hp, this]
  have h3 : ¬ (resync q.unread).length < 3 := by
    intro hlt
    have := congrArg List.length hp
    simp only [List.length_take, plusPlusPlus, List.length_cons, List.length_nil] at this; omega
  simp only [hp, if_true, h3, if_false, ne_eq, not_true]
  by_cases h6 : 6 ≤ (resync q.unread).length
  swap
  · rw [if_neg (by simp; omega), if_pos (by omega)]
  rw [if_pos (by simp; omega)]
  have hs : getPacketSize (synced q) = frameSize (resync q.unread) := by
    rw [getPacketSize_eq (by omega), hu]
  have ht : getPacketType (synced q) = frameType (resync q.unread) := by
    rw [getPacketType_eq (by omega), hu]
  simp only [hs, ht, packetDelimiterOverhead]
  by_cases hl : frameSize (resync q.unread) + 6 ≤ (resync q.unread).length
  swap
  · rw [if_neg (by omega), if_pos (by omega)]
  have he : checkPacketForTerminator (synced q) (frameSize (resync q.unread)) =
      decide (frameEnd (resync q.unread) = minusMinusMinus) := by
    rw [checkTerminator_eq (by omega), hu]; rfl
  have hlong : ¬ ((resync q.unread).length < 6 ∨
      (resync q.unread).length < frameSize (resync q.unread) + 6) := by omega
  rw [if_pos (by omega), if_neg hlong, he]
  unfold WellFormed
  by_cases hty : frameType (resync q.unread) = unknownPacket ∨
      frameType (resync q.unread) ≥ maxPacketType
  · simp only [hty, if_true, not_true, false_and, if_false]; push_cast; rfl
  · by_cases hend : frameEnd (resync q.unread) = minusMinusMinus
    · simp only [hty, hend, if_false, decide_true, Bool.true_eq_false, not_false_eq_true,
        and_self, if_true]
    · simp only [hty, hend, if_false, decide_false, if_true, and_false]; push_cast; rfl

/-- The head of the queue is a complete packet of this type and body. -/
def AtPacket (q : Queue) (ty : PacketType) (body rest : List BYTE) : Prop :=
  AcceptedType ty ∧ body.length ≤ 65532 ∧ q.unread = encode ty body ++ rest

theorem AtPacket.count {ty : PacketType} {body rest : List BYTE} (hp : AtPacket q ty body rest) :
    q.count = body.length + 9 + rest.length := by
  rw [← length_unread, hp.2.2]; simp

theorem synced_of_length (h : InRange q) (hl : (resync q.unread).length = q.count) :
    synced q = q := by
  rw [synced, hl, Nat.sub_self, Nat.cast_zero, h.inc_zero]

theorem synced_of_resync (h : InRange q) (hp : resync q.unread = q.unread) : synced q = q :=
  synced_of_length h (by rw [hp, length_unread])

theorem AtPacket.isComplete {ty : PacketType} {body rest : List BYTE} (h : InRange q)
    (hp : AtPacket q ty body rest) : isCompletePacketAvailable q = (true, q) := by
  obtain ⟨ht, hb, hu⟩ := hp
  have hr : resync q.unread = q.unread := by rw [hu, resync_encode]
  rw [isComplete_eq h, hr, hu, frameNext_encode ht hb]
  simp only [synced_of_resync h hr]

/-- When a packet is found, the queue is at it. -/
theorem isComplete_true (h : InRange q) (hc : (isCompletePacketAvailable q).1 = true) :
    (isCompletePacketAvailable q).2 = synced q ∧ ∃ ty body rest, AtPacket (synced q) ty body rest := by
  rw [isComplete_eq h] at hc ⊢
  match hf : frameNext (resync q.unread) with
  | none | some (k, none) => rw [hf] at hc; cases hc
  | some (k, some p) =>
    obtain ⟨ty, body, rest, ht, hb, hu, -⟩ := frameNext_eq_some hf
    exact ⟨rfl, ty, body, rest, ht, hb, h.unread_synced.trans hu⟩

/-- Recognising never adds unread bytes. -/
theorem isComplete_inRange (h : InRange q) : InRange (isCompletePacketAvailable q).2 ∧
    (isCompletePacketAvailable q).2.count ≤ q.count := by
  have hle := length_resync_le q.unread
  have hc := h.count_synced
  rw [length_unread] at hle
  rw [isComplete_eq h]
  match hf : frameNext (resync q.unread) with
  | none | some (k, some p) => exact ⟨h.synced, by simp only [hc]; omega⟩
  | some (k, none) =>
    have hk := frameNext_pos hf
    exact ⟨h.synced.inc _, by simp only [h.synced.count_inc (a := k) (by omega)]; omega⟩

/-! ## The packet at the head -/

variable {ty : PacketType} {body rest : List BYTE}

theorem AtPacket.packetSize (hp : AtPacket q ty body rest) :
    getPacketSize q = body.length + 3 := by
  rw [getPacketSize_eq (by have := hp.count; omega), hp.2.2, frameSize_encode ty hp.2.1]; push_cast; rfl

theorem AtPacket.bodySize (hp : AtPacket q ty body rest) :
    getPacketSize q - frontPacketOverhead = body.length := by
  rw [hp.packetSize, frontPacketOverhead, Int.add_sub_cancel]

theorem AtPacket.packetType (hp : AtPacket q ty body rest) : getPacketType q = ty := by
  rw [getPacketType_eq (by have := hp.count; omega), hp.2.2, frameType_encode]

/-- Reading the first `n` payload bytes. -/
theorem AtPacket.getData (h : InRange q) (hp : AtPacket q ty body rest) {n : ℕ}
    (hn : n ≤ body.length) :
    getDataFromPacket q n = (true, body.take n, incrementReadNextIndex q (6 + n : ℕ)) := by
  have hc := hp.count
  have h6 := h.inc 6
  have hu6 : (incrementReadNextIndex q 6).unread = body ++ (minusMinusMinus ++ rest) := by
    have := h.unread_inc (a := 6) (by omega)
    rw [Nat.cast_ofNat] at this
    rw [this, hp.2.2, encode_append]; rfl
  have hc6 : n ≤ (incrementReadNextIndex q 6).count := by
    rw [← length_unread, hu6]; simp; omega
  simp only [getDataFromPacket, hp.packetSize, frontPacketOverhead, frontDelimiterOverhead]
  rw [if_pos (by omega), Int.toNat_natCast, show (3 + 3 : ℤ) = 6 from rfl, readBytes_queue h6,
    readBytes_of_le h6 hc6, hu6, List.take_append_of_le_length hn, h.inc_inc (by omega) (by omega)]
  push_cast; rfl

/-- Stepping over a terminator. -/
theorem skipTerminator_eq (h : InRange q) : queueSkipTerminatorOfPacket q =
    if q.unread.take 3 = minusMinusMinus then incrementReadNextIndex q 3 else q := by
  rw [queueSkipTerminatorOfPacket, getNextThree_unread h]
  by_cases h3 : 3 ≤ q.count
  · simp only [if_pos h3]; rfl
  · have : q.unread.take 3 ≠ minusMinusMinus := by
      intro he
      have := congrArg List.length he
      rw [List.length_take, length_unread] at this
      simp only [minusMinusMinus, List.length_cons, List.length_nil] at this; omega
    simp only [if_neg h3, if_neg this]

end

end CpcLink
