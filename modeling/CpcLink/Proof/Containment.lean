/-
  Where a dispatch leaves the read index.

  A packet is taken off whole if the parameters of its command end where its
  body ends, or behind its terminator when no other one follows.  The readers
  are not told where the body ends, so this is a condition on the client:
  `containment_iff`.
-/
import CpcLink.Proof.Places

namespace CpcLink

/-- The queue behind the packet at the head. -/
def behindPacket (q : Queue) (body : List BYTE) : Queue :=
  incrementReadNextIndex q (body.length + 9 : ℕ)

section
variable {q : Queue} {ty : PacketType} {body rest : List BYTE}

/-- Steps of different lengths, both less than the size, end at different places. -/
theorem InRange.inc_inj (h : InRange q) {a b : ℕ} (ha : (a : ℤ) < queueSize)
    (hb : (b : ℤ) < queueSize) :
    (incrementReadNextIndex q a).readNextByte = (incrementReadNextIndex q b).readNextByte ↔
      a = b := by
  have lt : ∀ {a b : ℕ}, (b : ℤ) < queueSize → a < b →
      (incrementReadNextIndex q b).readNextByte ≠ (incrementReadNextIndex q a).readNextByte :=
    fun {a b} hb hab => by
      have := (h.inc a).inc_ne (a := (b - a : ℕ)) (by omega) (by omega)
      rwa [h.inc_nat, Nat.add_sub_cancel' hab.le] at this
  constructor
  · intro he
    rcases Nat.lt_trichotomy a b with hab | hab | hab
    · exact absurd he.symm (lt hb hab)
    · exact hab
    · exact absurd he (lt ha hab)
  · rintro rfl
    rfl

/-- The bytes behind the body. -/
theorem AtPacket.unread_end (h : InRange q) (hp : AtPacket q ty body rest) :
    (incrementReadNextIndex q (body.length + 6 : ℕ)).unread = minusMinusMinus ++ rest := by
  rw [h.unread_inc (by have := hp.count; omega), hp.2.2, drop_encode]

theorem AtPacket.unread_behind (h : InRange q) (hp : AtPacket q ty body rest) :
    (behindPacket q body).unread = rest := by
  rw [behindPacket, h.unread_inc (by have := hp.count; omega), hp.2.2]
  exact List.drop_left' (by simp)

theorem InRange.below (h : InRange q) : InRange { q with readNextByte := -1 } :=
  ⟨⟨show -queueSize < -1 by decide, show -1 < queueSize by decide⟩, h.storeNonneg, h.storeLt⟩

/-- The terminator lies across the end of the array. -/
theorem StepsBelow.behindPacket (hs : StepsBelow q body) :
    (behindPacket q body).readNextByte = 2 := by
  obtain ⟨hl, -, hr⟩ := hs
  simp only [CpcLink.behindPacket, incrementReadNextIndex, hl]
  rw [show q.readNextByte = queueSize - 36 by omega]
  rfl

/-- Its last two bytes are at the start of the array. -/
theorem StepsBelow.cell (h : InRange q) (hp : AtPacket q ty body rest) (hs : StepsBelow q body)
    {k : ℕ} (h1 : 1 ≤ k) (h3 : k < 3) : q.data (k - 1) = 45 := by
  obtain ⟨hl, -, hr⟩ := hs
  have hQ : queueSize = 131070 := rfl
  have hu := hp.unread_end h
  rw [hl] at hu
  have hc : 3 ≤ (incrementReadNextIndex q (29 + 6 : ℕ)).count := by
    rw [← length_unread, hu]; simp [minusMinusMinus]
  have hpeek := peek_eq_getD (q := incrementReadNextIndex q (29 + 6 : ℕ)) (k := k) (by omega)
  rw [h.peek_inc, ← readAhead_eq, queueReadAheadByte,
    show q.readNextByte + ((29 + 6 + k : ℕ) : ℤ) = (k - 1 : ℤ) + queueSize by push_cast; omega,
    Int.tmod_eq_emod_of_nonneg (by omega), Int.add_emod_right, Int.emod_eq_of_lt (by omega) (by omega),
    hu] at hpeek
  rw [hpeek]
  have hk : k = 1 ∨ k = 2 := by omega
  rcases hk with rfl | rfl <;> rfl

/-- Enough bytes are unread from the cell in front of the array on. -/
theorem StepsBelow.count (h : InRange q) (hp : AtPacket q ty body rest) (hs : StepsBelow q body) :
    3 ≤ ({ q with readNextByte := -1 } : Queue).count := by
  obtain ⟨hl, -, hr⟩ := hs
  have hQ : queueSize = 131070 := rfl
  have hu := hp.unread_end h
  rw [hl] at hu
  have hc : 3 ≤ (incrementReadNextIndex q (29 + 6 : ℕ)).count := by
    rw [← length_unread, hu]; simp [minusMinusMinus]
  -- the last cell and the cell in front of the array are counted alike
  have h1 : (queueSize + q.storeNextByte - -1).tmod queueSize = _ := h.below.numberBytes
  have h2 : (queueSize + q.storeNextByte - _).tmod queueSize = _ :=
    (h.inc (29 + 6 : ℕ)).numberBytes
  have hread : (incrementReadNextIndex q (29 + 6 : ℕ)).readNextByte = queueSize - 1 := by
    simp only [incrementReadNextIndex]
    rw [show q.readNextByte = queueSize - 36 by omega]
    rfl
  have hsn := h.storeNonneg
  rw [hread, show queueSize + q.storeNextByte - (queueSize - 1) = q.storeNextByte + 1 by omega,
    Int.tmod_eq_emod_of_nonneg (by omega)] at h2
  rw [show queueSize + q.storeNextByte - -1 = q.storeNextByte + 1 + queueSize by omega,
    Int.tmod_eq_emod_of_nonneg (by omega), Int.add_emod_right] at h1
  omega

end

/-- A text packet at the start of a queue. -/
def textPacket (text : String) : List BYTE := encode textCommand (bytes text)

theorem atPacket_text (text : String) (rest : List BYTE) (hl : (bytes text).length ≤ 60000)
    (hr : rest.length ≤ 60000) :
    AtPacket (queueOf (textPacket text ++ rest)) textCommand (bytes text) rest :=
  atPacket_queueOf (by decide) (by rw [show queueSize = 131070 from rfl]; omega) (by omega)

end CpcLink
