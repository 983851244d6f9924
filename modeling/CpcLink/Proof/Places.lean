/-
  Places in the ring, counted from the packet at the head of a queue: behind a
  terminator, where the next packet starts, behind the parameters of a command.
-/
import CpcLink.Proof.Dispatch

namespace CpcLink

/-- The place behind a terminator, if there is one at `n`. -/
def skipPlace (q : Queue) (n : ℕ) : ℕ :=
  if (incrementReadNextIndex q n).unread.take 3 = minusMinusMinus then n + 3 else n

/-- The first place from `n` on where a packet starts, or where the unread bytes
    run out.  If `n` is past the unread bytes this goes round the ring. -/
def nextPlace (q : Queue) (n : ℕ) : ℕ :=
  n + ((incrementReadNextIndex q n).count - (resync (incrementReadNextIndex q n).unread).length)

/-- The place is the packet at the head again. -/
def ComesRound (q : Queue) (n : ℕ) : Prop := (n : ℤ) = queueSize ∧ 0 ≤ q.readNextByte

/-- The place behind the parameters of `SALLOC` and `IALLOC`. -/
def behindPlace (q : Queue) (c : Command) (k : ℕ) : ℕ := skipPlace q (paramsEnd q c k)

section
variable {q : Queue}

theorem InRange.skip_place (h : InRange q) (n : ℕ) :
    queueSkipTerminatorOfPacket (incrementReadNextIndex q n) =
      incrementReadNextIndex q (skipPlace q n) := by
  rw [skipTerminator_eq (h.inc n), skipPlace]
  split
  · exact h.inc_nat n 3
  · rfl

theorem InRange.next_place (h : InRange q) (n : ℕ) :
    (queueSkipToNextPacket (incrementReadNextIndex q n)).2 =
      incrementReadNextIndex q (nextPlace q n) := by
  rw [skipToNext_eq (h.inc n), h.inc_nat]; rfl

theorem skipPlace_le (q : Queue) (n : ℕ) : n ≤ skipPlace q n ∧ skipPlace q n ≤ n + 3 := by
  unfold skipPlace; split <;> omega

theorem InRange.nextPlace_le (h : InRange q) (n : ℕ) :
    n ≤ nextPlace q n ∧ (nextPlace q n : ℤ) < n + queueSize := by
  have := (h.inc n).count_lt
  unfold nextPlace; omega

/-- A place less than two rounds away is the packet only if it comes round. -/
theorem InRange.place_eq (h : InRange q) {n : ℕ} (h0 : 0 < n) (hn : (n : ℤ) < 2 * queueSize) :
    (incrementReadNextIndex q n).readNextByte = q.readNextByte ↔ ComesRound q n :=
  CircularBuffer.move_eq_self h.read (by omega) hn

theorem InRange.behind_place (h : InRange q) (c : Command) (k : ℕ) :
    behind (functionOf c) (incrementReadNextIndex q k) =
      incrementReadNextIndex q (behindPlace q c k) := by
  rw [behind, h.inc_nat, behindPlace, paramsEnd, h.skip_place]

/-- Where a packet starts, or the unread bytes run out, there is no terminator. -/
theorem InRange.skip_next (h : InRange q) (n : ℕ) :
    skipPlace q (nextPlace q n) = nextPlace q n := by
  have hu := (h.inc n).unread_synced
  rw [CpcLink.synced, h.inc_nat] at hu
  rw [skipPlace, nextPlace, hu, if_neg]
  intro he
  rcases resync_front (incrementReadNextIndex q n).unread with hl | hp
  · have := congrArg List.length he
    rw [List.length_take] at this
    simp only [minusMinusMinus, List.length_cons, List.length_nil] at this; omega
  · rw [he] at hp; exact absurd hp (by decide)

theorem InRange.behind (h : InRange q) (fn : CommandFunction) : InRange (behind fn q) := by
  rw [CpcLink.behind, skipTerminator_eq (h.inc _)]
  split
  · exact (h.inc _).inc _
  · exact h.inc _

theorem InRange.atData (h : InRange q) (fn : CommandFunction) : InRange (atData fn q) :=
  (isComplete_inRange (h.behind fn)).1

/-- A data packet that was found is at the place where the next packet starts. -/
theorem InRange.atData_place (h : InRange q) {c : Command} {k : ℕ}
    (hc : (isCompletePacketAvailable (CpcLink.behind (functionOf c) (incrementReadNextIndex q k))).1 =
      true) :
    CpcLink.atData (functionOf c) (incrementReadNextIndex q k) =
      incrementReadNextIndex q (nextPlace q (behindPlace q c k)) := by
  rw [CpcLink.atData, (isComplete_true ((h.inc k).behind _) hc).1, CpcLink.synced, h.behind_place, h.inc_nat]
  rfl

/-- Looking for a packet moves the read index and nothing else. -/
theorem isComplete_frame (h : InRange q) : (isCompletePacketAvailable q).2.data = q.data ∧
    (isCompletePacketAvailable q).2.storeNextByte = q.storeNextByte := by
  rw [isComplete_eq h]
  cases frameNext (resync q.unread) with
  | none => exact ⟨rfl, rfl⟩
  | some decision =>
    obtain ⟨_, packet⟩ := decision
    cases packet <;> exact ⟨rfl, rfl⟩

end

end CpcLink
