/-
  A queue as the list of its unread bytes.

  The readers only need the indices in range (`InRange`; the read index may be
  the one below the array), and what they do is known whether or not they stay
  within the unread bytes: `peek` sees any cell, and the count is kept modulo
  the size.  The writers need the read index in the array (`Valid`).
-/
import CpcLink.Queue
import CpcLink.Lib.CircularBuffer

namespace CpcLink

open CircularBuffer

/-- The number of unread bytes. -/
def Queue.count (q : Queue) : ℕ := (numberBytesInQueueToRead q).toNat

/-- The byte `k` places ahead of the read index, unread or not. -/
def Queue.peek (q : Queue) (k : ℕ) : BYTE := cell q.data queueSize q.readNextByte k

/-- The unread bytes. -/
def Queue.unread (q : Queue) : List BYTE := window q.data queueSize q.readNextByte q.count

/-- The indices can be stepped: the store index is in the array, the read index
    in it or below it. -/
structure InRange (q : Queue) : Prop where
  read : Index queueSize q.readNextByte
  storeNonneg : 0 ≤ q.storeNextByte
  storeLt : q.storeNextByte < queueSize

/-- Both indices are in the array. -/
structure Valid (q : Queue) : Prop extends InRange q where
  readNonneg : 0 ≤ q.readNextByte

theorem queueSize_pos : 0 < queueSize := by decide

theorem valid_initQueue (q : Queue) : Valid (initQueue q) :=
  ⟨⟨⟨show -queueSize < 0 by decide, queueSize_pos⟩, le_rfl, queueSize_pos⟩, le_rfl⟩

/-! ## The count -/

section
variable {q : Queue}

theorem InRange.numberBytes (h : InRange q) : numberBytesInQueueToRead q = q.count :=
  (Int.toNat_of_nonneg (gap_nonneg h.read h.storeNonneg)).symm

theorem InRange.count_lt (h : InRange q) : (q.count : ℤ) < queueSize := by
  rw [← h.numberBytes]; exact gap_lt h.read

theorem count_initQueue (q : Queue) : (initQueue q).count = 0 := by
  simp [Queue.count, numberBytesInQueueToRead, initQueue]

@[simp] theorem length_unread (q : Queue) : q.unread.length = q.count := length_window _ _

theorem getElem_unread {k : ℕ} (h : k < q.unread.length) : q.unread[k] = q.peek k :=
  getElem_window _ _ _ h

theorem unread_eq_nil : q.unread = [] ↔ q.count = 0 := by
  rw [← List.length_eq_zero_iff, length_unread]

/-! ## Stepping the read index -/

theorem InRange.inc (h : InRange q) (k : ℤ) : InRange (incrementReadNextIndex q k) :=
  ⟨h.read.move k, h.storeNonneg, h.storeLt⟩

theorem Valid.inc (h : Valid q) {k : ℤ} (hk : 0 ≤ k) : Valid (incrementReadNextIndex q k) :=
  ⟨h.toInRange.inc k, move_nonneg (by have := h.readNonneg; omega)⟩

theorem InRange.inc_zero (h : InRange q) : incrementReadNextIndex q 0 = q := by
  have := move_zero h.read
  unfold incrementReadNextIndex; unfold move at this; rw [this]

theorem InRange.inc_inc (h : InRange q) {a b : ℤ} (ha : 0 ≤ a) (hb : 0 ≤ b) :
    incrementReadNextIndex (incrementReadNextIndex q a) b = incrementReadNextIndex q (a + b) := by
  have := move_move h.read ha hb
  unfold incrementReadNextIndex; unfold move at this; rw [this]

theorem InRange.current (h : InRange q) : getCurrentReadByte q = q.peek 0 := by
  rw [getCurrentReadByte, Queue.peek, cell, Nat.cast_zero, move_zero h.read]

theorem readAhead_eq (q : Queue) (k : ℕ) : queueReadAheadByte q k = q.peek k := rfl

theorem InRange.peek_inc (h : InRange q) (a k : ℕ) :
    (incrementReadNextIndex q a).peek k = q.peek (a + k) :=
  cell_move h.read a k

/-- Stepping past the last unread byte wraps the count around. -/
theorem InRange.count_inc_mod (h : InRange q) (a : ℕ) :
    ((incrementReadNextIndex q a).count : ℤ) = (q.count - a) % queueSize := by
  rw [← (h.inc a).numberBytes, ← h.numberBytes]
  exact gap_move h.read h.storeNonneg (by omega)

theorem InRange.count_inc (h : InRange q) {a : ℕ} (ha : a ≤ q.count) :
    (incrementReadNextIndex q a).count = q.count - a := by
  have := h.count_inc_mod a
  have := h.count_lt
  rw [Int.emod_eq_of_lt (by omega) (by omega)] at *
  omega

theorem InRange.unread_inc (h : InRange q) {a : ℕ} (ha : a ≤ q.count) :
    (incrementReadNextIndex q a).unread = q.unread.drop a := by
  rw [Queue.unread, h.count_inc ha]; exact window_move h.read a q.count

/-- Stepping by less than the size moves the read index. -/
theorem InRange.inc_ne (h : InRange q) {a : ℤ} (ha : 0 < a) (haQ : a < queueSize) :
    (incrementReadNextIndex q a).readNextByte ≠ q.readNextByte := by
  have hne := move_ne (N := queueSize) h.read le_rfl ha haQ
  have h1 := h.read.gt
  rw [move_zero h.read] at hne
  by_cases hr : 0 ≤ q.readNextByte + a
  · exact fun he => hne hr he.symm
  · exact fun he => by
      have := move_of_neg h.read ha.le (by omega)
      unfold move at this
      simp only [incrementReadNextIndex] at he; omega

/-! ## Reading -/

theorem readBytes_queue (h : InRange q) (n : ℕ) :
    (readBytes n q).2 = incrementReadNextIndex q n := by
  induction n generalizing q with
  | zero => exact h.inc_zero.symm
  | succ n ih =>
    simp only [readBytes]
    rw [ih (h.inc 1), h.inc_inc (by omega) (by omega)]
    congr 1; push_cast; omega

theorem readBytes_bytes (h : InRange q) (n : ℕ) :
    (readBytes n q).1 = window q.data queueSize q.readNextByte n := by
  induction n generalizing q with
  | zero => rfl
  | succ n ih =>
    simp only [readBytes]
    rw [ih (h.inc 1), window_succ h.read, getCurrentReadByte]; rfl

/-- Reading within the unread bytes takes the first of them. -/
theorem readBytes_of_le (h : InRange q) {n : ℕ} (hn : n ≤ q.count) :
    (readBytes n q).1 = q.unread.take n := by
  rw [readBytes_bytes h]
  refine List.ext_getElem (by simpa using hn) fun k h1 h2 => ?_
  rw [getElem_window, List.getElem_take, getElem_unread]; rfl

theorem getNextThree_unread (h : InRange q) : getNextThreeBytesFromQueue q =
    if 3 ≤ q.count then some (q.unread.take 3) else none := by
  rw [getNextThreeBytesFromQueue, h.numberBytes]
  by_cases h3 : 3 ≤ q.count
  · rw [if_pos (by omega), if_pos h3, readBytes_of_le h h3]
  · rw [if_neg (by omega), if_neg h3]

end

/-! ## Writing -/

section
variable {q : Queue}

/-- The queue is empty when the indices are equal. -/
theorem Valid.count_eq_zero (h : Valid q) : q.count = 0 ↔ q.storeNextByte = q.readNextByte := by
  have hc := h.numberBytes
  constructor
  · intro h0
    by_contra hne
    have := gap_pos h.read h.readNonneg h.storeNonneg h.storeLt hne
    unfold numberBytesInQueueToRead at hc; unfold gap at this; omega
  · intro he
    have := gap_self (N := queueSize) q.readNextByte
    unfold numberBytesInQueueToRead at hc; unfold gap at this; rw [he] at hc; omega

theorem Valid.free (h : Valid q) :
    numberFreeBytesInQueueToWriteToo q = queueSize - q.count := by
  unfold numberFreeBytesInQueueToWriteToo
  by_cases he : q.storeNextByte = q.readNextByte
  · rw [if_pos he, h.count_eq_zero.2 he]; simp
  · rw [if_neg he, room_eq h.read h.readNonneg h.storeNonneg h.storeLt he, ← h.numberBytes]; rfl

/-- The space check of a packet: into an empty queue fits less than its size,
    into any other one all that is free. -/
theorem Valid.space (h : Valid q) {n : ℤ} (hn : 0 < n) : isQueueSpaceAvailable q n = true ↔
    (q.count = 0 ∧ n < queueSize) ∨ (0 < q.count ∧ n ≤ queueSize - q.count) := by
  unfold isQueueSpaceAvailable
  rw [h.count_eq_zero, Nat.pos_iff_ne_zero, ne_eq, h.count_eq_zero]
  by_cases he : q.storeNextByte = q.readNextByte
  · have hroom : (queueSize - q.storeNextByte + q.readNextByte).tmod queueSize = 0 := by
      rw [he, Int.sub_add_cancel, Int.tmod_self]
    by_cases hs : queueSize > n
    · simp only [he, hs, and_self, if_true, not_true, false_and, or_false]
    · rw [if_neg (fun h => hs h.2), hroom]
      simp only [he, ge_iff_le, decide_eq_true_eq, true_and, not_true, false_and, or_false]
      omega
  · rw [if_neg (fun h => he h.1), room_eq h.read h.readNonneg h.storeNonneg h.storeLt he]
    simp only [he, ge_iff_le, decide_eq_true_eq, false_and, not_false_eq_true, true_and, false_or]
    rw [← h.numberBytes]; rfl

theorem InRange.store (h : InRange q) (b : BYTE) : InRange (storeByte q b) :=
  ⟨h.read, Int.tmod_nonneg _ (by have := h.storeNonneg; simp only [storeToCurrentWriteByte]; omega),
    Int.tmod_lt_of_pos _ queueSize_pos⟩

theorem Valid.store (h : Valid q) (b : BYTE) : Valid (storeByte q b) :=
  ⟨h.toInRange.store b, h.readNonneg⟩

/-- Storing a byte steps the count modulo the size. -/
theorem InRange.count_store_mod (h : InRange q) (b : BYTE) :
    ((storeByte q b).count : ℤ) = (q.count + 1) % queueSize := by
  rw [← (h.store b).numberBytes, ← h.numberBytes]
  exact gap_store h.read h.storeNonneg (by omega)

theorem Valid.count_store (h : Valid q) (b : BYTE) (hn : (q.count : ℤ) + 1 < queueSize) :
    (storeByte q b).count = q.count + 1 := by
  have := h.toInRange.count_store_mod b
  rw [Int.emod_eq_of_lt (by omega) hn] at this; omega

theorem Valid.unread_store (h : Valid q) (b : BYTE) (hn : (q.count : ℤ) + 1 < queueSize) :
    (storeByte q b).unread = q.unread ++ [b] := by
  have hr := h.readNonneg
  have hstore : q.storeNextByte = move queueSize q.readNextByte q.count := by
    rw [← h.numberBytes]
    exact (move_gap h.read h.storeNonneg h.storeLt (by
      have := gap_nonneg h.read h.storeNonneg; omega)).symm
  rw [Queue.unread, h.count_store b hn]
  exact window_update h.read h.count_lt (by omega) hstore b

/-- Storing bytes that leave a cell free appends them. -/
theorem Valid.foldl_store (h : Valid q) (data : List BYTE)
    (hn : (q.count : ℤ) + data.length < queueSize) :
    Valid (data.foldl storeByte q) ∧ (data.foldl storeByte q).unread = q.unread ++ data := by
  induction data generalizing q with
  | nil => exact ⟨h, by simp⟩
  | cons b data ih =>
    simp only [List.length_cons, Nat.cast_add, Nat.cast_one] at hn
    have hc := h.count_store b (by omega)
    obtain ⟨hv, hu⟩ := ih (h.store b) (by rw [hc]; push_cast; omega)
    refine ⟨hv, ?_⟩
    rw [List.foldl_cons, hu, h.unread_store b (by omega), List.append_assoc]; rfl

theorem InRange.foldl_store_mod (h : InRange q) (data : List BYTE) :
    InRange (data.foldl storeByte q) ∧
      ((data.foldl storeByte q).count : ℤ) = (q.count + data.length) % queueSize := by
  induction data generalizing q with
  | nil => exact ⟨h, by simp [Int.emod_eq_of_lt (Int.natCast_nonneg _) h.count_lt]⟩
  | cons b data ih =>
    obtain ⟨hr, hc⟩ := ih (h.store b)
    refine ⟨hr, ?_⟩
    rw [List.foldl_cons, hc, h.count_store_mod, Int.emod_add_emod]
    congr 1; simp only [List.length_cons]; push_cast; omega

theorem foldl_store_read (data : List BYTE) (q : Queue) :
    (data.foldl storeByte q).readNextByte = q.readNextByte := by
  induction data generalizing q with
  | nil => rfl
  | cons b data ih => rw [List.foldl_cons, ih]; rfl

end

end CpcLink
