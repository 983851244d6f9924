/-
  The queue as a FIFO: what was accepted is what was read and what is unread.

  There is no element count, so a queue that is filled to the last cell looks
  empty.  `fifo_lossless_iff`: bytes are lost exactly when a write does that.
-/
import Mathlib.Data.List.Induction
import Mathlib.Data.Nat.Cast.Order.Basic
import CpcLink.Proof.QueueView

namespace CpcLink

/-- What can be done with a queue. -/
inductive QueueOp where
  | writeData (data : List BYTE)
  | writeByte (dataByte : BYTE)
  /-- the main loop stores a byte from the interface -/
  | intake (b : BYTE)
  | getData (numberOfBytesRequired : ℕ)

/-- A queue, with the bytes accepted and the bytes read so far. -/
structure FifoRun where
  queue : Queue
  accepted : List BYTE
  consumed : List BYTE

def fifoStep (st : FifoRun) : QueueOp → FifoRun
  | .writeData data =>
    let r := writeDataToQueue st.queue data
    { st with queue := r.2, accepted := st.accepted ++ if r.1 then data else [] }
  | .writeByte dataByte =>
    let r := writeByteOfDataToQueue st.queue dataByte
    { st with queue := r.2, accepted := st.accepted ++ if r.1 then [dataByte] else [] }
  | .intake b =>
    if numberFreeBytesInQueueToWriteToo st.queue > 0 then
      { st with queue := storeByte st.queue b, accepted := st.accepted ++ [b] }
    else st
  | .getData n =>
    let r := getDataFromQueue st.queue n
    { st with queue := r.2.2, consumed := st.consumed ++ r.2.1 }

/-- A run from `init_queue`. -/
def fifoRun (q : Queue) (ops : List QueueOp) : FifoRun :=
  ops.foldl fifoStep ⟨initQueue q, [], []⟩

/-- The bytes read and the bytes unread are the bytes accepted, in order, and
    the count is right. -/
structure Lossless (st : FifoRun) : Prop where
  bytes : st.consumed ++ st.queue.unread = st.accepted
  count : numberBytesInQueueToRead st.queue = st.accepted.length - st.consumed.length

/-- The number of bytes an operation writes, if it is accepted. -/
def QueueOp.size : QueueOp → ℕ
  | .writeData data => data.length
  | .writeByte _ => 1
  | .intake _ => 1
  | .getData _ => 0

/-- The operation writes exactly as many bytes as are free. -/
def FillsExactly (q : Queue) (op : QueueOp) : Prop :=
  (op.size : ℤ) = queueSize - numberBytesInQueueToRead q

/-! ## One step -/

theorem Valid.write (h : Valid q) (data : List BYTE) : writeDataToQueue q data =
    if (data.length : ℤ) ≤ queueSize - q.count then (true, data.foldl storeByte q)
    else (false, q) := by
  rw [writeDataToQueue, h.free]

theorem Valid.writeByte (h : Valid q) (b : BYTE) :
    writeByteOfDataToQueue q b = (true, storeByte q b) := by
  have := h.count_lt
  rw [writeByteOfDataToQueue, h.free, if_pos (by omega)]

theorem Valid.get (h : Valid q) (n : ℕ) : getDataFromQueue q n =
    if n ≤ q.count then (true, q.unread.take n, incrementReadNextIndex q n)
    else (false, [], q) := by
  rw [getDataFromQueue, h.numberBytes]
  by_cases hn : n ≤ q.count
  · simp only [ge_iff_le, Nat.cast_le, hn, if_true, Int.toNat_natCast, readBytes_queue h.toInRange,
      readBytes_of_le h.toInRange hn]
  · simp only [ge_iff_le, Nat.cast_le, hn, if_false]

/-- The state after bytes were stored. -/
def FifoRun.stored (st : FifoRun) (data : List BYTE) : FifoRun :=
  { st with queue := data.foldl storeByte st.queue, accepted := st.accepted ++ data }

/-- What a step does: it stores bytes that are not more than are free, or takes
    bytes that are not more than are unread, or nothing. -/
theorem fifoStep_cases {st : FifoRun} (h : Valid st.queue) (op : QueueOp) :
    (∃ data : List BYTE, data.length = op.size ∧ (data.length : ℤ) ≤ queueSize - st.queue.count ∧
      fifoStep st op = st.stored data) ∨
    (op.size = 0 ∧ ∃ n ≤ st.queue.count, fifoStep st op =
      { st with queue := incrementReadNextIndex st.queue n
                consumed := st.consumed ++ st.queue.unread.take n }) ∨
    (queueSize - st.queue.count < op.size ∨ op.size = 0) ∧ fifoStep st op = st := by
  have hlt := h.count_lt
  cases op with
  | writeData data =>
    by_cases hd : (data.length : ℤ) ≤ queueSize - st.queue.count
    · refine .inl ⟨data, rfl, hd, ?_⟩
      simp only [fifoStep, h.write, hd, if_true, FifoRun.stored]
    · refine .inr (.inr ⟨.inl (by simpa [QueueOp.size] using hd), ?_⟩)
      simp only [fifoStep, h.write, hd, if_false, Bool.false_eq_true, List.append_nil]
  | writeByte b =>
    refine .inl ⟨[b], rfl, by simp only [List.length_singleton]; omega, ?_⟩
    simp only [fifoStep, h.writeByte, if_true]; rfl
  | intake b =>
    refine .inl ⟨[b], rfl, by simp only [List.length_singleton]; omega, ?_⟩
    simp only [fifoStep, h.free]
    rw [if_pos (by omega)]; rfl
  | getData n =>
    by_cases hn : n ≤ st.queue.count
    · refine .inr (.inl ⟨rfl, n, hn, ?_⟩)
      simp only [fifoStep, h.get, hn, if_true]
    · refine .inr (.inr ⟨.inr rfl, ?_⟩)
      simp only [fifoStep, h.get, hn, if_false, List.append_nil]

theorem fifoStep_valid {st : FifoRun} (h : Valid st.queue) (op : QueueOp) :
    Valid (fifoStep st op).queue := by
  obtain ⟨data, _, _, he⟩ | ⟨_, n, _, he⟩ | ⟨_, he⟩ := fifoStep_cases h op
  · rw [he]
    exact ⟨(h.toInRange.foldl_store_mod data).1, by
      rw [FifoRun.stored, foldl_store_read]; exact h.readNonneg⟩
  · rw [he]; exact h.inc (by omega)
  · rw [he]; exact h

/-- A step that does not fill the queue to the last cell loses nothing. -/
theorem Lossless.step {st : FifoRun} (hl : Lossless st) (h : Valid st.queue) {op : QueueOp}
    (hf : ¬ FillsExactly st.queue op) : Lossless (fifoStep st op) := by
  have hc := hl.count
  unfold FillsExactly at hf
  rw [h.numberBytes] at hf hc
  obtain ⟨data, hd, hle, he⟩ | ⟨_, n, hn, he⟩ | ⟨_, he⟩ := fifoStep_cases h op
  · obtain ⟨hv, hu⟩ := h.foldl_store data (by omega)
    rw [he]
    constructor
    · rw [FifoRun.stored, hu, ← List.append_assoc, hl.bytes]
    · simp only [FifoRun.stored]
      rw [hv.numberBytes, ← length_unread, hu, List.length_append, List.length_append, length_unread]
      push_cast; omega
  · rw [he]
    constructor
    · simp only [h.toInRange.unread_inc hn, List.append_assoc, List.take_append_drop, hl.bytes]
    · simp only [(h.inc (Int.natCast_nonneg n)).numberBytes, h.toInRange.count_inc hn,
        List.length_append, List.length_take, length_unread, Nat.min_eq_left hn]
      push_cast [Nat.cast_sub hn]; omega
  · rw [he]; exact hl

/-- A step that fills the queue to the last cell hides all that is unread. -/
theorem Lossless.fills {st : FifoRun} (hl : Lossless st) (h : Valid st.queue) {op : QueueOp}
    (hf : FillsExactly st.queue op) : ¬ Lossless (fifoStep st op) := by
  have hc := hl.count
  have hlt := h.count_lt
  unfold FillsExactly at hf
  rw [h.numberBytes] at hf hc
  obtain ⟨data, hd, hle, he⟩ | ⟨h0, _⟩ | ⟨h0, _⟩ := fifoStep_cases h op
  · obtain ⟨hr, hm⟩ := h.toInRange.foldl_store_mod data
    rw [show (st.queue.count : ℤ) + data.length = queueSize by omega, Int.emod_self] at hm
    intro hl'
    have := hl'.count
    rw [he] at this
    simp only [FifoRun.stored, hr.numberBytes, List.length_append] at this
    push_cast at this; omega
  · omega
  · omega

/-! ## Runs -/

theorem fifoRun_append (q : Queue) (ops : List QueueOp) (op : QueueOp) :
    fifoRun q (ops ++ [op]) = fifoStep (fifoRun q ops) op := by
  simp [fifoRun]

theorem fifoRun_valid (q : Queue) (ops : List QueueOp) : Valid (fifoRun q ops).queue := by
  induction ops using List.reverseRecOn with
  | nil => exact valid_initQueue q
  | append_singleton ops op ih => rw [fifoRun_append]; exact fifoStep_valid ih op

theorem lossless_start (q : Queue) : Lossless (fifoRun q []) := by
  have hu : (initQueue q).unread = [] := unread_eq_nil.2 (count_initQueue q)
  have hn := (valid_initQueue q).numberBytes
  exact ⟨by simpa [fifoRun] using hu, by simpa [fifoRun, count_initQueue] using hn⟩

/-- **The queue is a FIFO exactly as long as no write fills it to the last
    cell.** -/
theorem fifo_lossless_iff (q : Queue) (ops : List QueueOp) :
    (∀ pre post, ops = pre ++ post → Lossless (fifoRun q pre)) ↔
      ∀ pre op post, ops = pre ++ op :: post → ¬ FillsExactly (fifoRun q pre).queue op := by
  constructor
  · intro h pre op post he hf
    refine (h pre (op :: post) he).fills (fifoRun_valid q pre) hf ?_
    rw [← fifoRun_append]
    exact h (pre ++ [op]) post (by simp [he])
  · intro h pre
    induction pre using List.reverseRecOn with
    | nil => exact fun _ _ => lossless_start q
    | append_singleton pre op ih =>
      intro post he
      have he' : ops = pre ++ op :: post := by simp [he]
      rw [fifoRun_append]
      exact (ih (op :: post) he').step (fifoRun_valid q pre) (h pre op post he')

/-- Writing as many bytes as the queue has cells is accepted, and the queue then
    looks empty. -/
theorem fifo_full (q : Queue) {data : List BYTE} (hd : (data.length : ℤ) = queueSize) :
    (fifoRun q [.writeData data]).accepted = data ∧ ¬ Lossless (fifoRun q [.writeData data]) := by
  have hv := valid_initQueue q
  have hc := count_initQueue q
  have hf : FillsExactly (fifoRun q []).queue (.writeData data) :=
    hd.trans (by rw [fifoRun, List.foldl_nil, hv.numberBytes, hc]; simp)
  refine ⟨?_, (lossless_start q).fills hv hf⟩
  simp only [fifoRun, List.foldl_cons, List.foldl_nil, fifoStep, hv.write, hc]
  rw [if_pos (by rw [hd]; simp)]; simp

/-- A run that loses bytes: one write of 131070 zeros into the empty queue. -/
theorem fifo_full_lost : ¬ ∀ ops, Lossless (fifoRun ⟨fun _ => 0, 0, 0⟩ ops) := by
  have hd : ((List.replicate 131070 (0 : BYTE)).length : ℤ) = queueSize := by
    rw [List.length_replicate]; rfl
  exact fun h => (fifo_full ⟨fun _ => 0, 0, 0⟩ hd).2 (h _)

end CpcLink
