/-
  `SALLOC` and `IALLOC`, the commands whose data comes in a packet behind them.

  Both go through the same exits: the request is rejected and what looks like
  its data packet skipped, the packet is not complete, it is too short, or its
  bytes go into the store.  `DataStep` has a case for each.
-/
import CpcLink.Proof.Handlers
import CpcLink.Processor

namespace CpcLink

def takesData : CommandFunction → Bool
  | .commandStoreAlloc | .commandInsertAlloc => true
  | _ => false

def dataCommand : CommandFunction → Command
  | .commandStoreAlloc => storeAlloc
  | _ => insertAlloc

/-! ## The request -/

def allocationIdOf (q : Queue) : ℤ := (getCommandNext8bitParamBin q).1
def pageNumberOf (q : Queue) : ℤ :=
  (getCommandNext16bitParamBin (getCommandNext8bitParamBin q).2).1
def insertAtOf (q : Queue) : ℤ := (getCommandNext32bitParamBin (getCommandNext8bitParamBin q).2).1
def insertLengthOf (q : Queue) : ℤ :=
  (getCommandNext32bitParamBin (getCommandNext32bitParamBin (getCommandNext8bitParamBin q).2).2).1

/-- The number of bytes the command wants: a page, or what the client says. -/
def dataWant (fn : CommandFunction) (s : Server) : ℤ :=
  match fn with
  | .commandStoreAlloc => memstoreGetPageSizeBytes s.memstore (allocationIdOf s.inQueue)
  | _ => insertLengthOf s.inQueue

/-- The checks in front of the data fail. -/
def DataRejected (env : Env) (fn : CommandFunction) (s : Server) : Prop :=
  match fn with
  | .commandStoreAlloc => env.calloc (dataWant fn s + 1) = false ∨ dataWant fn s = 0 ∨
      pageNumberOf s.inQueue > 9999
  | _ => env.calloc (wrap32 (dataWant fn s + 1)) = false ∨
      wrap32 (insertAtOf s.inQueue + dataWant fn s) >
        memstoreGetAllocSizeBytes s.memstore (allocationIdOf s.inQueue)

instance (env : Env) (fn : CommandFunction) (s : Server) : Decidable (DataRejected env fn s) :=
  decidable_of_iff (if fn = .commandStoreAlloc then
      env.calloc (dataWant fn s + 1) = false ∨ dataWant fn s = 0 ∨ pageNumberOf s.inQueue > 9999
    else env.calloc (wrap32 (dataWant fn s + 1)) = false ∨
      wrap32 (insertAtOf s.inQueue + dataWant fn s) >
        memstoreGetAllocSizeBytes s.memstore (allocationIdOf s.inQueue)) (by cases fn <;> rfl)

/-- Where the data packet is looked for: behind the parameters, and the
    terminator if there is one. -/
def behind (fn : CommandFunction) (q : Queue) : Queue :=
  queueSkipTerminatorOfPacket (incrementReadNextIndex q (paramsLength fn q))

/-- The queue at the data packet. -/
def atData (fn : CommandFunction) (q : Queue) : Queue := (isCompletePacketAvailable (behind fn q)).2

/-- The store gets data from a packet. -/
def storeData (fn : CommandFunction) (s : Server) (data : List BYTE) :
    Except Fault (Bool × Memstore) :=
  match fn with
  | .commandStoreAlloc =>
    memstoreStorePageOfData s.memstore (allocationIdOf s.inQueue) (pageNumberOf s.inQueue) data
  | _ => memstoreInsertData s.memstore (allocationIdOf s.inQueue) (insertAtOf s.inQueue)
      (dataWant fn s) data

/-- The payload of the answer, without the command id. -/
def dataAnswer (fn : CommandFunction) (q : Queue) (allocationId errorId : ℤ) : List BYTE :=
  match fn with
  | .commandStoreAlloc =>
    [byte allocationId, byte (pageNumberOf q % 256), byte (pageNumberOf q / 256), byte errorId]
  | _ => [byte allocationId, byte errorId]

def answerData (fn : CommandFunction) (s : Server) (allocationId errorId : ℤ) : Queue :=
  buildResponse s.outQueue
    (byte (dataCommand fn) :: dataAnswer fn s.inQueue allocationId errorId)

/-! ## The exits -/

/-- The state after a request was rejected. -/
def rejectData (fn : CommandFunction) (s : Server) (errorId : ℤ) : Server :=
  { s with
    inQueue := (queueSkipToNextPacket (incrementReadNextIndex (behind fn s.inQueue) 1)).2
    outQueue := answerData fn s 0 errorId }

/-- The state while the data packet is not complete. -/
def awaitData (fn : CommandFunction) (s : Server) : Server :=
  { s with
    inQueue := atData fn s.inQueue
    binaryDataReceiveMode := wrap32 (dataWant fn s + packetOverhead -
      numberBytesInQueueToRead (atData fn s.inQueue)) }

/-- The data of a packet, if it is as long as was asked for. -/
def readData (fn : CommandFunction) (s : Server) : Bool × List BYTE × Queue :=
  getDataFromPacket (atData fn s.inQueue) (dataWant fn s)

/-- What happens to a request that is not rejected. -/
def dataExits (fn : CommandFunction) (s : Server) : Except Fault (Bool × Server) :=
  if (isCompletePacketAvailable (behind fn s.inQueue)).1 = false then .ok (false, awaitData fn s)
  else if (readData fn s).1 = false then .ok (true, { s with inQueue := (readData fn s).2.2 })
  else do
    let w ← storeData fn s (readData fn s).2.1
    let s' := { s with inQueue := (readData fn s).2.2, memstore := w.2 }
    if w.1 then return (true, { s' with outQueue := answerData fn s (allocationIdOf s.inQueue) 0 })
    else return (true, { s' with outQueue := answerData fn s 0 1 })

/-- The exits of the two commands, each with the state it leaves. -/
inductive DataStep (env : Env) (fn : CommandFunction) (s : Server) : Bool × Server → Prop
  | rejected (errorId : ℤ) : DataRejected env fn s →
      DataStep env fn s (true, rejectData fn s errorId)
  | incomplete : ¬ DataRejected env fn s →
      (isCompletePacketAvailable (behind fn s.inQueue)).1 = false →
      DataStep env fn s (false, awaitData fn s)
  | short : ¬ DataRejected env fn s →
      (isCompletePacketAvailable (behind fn s.inQueue)).1 = true → (readData fn s).1 = false →
      DataStep env fn s (true, { s with inQueue := atData fn s.inQueue })
  | stored (allocationId errorId : ℤ) (w : Bool × Memstore) : ¬ DataRejected env fn s →
      (isCompletePacketAvailable (behind fn s.inQueue)).1 = true → (readData fn s).1 = true →
      storeData fn s (readData fn s).2.1 = .ok w →
      DataStep env fn s (true, { s with
        inQueue := (readData fn s).2.2
        memstore := w.2
        outQueue := answerData fn s allocationId errorId })

/-- The data reaches the store, and writing it leaves the allocation. -/
def StoreFaults (env : Env) (fn : CommandFunction) (s : Server) : Prop :=
  ¬ DataRejected env fn s ∧ (isCompletePacketAvailable (behind fn s.inQueue)).1 = true ∧
    (readData fn s).1 = true ∧ ∃ e, storeData fn s (readData fn s).2.1 = .error e

/-- The end of an insertion wraps. -/
def Overruns (fn : CommandFunction) (s : Server) : Prop :=
  fn = .commandInsertAlloc ∧
    InsertWraps s.memstore (allocationIdOf s.inQueue) (insertAtOf s.inQueue) (insertLengthOf s.inQueue)

/-- A command ends in one of the exits, or it faults. -/
def DataSpec (env : Env) (fn : CommandFunction) (s : Server)
    (run : Except Fault (Bool × Server)) : Prop :=
  (∃ r, run = .ok r ∧ DataStep env fn s r) ∨ (StoreFaults env fn s ∧ ∃ e, run = .error e)

section
variable {env : Env} {s : Server}

theorem dataParams_le {fn : CommandFunction} (hd : takesData fn = true) (q : Queue) :
    3 ≤ paramsLength fn q ∧ paramsLength fn q ≤ 9 := by
  revert hd; cases fn <;> simp [takesData, paramsLength]

theorem behind_store (h : InRange s.inQueue) : behind .commandStoreAlloc s.inQueue =
    queueSkipTerminatorOfPacket
      (getCommandNext16bitParamBin (getCommandNext8bitParamBin s.inQueue).2).2 := by
  rw [next8_queue, next16_queue (h.inc _), h.inc_nat]; rfl

theorem behind_insert (h : InRange s.inQueue) : behind .commandInsertAlloc s.inQueue =
    queueSkipTerminatorOfPacket (getCommandNext32bitParamBin
      (getCommandNext32bitParamBin (getCommandNext8bitParamBin s.inQueue).2).2).2 := by
  rw [next8_queue, next32_queue (h.inc _), h.inc_nat, next32_queue (h.inc _), h.inc_nat]; rfl

/-- A store of the data cannot break the store. -/
theorem storeData_valid {fn : CommandFunction} {data : List BYTE} {r : Bool × Memstore}
    (hr : storeData fn s data = .ok r) (hm : StoreValid s.memstore) : StoreValid r.2 := by
  unfold storeData at hr
  split at hr
  · exact memstoreStore_valid hm hr
  · exact memstoreInsert_valid hm hr

theorem readData_short {fn : CommandFunction} (hd : (readData fn s).1 = false) :
    (readData fn s).2.2 = atData fn s.inQueue := by
  unfold readData getDataFromPacket at *
  dsimp only at *
  split at hd
  · cases hd
  next h => rw [if_neg h]

/-- Enough data is read behind the header of the packet. -/
theorem readData_long {fn : CommandFunction} (h : InRange (atData fn s.inQueue))
    (hd : (readData fn s).1 = true) :
    dataWant fn s ≤ getPacketSize (atData fn s.inQueue) - frontPacketOverhead ∧
      (readData fn s).2.2 =
        incrementReadNextIndex (atData fn s.inQueue) (6 + (dataWant fn s).toNat : ℕ) := by
  unfold readData getDataFromPacket at *
  dsimp only at *
  split at hd
  swap
  · cases hd
  next hle =>
    refine ⟨hle, ?_⟩
    rw [if_pos hle]
    simp only [frontDelimiterOverhead, frontPacketOverhead]
    rw [readBytes_queue (h.inc _), h.inc_inc (by omega) (by omega)]
    congr 1

theorem readData_short_lt {fn : CommandFunction} (hd : (readData fn s).1 = false) :
    getPacketSize (atData fn s.inQueue) - frontPacketOverhead < dataWant fn s := by
  unfold readData getDataFromPacket at hd
  dsimp only at hd
  split at hd
  · cases hd
  · omega

theorem insertAtOf_range (q : Queue) : -2 ^ 31 ≤ insertAtOf q ∧ insertAtOf q < 2 ^ 31 := by
  simp only [insertAtOf, getCommandNext32bitParamBin]
  exact wrap32_range _

theorem insertLengthOf_range (q : Queue) :
    -2 ^ 31 ≤ insertLengthOf q ∧ insertLengthOf q < 2 ^ 31 := by
  simp only [insertLengthOf, getCommandNext32bitParamBin]
  exact wrap32_range _

theorem dataWant_range (hm : StoreValid s.memstore) (fn : CommandFunction) :
    -2 ^ 31 ≤ dataWant fn s ∧ dataWant fn s < 2 ^ 31 := by
  unfold dataWant
  split
  · unfold memstoreGetPageSizeBytes
    split
    next ha => have := (hm.live ha).size; omega
    · omega
  · exact insertLengthOf_range s.inQueue

/-- As many bytes as are wanted are read. -/
theorem readData_length {fn : CommandFunction} (h : InRange (atData fn s.inQueue))
    (hd : (readData fn s).1 = true) : ((readData fn s).2.1.length : ℤ) = max (dataWant fn s) 0 := by
  unfold readData getDataFromPacket at *
  dsimp only at *
  split at hd
  swap
  · cases hd
  next hle =>
    rw [if_pos hle]
    simp only [frontDelimiterOverhead, frontPacketOverhead]
    rw [readBytes_bytes (h.inc _), CircularBuffer.length_window, Int.toNat_eq_max]

theorem storeData_faults {fn : CommandFunction} (hfn : takesData fn = true)
    (h : InRange (atData fn s.inQueue)) (hm : StoreValid s.memstore) (hd : (readData fn s).1 = true) :
    (∃ e, storeData fn s (readData fn s).2.1 = .error e) ↔ Overruns fn s := by
  have hl := readData_length h hd
  cases fn <;> cases hfn
  · have hpage : (0 : ℤ) ≤ dataWant .commandStoreAlloc s := by
      rcases hm.pageSize (allocationIdOf s.inQueue) with h0 | ⟨h0, -⟩
      · exact h0.ge
      · exact le_trans (by decide) h0
    rw [max_eq_left hpage] at hl
    obtain ⟨r, hr⟩ := memstoreStore_ok hm (p := pageNumberOf s.inQueue) hl
    constructor
    · rintro ⟨e, he⟩
      exact absurd (hr.symm.trans he) (by simp)
    · rintro ⟨he, -⟩
      cases he
  · obtain ⟨-, hat⟩ := insertAtOf_range s.inQueue
    obtain ⟨-, hn⟩ := insertLengthOf_range s.inQueue
    constructor
    · intro he
      exact ⟨rfl, (memstoreInsert_faults hm hat hn hl).1 he⟩
    · rintro ⟨-, hw⟩
      exact (memstoreInsert_faults hm hat hn hl).2 hw

theorem dataExits_spec {fn : CommandFunction} (hrej : ¬ DataRejected env fn s) :
    DataSpec env fn s (dataExits fn s) := by
  by_cases hc : (isCompletePacketAvailable (behind fn s.inQueue)).1 = true
  swap
  · have hc' := Bool.eq_false_iff.2 hc
    exact .inl ⟨_, by rw [dataExits, if_pos hc'], .incomplete hrej hc'⟩
  by_cases hd : (readData fn s).1 = true
  swap
  · have hd' := Bool.eq_false_iff.2 hd
    refine .inl ⟨_, ?_, .short hrej hc hd'⟩
    rw [dataExits, if_neg (by simp [hc]), if_pos hd', readData_short hd']
  rw [DataSpec, dataExits, if_neg (by simp [hc]), if_neg (by simp [hd])]
  cases hw : storeData fn s (readData fn s).2.1 with
  | error e => exact .inr ⟨⟨hrej, hc, hd, e, hw⟩, e, rfl⟩
  | ok w =>
    by_cases h1 : w.1 = true
    · refine .inl ⟨_, ?_, .stored (allocationIdOf s.inQueue) 0 w hrej hc hd hw⟩
      simp only [bind, Except.bind, h1, if_true]; rfl
    · refine .inl ⟨_, ?_, .stored 0 1 w hrej hc hd hw⟩
      simp only [bind, Except.bind, h1, Bool.false_eq_true, if_false]; rfl

theorem commandStoreAlloc_eq (h : InRange s.inQueue) : commandStoreAlloc env s =
    if env.calloc (dataWant .commandStoreAlloc s + 1) = false then
      .ok (true, rejectData .commandStoreAlloc s 2)
    else if dataWant .commandStoreAlloc s = 0 then .ok (true, rejectData .commandStoreAlloc s 1)
    else if pageNumberOf s.inQueue > 9999 then .ok (true, rejectData .commandStoreAlloc s 1)
    else dataExits .commandStoreAlloc s := by
  unfold rejectData dataExits readData awaitData atData
  rw [behind_store h]
  rfl

theorem storeAlloc_spec (h : InRange s.inQueue) :
    DataSpec env .commandStoreAlloc s (commandStoreAlloc env s) := by
  rw [commandStoreAlloc_eq h]
  split_ifs with h1 h2 h3
  · exact .inl ⟨_, rfl, .rejected 2 (.inl h1)⟩
  · exact .inl ⟨_, rfl, .rejected 1 (.inr (.inl h2))⟩
  · exact .inl ⟨_, rfl, .rejected 1 (.inr (.inr h3))⟩
  · exact dataExits_spec fun h => h.elim h1 fun h => h.elim h2 h3

theorem commandInsertAlloc_eq (h : InRange s.inQueue) : commandInsertAlloc env s =
    if env.calloc (wrap32 (dataWant .commandInsertAlloc s + 1)) = false then
      .ok (true, rejectData .commandInsertAlloc s 2)
    else if wrap32 (insertAtOf s.inQueue + dataWant .commandInsertAlloc s) >
        memstoreGetAllocSizeBytes s.memstore (allocationIdOf s.inQueue) then
      .ok (true, rejectData .commandInsertAlloc s 3)
    else dataExits .commandInsertAlloc s := by
  unfold rejectData dataExits readData awaitData atData
  rw [behind_insert h]
  unfold commandInsertAlloc setBinaryDataReceiveLockMode
  simp only [wrap32_sub_left]
  rfl

theorem insertAlloc_spec (h : InRange s.inQueue) :
    DataSpec env .commandInsertAlloc s (commandInsertAlloc env s) := by
  rw [commandInsertAlloc_eq h]
  split_ifs with h1 h2
  · exact .inl ⟨_, rfl, .rejected 2 (.inl h1)⟩
  · exact .inl ⟨_, rfl, .rejected 3 (.inr h2)⟩
  · exact dataExits_spec fun h => h.elim h1 h2

end

end CpcLink
