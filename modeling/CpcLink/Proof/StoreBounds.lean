/-
  Do insertions and cuts stay in the allocation?

  The end of the range is added up in 32 bits before it is compared with the
  size.  From 2^31 on it is a negative number, passes for a place in front of
  the allocation, and the bytes are moved to or from there.
-/
import CpcLink.Proof.Places

namespace CpcLink

/-- An `int` as a `size_t` of 32 bits. -/
def sizeT (n : ℤ) : ℤ := n % 2 ^ 32

/-- The checks of `memstore_insert_data` and `memstore_cut_data`; they return
    TRUE exactly when these pass. -/
def RangePasses (m : Memstore) (i atIndex n : ℤ) : Prop :=
  isAllocated m i ∧ 0 ≤ atIndex ∧ 0 < n ∧
    wrap32 (atIndex + n) < (m i).numberPages * (m i).pageSize

/-- A range of the allocation's bytes, as an index and a number of bytes. -/
abbrev Access := ℤ × ℤ

/-- The bytes that `memmove` and `memcpy` access for an insertion. -/
def insertAccesses (size insertAtIndex insertLength : ℤ) : List Access :=
  let bytesInAllocationToMove := wrap32 (wrap32 (size - insertAtIndex) - insertLength)
  [(insertAtIndex, sizeT bytesInAllocationToMove),
    (wrap32 (insertAtIndex + insertLength), sizeT bytesInAllocationToMove),
    (insertAtIndex, sizeT insertLength)]

/-- The bytes that `memmove` and `memset` access for a cut. -/
def cutAccesses (size cutAtIndex cutLength : ℤ) : List Access :=
  let bytesInAllocationToMoveDown := wrap32 (wrap32 (size - cutAtIndex) - cutLength)
  [(wrap32 (cutAtIndex + cutLength), sizeT bytesInAllocationToMoveDown),
    (cutAtIndex, sizeT bytesInAllocationToMoveDown),
    (wrap32 (size - cutLength), sizeT cutLength)]

/-- Every byte accessed is one of the allocation. -/
def AllInside (size : ℤ) (accesses : List Access) : Prop :=
  ∀ a ∈ accesses, ∀ k, a.1 ≤ k → k < a.1 + a.2 → 0 ≤ k ∧ k < size

/-- What returning TRUE should mean. -/
def RangeInside (m : Memstore) (i atIndex n : ℤ) (accesses : ℤ → ℤ → ℤ → List Access) : Prop :=
  let size := (m i).numberPages * (m i).pageSize
  RangePasses m i atIndex n →
    0 ≤ atIndex ∧ 0 < n ∧ atIndex + n ≤ size ∧ AllInside size (accesses size atIndex n)

/-- The end of the range is no `int`. -/
def EndWraps (atIndex n : ℤ) : Prop := 0 ≤ atIndex ∧ 0 < n ∧ 2 ^ 31 ≤ atIndex + n

/-- `IALLOC` passes its arguments on to `memstore_insert_data`. -/
def InsertCalled (env : Env) (s : Server) : Prop :=
  ¬ DataRejected env .commandInsertAlloc s ∧
    (isCompletePacketAvailable (behind .commandInsertAlloc s.inQueue)).1 = true ∧
    (readData .commandInsertAlloc s).1 = true

/-- `XALLOC` passes its arguments on to `memstore_cut_data`. -/
def CutCalled (s : Server) : Prop :=
  ¬ wrap32 (insertAtOf s.inQueue + insertLengthOf s.inQueue) >
    memstoreGetAllocSizeBytes s.memstore (allocationIdOf s.inQueue)

/-- The request at the parameters is for this range. -/
structure AsksFor (s : Server) (i atIndex n : ℤ) : Prop where
  inQueue : InRange s.inQueue
  allocationId : allocationIdOf s.inQueue = i
  atIndex : insertAtOf s.inQueue = atIndex
  length : insertLengthOf s.inQueue = n

section
variable {m : Memstore} {i p n : ℤ}

/-! ## The ranges -/

theorem allInside_cons {size off len : ℤ} {accesses : List Access} :
    AllInside size ((off, len) :: accesses) ↔
      (0 < len → 0 ≤ off ∧ off + len ≤ size) ∧ AllInside size accesses := by
  unfold AllInside
  rw [List.forall_mem_cons]
  refine and_congr_left fun _ => ?_
  constructor
  · intro h hpos
    have h1 := h off le_rfl (by dsimp only; omega)
    have h2 := h (off + len - 1) (by dsimp only; omega) (by dsimp only; omega)
    omega
  · intro h k h1 h2
    dsimp only at h1 h2
    have := h (by omega)
    omega

theorem allInside_nil (size : ℤ) : AllInside size [] := by
  intro a ha
  cases ha

theorem sizeT_of_nonneg (h0 : 0 ≤ n) (h1 : n < 2 ^ 32) : sizeT n = n := Int.emod_eq_of_lt h0 h1

/-- Without the wrap every access is inside. -/
theorem allInside_of_fits {size : ℤ} (hsize : size < 2 ^ 30) (h0 : 0 ≤ p) (hpos : 0 < n)
    (hle : p + n ≤ size) : AllInside size (insertAccesses size p n) ∧
      AllInside size (cutAccesses size p n) := by
  have hmove : wrap32 (wrap32 (size - p) - n) = size - p - n := by
    rw [wrap32_sub_left, wrap32_id (by omega) (by omega)]
  have hcut : wrap32 (size - n) = size - n := wrap32_id (by omega) (by omega)
  have hend : wrap32 (p + n) = p + n := wrap32_id (by omega) (by omega)
  simp only [insertAccesses, cutAccesses, hmove, hcut, hend, allInside_cons, allInside_nil, and_true,
    sizeT_of_nonneg (show 0 ≤ size - p - n by omega) (by omega),
    sizeT_of_nonneg hpos.le (show n < 2 ^ 32 by omega)]
  omega

/-- With it bytes in front of the allocation are moved. -/
theorem not_allInside {size : ℤ} (h0 : 0 ≤ size) (hsize : size < 2 ^ 30) (hp : p < 2 ^ 31)
    (hn : n < 2 ^ 31) (hw : EndWraps p n) : ¬ AllInside size (insertAccesses size p n) ∧
      ¬ AllInside size (cutAccesses size p n) := by
  obtain ⟨hp0, hpos, hend⟩ := hw
  have hwrap : wrap32 (p + n) = p + n - 2 ^ 32 := wrap32_sub hend (by omega)
  have hmove : 0 < sizeT (wrap32 (wrap32 (size - p) - n)) := by
    rw [wrap32_sub_left, sizeT]
    rcases le_or_gt (-2 ^ 31) (size - p - n) with hge | hlt
    · rw [wrap32_id hge (by omega)]; omega
    · rw [wrap32_add (by omega) hlt]; omega
  simp only [insertAccesses, cutAccesses, hwrap, allInside_cons]
  constructor
  · rintro ⟨-, hdst, -⟩
    have := hdst hmove
    omega
  · rintro ⟨hsrc, -⟩
    have := hsrc hmove
    omega

/-! ## The operations -/

/-- The checks let a range through that wraps. -/
theorem rangePasses_of_wraps (hm : StoreValid m) (hi : isAllocated m i) (hp : p < 2 ^ 31)
    (hn : n < 2 ^ 31) (hw : EndWraps p n) : RangePasses m i p n := by
  obtain ⟨h0, hpos, hend⟩ := hw
  have hsize := (hm.live hi).size_le
  exact ⟨hi, h0, hpos, by rw [wrap32_sub hend (by omega)]; omega⟩

/-- **When the ranges stay inside**, for insertions and cuts alike. -/
theorem rangeInside_iff (hm : StoreValid m) (hi : isAllocated m i) (hp : p < 2 ^ 31)
    (hn : n < 2 ^ 31) : (RangeInside m i p n insertAccesses ↔ ¬ EndWraps p n) ∧
      (RangeInside m i p n cutAccesses ↔ ¬ EndWraps p n) := by
  have hsize := (hm.live hi).size_le
  by_cases hw : EndWraps p n
  · have hpass := rangePasses_of_wraps hm hi hp hn hw
    obtain ⟨hinsert, hcut⟩ := not_allInside hsize.1 hsize.2 hp hn hw
    exact ⟨iff_of_false (fun h => hinsert (h hpass).2.2.2) (not_not.2 hw),
      iff_of_false (fun h => hcut (h hpass).2.2.2) (not_not.2 hw)⟩
  · have inside : RangePasses m i p n → 0 ≤ p ∧ 0 < n ∧
        p + n ≤ (m i).numberPages * (m i).pageSize := by
      rintro ⟨-, h0, hpos, hlt⟩
      have hend : p + n < 2 ^ 31 := lt_of_not_ge fun h => hw ⟨h0, hpos, h⟩
      rw [wrap32_id (by omega) hend] at hlt
      exact ⟨h0, hpos, hlt.le⟩
    refine ⟨iff_of_true (fun hpass => ?_) hw, iff_of_true (fun hpass => ?_) hw⟩
    · obtain ⟨h0, hpos, hle⟩ := inside hpass
      exact ⟨h0, hpos, hle, (allInside_of_fits hsize.2 h0 hpos hle).1⟩
    · obtain ⟨h0, hpos, hle⟩ := inside hpass
      exact ⟨h0, hpos, hle, (allInside_of_fits hsize.2 h0 hpos hle).2⟩

/-- The model of an insertion faults exactly where an access is outside. -/
theorem insert_faults_iff (hm : StoreValid m) (hpass : RangePasses m i p n) (hp : p < 2 ^ 31)
    (hn : n < 2 ^ 31) {data : List BYTE} (hl : (data.length : ℤ) = n) :
    (∃ e, memstoreInsertData m i p n data = .error e) ↔
      ¬ RangeInside m i p n insertAccesses := by
  rw [(rangeInside_iff hm hpass.1 hp hn).1, not_not,
    memstoreInsert_faults hm hp hn (by rw [hl, max_eq_left hpass.2.2.1.le])]
  exact and_iff_right hpass.1

/-- The model of a cut, too. -/
theorem cut_faults_iff (hm : StoreValid m) (hpass : RangePasses m i p n) (hp : p < 2 ^ 31)
    (hn : n < 2 ^ 31) :
    (∃ e, memstoreCutData m i p n = .error e) ↔ ¬ RangeInside m i p n cutAccesses := by
  rw [(rangeInside_iff hm hpass.1 hp hn).2, not_not]
  obtain ⟨hi, h0, hpos, hlt⟩ := hpass
  have ha := hm.live hi
  have hsize := ha.size_le
  unfold memstoreCutData
  dsimp only
  rw [if_pos ⟨hi, h0, hpos, hlt⟩, wrap32_sub_left]
  constructor
  · rintro ⟨e, he⟩
    refine ⟨h0, hpos, le_of_not_gt fun hend => ?_⟩
    rw [wrap32_id (by omega) hend] at hlt he
    rw [wrap32_id (by omega) (by omega), wrap32_id (by omega) (by omega)] at he
    obtain ⟨moved, hmoved, hlen⟩ : ∃ d, memRead (m i).data (p + n)
        ((m i).numberPages * (m i).pageSize - p - n) = .ok d ∧
        (d.length : ℤ) = (m i).numberPages * (m i).pageSize - p - n :=
      ha.memRead_ok (by omega) (by omega) (by omega)
    obtain ⟨data₁, hd₁⟩ : ∃ d, memWrite (m i).data p moved = .ok d := ha.memWrite_ok h0 (by omega)
    obtain ⟨data₂, hd₂⟩ : ∃ d, memWrite data₁ ((m i).numberPages * (m i).pageSize - n)
        (List.replicate n.toNat 0) = .ok d :=
      (ha.write hd₁).memWrite_ok (by omega) (by simp only [List.length_replicate]; omega)
    simp only [hmoved, hd₁, hd₂, bind, Except.bind] at he
    cases he
  · rintro ⟨-, -, hend⟩
    -- the bytes to move start in front of the allocation
    obtain ⟨d, hd, -⟩ := ha.data
    refine ⟨.allocation, ?_⟩
    rw [wrap32_sub hend (by omega), hd, memRead, if_neg (by omega)]
    rfl

/-! ## The commands -/

section
variable {env : Env} {s : Server}

/-- `IALLOC` faults when it calls for a range that wraps. -/
theorem insertAlloc_faults (hm : StoreValid s.memstore) (hi : isAllocated s.memstore i)
    (hasks : AsksFor s i p n) : (∃ e, commandInsertAlloc env s = .error e) ↔
      InsertCalled env s ∧ EndWraps p n := by
  have hoverruns : Overruns .commandInsertAlloc s ↔ EndWraps p n := by
    unfold Overruns InsertWraps EndWraps
    rw [hasks.allocationId, hasks.atIndex, hasks.length]
    simp only [true_and, hi]
  have hfaults : InsertCalled env s →
      ((∃ e, storeData .commandInsertAlloc s (readData .commandInsertAlloc s).2.1 = .error e) ↔
        EndWraps p n) := fun hcalled => by
    rw [← hoverruns]
    exact storeData_faults rfl (hasks.inQueue.atData _) hm hcalled.2.2
  have hspec : DataSpec env .commandInsertAlloc s (commandInsertAlloc env s) :=
    insertAlloc_spec hasks.inQueue
  rcases hspec with ⟨r, hr, hstep⟩ | ⟨hfault, herror⟩
  · refine iff_of_false (fun ⟨e, he⟩ => by rw [hr] at he; cases he) ?_
    rintro ⟨hcalled, hw⟩
    cases hstep with
    | rejected _ hrej => exact hcalled.1 hrej
    | incomplete _ hc => rw [hcalled.2.1] at hc; cases hc
    | short _ _ hd => rw [hcalled.2.2] at hd; cases hd
    | stored _ _ w _ _ _ hw' =>
      obtain ⟨e, he⟩ := (hfaults hcalled).2 hw
      rw [hw'] at he; cases he
  · obtain ⟨hrej, hc, hd, hstore⟩ := hfault
    exact iff_of_true herror ⟨⟨hrej, hc, hd⟩, (hfaults ⟨hrej, hc, hd⟩).1 hstore⟩

/-- A range that wraps is not rejected by `XALLOC`. -/
theorem cutCalled_of_wraps (hm : StoreValid s.memstore) (hi : isAllocated s.memstore i)
    (hp : p < 2 ^ 31) (hn : n < 2 ^ 31) (hasks : AsksFor s i p n) (hw : EndWraps p n) :
    CutCalled s := by
  have hsize := (hm.live hi).size_le
  rw [CutCalled, hasks.allocationId, hasks.atIndex, hasks.length,
    memstoreGetAllocSizeBytes, if_pos hi, wrap32_sub hw.2.2 (by omega), mul_comm]
  omega

theorem commandCutAlloc_error (s : Server) : (∃ e, commandCutAlloc s = .error e) ↔
    CutCalled s ∧ ∃ e, memstoreCutData s.memstore (allocationIdOf s.inQueue)
      (insertAtOf s.inQueue) (insertLengthOf s.inQueue) = .error e := by
  unfold commandCutAlloc CutCalled allocationIdOf insertAtOf insertLengthOf
  dsimp only
  generalize getCommandNext8bitParamBin s.inQueue = p
  generalize getCommandNext32bitParamBin p.2 = p1
  generalize getCommandNext32bitParamBin p1.2 = p2
  split
  next hrej =>
    refine iff_of_false (fun ⟨e, he⟩ => by cases he) ?_
    rintro ⟨hc, -⟩
    exact hc hrej
  next hc =>
    rw [and_iff_right hc]
    cases memstoreCutData s.memstore p.1 p1.1 p2.1 with
    | error e => exact iff_of_true ⟨e, rfl⟩ ⟨e, rfl⟩
    | ok r =>
      refine iff_of_false ?_ (fun ⟨e, he⟩ => by cases he)
      rintro ⟨e, he⟩
      by_cases hr : r.1 = true
      · simp only [bind, Except.bind, hr, if_true] at he; cases he
      · simp only [bind, Except.bind, hr, if_false, Bool.false_eq_true] at he; cases he

/-- `XALLOC` faults when it is asked for a range that wraps. -/
theorem cutAlloc_faults (hm : StoreValid s.memstore) (hi : isAllocated s.memstore i)
    (hp : p < 2 ^ 31) (hn : n < 2 ^ 31) (hasks : AsksFor s i p n) :
    (∃ e, commandCutAlloc s = .error e) ↔ EndWraps p n := by
  rw [commandCutAlloc_error, hasks.allocationId, hasks.atIndex, hasks.length]
  constructor
  · rintro ⟨-, e, he⟩
    by_cases hpass : RangePasses s.memstore i p n
    · have hout := (cut_faults_iff hm hpass hp hn).1 ⟨e, he⟩
      rw [(rangeInside_iff hm hi hp hn).2, not_not] at hout
      exact hout
    · unfold memstoreCutData at he
      dsimp only at he
      split at he
      next h => exact absurd h hpass
      next => cases he
  · intro hw
    have hpass := rangePasses_of_wraps hm hi hp hn hw
    refine ⟨cutCalled_of_wraps hm hi hp hn hasks hw, (cut_faults_iff hm hpass hp hn).2 ?_⟩
    rw [(rangeInside_iff hm hi hp hn).2, not_not]
    exact hw

/-- **When insertions and cuts stay in the allocation**, called directly and
    through `IALLOC` and `XALLOC`. -/
theorem range_inside_iff (env : Env) (hm : StoreValid s.memstore) (hi : isAllocated s.memstore i)
    (hp : -2 ^ 31 ≤ p ∧ p < 2 ^ 31) (hn : -2 ^ 31 ≤ n ∧ n < 2 ^ 31) :
    (RangeInside s.memstore i p n insertAccesses ↔ ¬ EndWraps p n) ∧
    (RangeInside s.memstore i p n cutAccesses ↔ ¬ EndWraps p n) ∧
    (AsksFor s i p n →
      ((InsertCalled env s → RangeInside s.memstore i p n insertAccesses) ↔
        ¬ (InsertCalled env s ∧ EndWraps p n)) ∧
      ((∀ e, commandInsertAlloc env s ≠ .error e) ↔ ¬ (InsertCalled env s ∧ EndWraps p n)) ∧
      ((CutCalled s → RangeInside s.memstore i p n cutAccesses) ↔ ¬ EndWraps p n) ∧
      ((∀ e, commandCutAlloc s ≠ .error e) ↔ ¬ EndWraps p n)) := by
  obtain ⟨hinsert, hcut⟩ := rangeInside_iff hm hi hp.2 hn.2
  refine ⟨hinsert, hcut, fun hasks => ⟨by rw [hinsert, not_and], ?_, ?_, ?_⟩⟩
  · rw [← insertAlloc_faults hm hi hasks, not_exists]
  · rw [hcut]
    constructor
    · intro h hw
      exact h (cutCalled_of_wraps hm hi hp.2 hn.2 hasks hw) hw
    · intro h _
      exact h
  · rw [← cutAlloc_faults hm hi hp.2 hn.2 hasks, not_exists]

end

end

/-! ## A page to cut -/

/-- An instance: `XALLOC` of the first byte of a page. -/
theorem range_inside_first : RangeInside (withPage (serverOf [])).memstore 1 0 1 cutAccesses ∧
    ∀ e, commandCutAlloc (withPage (serverOf [1, 0, 0, 0, 0, 0, 0, 1, 0])) ≠ .error e := by
  have hno : ¬ EndWraps 0 1 := fun h => absurd h.2.2 (by decide)
  have hi : isAllocated (withPage (serverOf [1, 0, 0, 0, 0, 0, 0, 1, 0])).memstore 1 := by decide
  have hin : Valid (queueOf [1, 0, 0, 0, 0, 0, 0, 1, 0]) := queueOf_valid (by decide)
  have hasks : AsksFor (withPage (serverOf [1, 0, 0, 0, 0, 0, 0, 1, 0])) 1 0 1 :=
    ⟨hin.toInRange, by decide, by decide, by decide⟩
  obtain ⟨-, hcut, hcommand⟩ := range_inside_iff (p := 0) (n := 1) calmEnv
    (withPage_store _ (serverOf_store _)) hi (by decide) (by decide)
  exact ⟨hcut.2 hno, (hcommand hasks).2.2.2.2 hno⟩

/-- The last place an `int` can name, and one byte: the checks pass, and the
    byte to move is in front of the allocation. -/
theorem range_outside : RangePasses (withPage (serverOf [])).memstore 1 (2 ^ 31 - 1) 1 ∧
    ¬ RangeInside (withPage (serverOf [])).memstore 1 (2 ^ 31 - 1) 1 insertAccesses ∧
    ¬ RangeInside (withPage (serverOf [])).memstore 1 (2 ^ 31 - 1) 1 cutAccesses ∧
    dispatch calmEnv (withPage (serverOf (encode binaryCommand
      [26, 1, 255, 127, 255, 255, 0, 0, 1, 0] ++ []))) = .error .allocation := by
  have hw : EndWraps (2 ^ 31 - 1) 1 := by unfold EndWraps; decide
  have hm := withPage_store _ (serverOf_store [])
  have hi : isAllocated (withPage (serverOf [])).memstore 1 := by decide
  have hpass := rangePasses_of_wraps hm hi (by decide) (by decide) hw
  have hsize := (hm.live hi).size_le
  obtain ⟨hinsert, hcut⟩ := not_allInside hsize.1 hsize.2 (by decide) (by decide) hw
  refine ⟨hpass, fun h => hinsert (h hpass).2.2.2, fun h => hcut (h hpass).2.2.2, ?_⟩
  have h : (match dispatch calmEnv (withPage (serverOf (encode binaryCommand
      [26, 1, 255, 127, 255, 255, 0, 0, 1, 0] ++ []))) with
    | .error e => e == .allocation
    | .ok _ => false) = true := by decide +kernel
  split at h
  next e he => rw [he, eq_of_beq h]
  next => cases h

end CpcLink
