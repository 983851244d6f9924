/-
  The memory commands that work without a data packet: each answers with one
  packet that starts with its own id, `RALLOC` with a second one for the page.
-/
import CpcLink.Proof.Handlers

namespace CpcLink

/-- The answer of a memory command `id` is one packet, the same for every out
    queue with space for it. -/
def AnswersWith (fn : CommandFunction) (id : Command) (s : Server)
    (run : Server → Except Fault (Bool × Server)) : Prop :=
  ∃ a : List BYTE, a.length ≤ 6 ∧ ∀ q r, run { s with outQueue := q } = .ok r →
    Plain fn s r ∧ r.1 = true ∧
      (Valid q → Fits q 30 → r.2.outQueue = sendPackets q [(binaryCommand, byte id :: a)])

section
variable {s : Server} {fn : CommandFunction} {id : Command} {inQ : Queue} {m : Memstore} {w : World}
  {run : Server → Except Fault (Bool × Server)}

/-- A command that ends in an answer of single bytes. -/
theorem AnswersWith.of_respond
    (hin : inQ = incrementReadNextIndex s.inQueue (paramsLength fn s.inQueue))
    (hm : StoreValid s.memstore → StoreValid m) (params : List ℤ) (hl : params.length ≤ 6)
    (hrun : ∀ q, run { s with outQueue := q } = .ok (true,
      respondBytes { s with outQueue := q, inQueue := inQ, memstore := m, world := w } id params)) :
    AnswersWith fn id s run := by
  refine ⟨params.map byte, by simpa using hl, fun q r hr => ?_⟩
  rw [hrun] at hr
  cases hr
  exact ⟨⟨hin, rfl, rfl, hm, fun h => by cases h⟩, rfl, fun hv hf => respondBytes_eq hv hf id hl⟩

theorem AnswersWith.of_load
    (hin : inQ = incrementReadNextIndex s.inQueue (paramsLength fn s.inQueue))
    (hm : StoreValid s.memstore → StoreValid m) (allocationId fileSize errorId : ℤ)
    (hrun : ∀ q, run { s with outQueue := q } = .ok (true, loadResponse
      { s with outQueue := q, inQueue := inQ, memstore := m, world := w }
      allocationId fileSize errorId)) : AnswersWith fn loadAlloc s run := by
  refine ⟨byte allocationId :: (intBytes fileSize ++ [byte errorId]), by simp [intBytes],
    fun q r hr => ?_⟩
  rw [hrun] at hr
  cases hr
  exact ⟨⟨hin, rfl, rfl, hm, fun h => by cases h⟩, rfl, fun hv hf => loadResponse_eq hv hf _ _ _⟩

theorem AnswersWith.of_fault {e : Fault} (hrun : ∀ q, run { s with outQueue := q } = .error e) :
    AnswersWith fn id s run :=
  ⟨[], by simp, fun q r hr => by rw [hrun] at hr; cases hr⟩

/-! ## Allocations -/

theorem createAlloc_answers (env : Env) (h : InRange s.inQueue) :
    AnswersWith .commandCreateAlloc createAlloc s fun s => .ok (commandCreateAlloc env s) := by
  have hin : (getCommandNext8bitParamBin (getCommandNext16bitParamBin s.inQueue).2).2 =
      incrementReadNextIndex s.inQueue (3 : ℕ) := by
    rw [next16_queue h, next8_queue, h.inc_nat]
  set kb := (getCommandNext8bitParamBin (getCommandNext16bitParamBin s.inQueue).2).1 with hkb
  set pages := (getCommandNext16bitParamBin s.inQueue).1 with hpages
  have hkb0 : 0 ≤ kb := by simp only [hkb, getCommandNext8bitParamBin]; omega
  have hpages0 : 0 ≤ pages := by simp only [hpages, getCommandNext16bitParamBin]; omega
  by_cases h1 : kb = 0 ∨ kb > 32
  · exact .of_respond hin id [0, 1] (by simp) fun q => by
      simp only [commandCreateAlloc, ← hkb, h1, if_true]; rfl
  by_cases h2 : pages = 0 ∨ pages > 9999
  · exact .of_respond hin id [0, 1] (by simp) fun q => by
      simp only [commandCreateAlloc, ← hkb, ← hpages, h1, h2, if_true, if_false]; rfl
  have hm : StoreValid s.memstore →
      StoreValid (memstoreCreateAllocationId env s.memstore pages kb).2 := fun hm =>
    memstoreCreate_valid env hm (by omega) (by omega) (by omega) (by omega)
  by_cases h3 : (memstoreCreateAllocationId env s.memstore pages kb).1 = 0
  · exact .of_respond hin hm [0, 2] (by simp) fun q => by
      simp only [commandCreateAlloc, ← hkb, ← hpages, h1, h2, h3, if_true, if_false]; rfl
  · exact .of_respond hin hm [(memstoreCreateAllocationId env s.memstore pages kb).1, 0] (by simp)
      fun q => by simp only [commandCreateAlloc, ← hkb, ← hpages, h1, h2, h3, if_false]; rfl

theorem freeAlloc_answers :
    AnswersWith .commandFreeAlloc freeAlloc s fun s => .ok (commandFreeAlloc s) := by
  have hm : StoreValid s.memstore → StoreValid (memstoreFreeAllocationId s.memstore
      (getCommandNext8bitParamBin s.inQueue).1).2 := fun hm => memstoreFree_valid hm _
  by_cases h1 : (memstoreFreeAllocationId s.memstore
      (getCommandNext8bitParamBin s.inQueue).1).1 = true
  · exact .of_respond (next8_queue s.inQueue) hm [(getCommandNext8bitParamBin s.inQueue).1, 0]
      (by simp) fun q => by simp only [commandFreeAlloc, h1, if_true]; rfl
  · exact .of_respond (next8_queue s.inQueue) hm [0, 1] (by simp) fun q => by
      simp only [commandFreeAlloc, h1, Bool.false_eq_true, if_false]; rfl

theorem cutAlloc_answers (h : InRange s.inQueue) :
    AnswersWith .commandCutAlloc cutAlloc s commandCutAlloc := by
  set p := getCommandNext8bitParamBin s.inQueue with hp
  set p1 := getCommandNext32bitParamBin p.2 with hp1
  set p2 := getCommandNext32bitParamBin p1.2 with hp2
  have hin : p2.2 = incrementReadNextIndex s.inQueue (9 : ℕ) := by
    rw [hp2, hp1, hp, next8_queue, next32_queue (h.inc _), next32_queue ((h.inc _).inc _),
      h.inc_nat, h.inc_nat]
  by_cases h1 : wrap32 (p1.1 + p2.1) > memstoreGetAllocSizeBytes s.memstore p.1
  · exact .of_respond hin id [0, 2] (by simp) fun q => by
      simp only [commandCutAlloc, ← hp, ← hp1, ← hp2, h1, if_true]; rfl
  cases hr : memstoreCutData s.memstore p.1 p1.1 p2.1 with
  | error e =>
    exact .of_fault (e := e) fun q => by
      simp only [commandCutAlloc, ← hp, ← hp1, ← hp2, h1, if_false, hr]; rfl
  | ok r =>
    have hm : StoreValid s.memstore → StoreValid r.2 := fun hm => memstoreCut_valid hm hr
    by_cases h2 : r.1 = true
    · exact .of_respond hin hm [p.1, 0] (by simp) fun q => by
        simp only [commandCutAlloc, ← hp, ← hp1, ← hp2, h1, if_false, hr, bind, Except.bind, h2,
          if_true]; rfl
    · exact .of_respond hin hm [0, 1] (by simp) fun q => by
        simp only [commandCutAlloc, ← hp, ← hp1, ← hp2, h1, if_false, hr, bind, Except.bind, h2,
          Bool.false_eq_true]; rfl

/-! ## Files -/

theorem loadAlloc_answers (env : Env) (h : InRange s.inQueue) :
    AnswersWith .commandLoadAlloc loadAlloc s (commandLoadAlloc env) := by
  set p := getCommandNext8bitParamBin s.inQueue with hp
  set d := getAllCommandParamsText p.2 maxPathSizeText with hd
  have hin : d.2.2 = incrementReadNextIndex s.inQueue (paramsLength .commandLoadAlloc s.inQueue) := by
    rw [hd, hp, allParams_queue (by rw [next8_queue]; exact h.inc _), next8_queue, h.inc_nat]; rfl
  by_cases h1 : d.1 = false
  · exact .of_load hin id 0 0 1 fun q => by
      simp only [commandLoadAlloc, ← hp, ← hd, h1, if_true]; rfl
  cases hb : bufferString maxPathSizeText d.2.1 with
  | error e =>
    exact .of_fault (e := e) fun q => by
      simp only [commandLoadAlloc, ← hp, ← hd, h1, hb]; rfl
  | ok name =>
    cases hr : memstoreLoadData env s.memstore s.world p.1 name with
    | error e =>
      exact .of_fault (e := e) fun q => by
        simp only [commandLoadAlloc, ← hp, ← hd, h1, hb, bind, Except.bind, hr]; rfl
    | ok r =>
      have hm : StoreValid s.memstore → StoreValid r.memstore := fun hm => memstoreLoad_valid hm hr
      by_cases h2 : r.readFileOk = true
      · exact .of_load hin hm p.1 r.fileSize 0 fun q => by
          simp only [commandLoadAlloc, ← hp, ← hd, h1, hb, bind, Except.bind, hr, h2,
            if_true]; rfl
      by_cases h3 : r.fileToLarge = true
      · exact .of_load hin hm 0 0 3 fun q => by
          simp only [commandLoadAlloc, ← hp, ← hd, h1, hb, bind, Except.bind, hr, h2, h3,
            Bool.false_eq_true, if_true]; rfl
      · exact .of_load hin hm 0 0 2 fun q => by
          simp only [commandLoadAlloc, ← hp, ← hd, h1, hb, bind, Except.bind, hr, h2, h3,
            Bool.false_eq_true]; rfl

theorem saveAlloc_answers (env : Env) (h : InRange s.inQueue) :
    AnswersWith .commandSaveAlloc saveAlloc s (commandSaveAlloc env) := by
  set p := getCommandNext8bitParamBin s.inQueue with hp
  set p1 := getCommandNext32bitParamBin p.2 with hp1
  set d := getAllCommandParamsText p1.2 maxPathSizeText with hd
  have hq1 : p1.2 = incrementReadNextIndex s.inQueue (5 : ℕ) := by
    rw [hp1, hp, next8_queue, next32_queue (h.inc _), h.inc_nat]
  have hin : d.2.2 = incrementReadNextIndex s.inQueue (paramsLength .commandSaveAlloc s.inQueue) := by
    rw [hd, hq1, allParams_queue (h.inc _), h.inc_nat]; rfl
  by_cases h1 : d.1 = false
  · exact .of_respond hin id [0, 1] (by simp) fun q => by
      simp only [commandSaveAlloc, ← hp, ← hp1, ← hd, h1, if_true]; rfl
  cases hb : bufferString maxPathSizeText d.2.1 with
  | error e =>
    exact .of_fault (e := e) fun q => by
      simp only [commandSaveAlloc, ← hp, ← hp1, ← hd, h1, hb]; rfl
  | ok name =>
    cases hr : memstoreSaveData env s.memstore s.world p.1 name p1.1 with
    | error e =>
      exact .of_fault (e := e) fun q => by
        simp only [commandSaveAlloc, ← hp, ← hp1, ← hd, h1, hb, bind, Except.bind, hr]; rfl
    | ok r =>
      have hm : StoreValid s.memstore → StoreValid r.2.1 := fun hm => memstoreSave_valid hm hr
      by_cases h2 : r.1 = true
      · exact .of_respond hin hm [p.1, 0] (by simp) fun q => by
          simp only [commandSaveAlloc, ← hp, ← hp1, ← hd, h1, hb, bind, Except.bind, hr, h2,
            if_true]; rfl
      · exact .of_respond hin hm [0, 2] (by simp) fun q => by
          simp only [commandSaveAlloc, ← hp, ← hp1, ← hd, h1, hb, bind, Except.bind, hr, h2,
            Bool.false_eq_true]; rfl

/-! ## Retrieving a page -/

/-- The page that `RALLOC` asks for: where it starts in the allocation, and its
    size. -/
def pageAsked (s : Server) : Option (ℤ × ℤ) :=
  let p := getCommandNext8bitParamBin s.inQueue
  memstoreRetrievePageOfData s.memstore p.1 (getCommandNext16bitParamBin p.2).1

/-- There is no such page: the answer says so. -/
def NoPage (s : Server) : Prop := ∃ a : List BYTE, a.length = 3 ∧
  ∀ q r, commandRetrieveAlloc { s with outQueue := q } = .ok r →
    Plain .commandRetrieveAlloc s r ∧ r.1 = true ∧ (Valid q → Fits q 30 →
      r.2.outQueue = sendPackets q [(binaryCommand, byte retrieveAlloc :: (a ++ [1]))])

/-- There is a page: an answer and the page go out together, if there is space
    for both, and otherwise the command is to be run again. -/
def HasPage (s : Server) : Prop := ∃ a page : List BYTE, a.length = 3 ∧ page.length ≤ 32768 ∧
  (∃ offset : ℤ, pageAsked s = some (offset, (page.length : ℤ))) ∧
  ∀ q r, commandRetrieveAlloc { s with outQueue := q } = .ok r →
    Plain .commandRetrieveAlloc s r ∧
      ((isQueueSpaceAvailable q (page.length + 23) = false ∧ r.1 = false ∧ r.2.outQueue = q) ∨
        (isQueueSpaceAvailable q (page.length + 23) = true ∧ r.1 = true ∧ (Valid q → Fits q 30 →
          r.2.outQueue = sendPackets q
            [(binaryCommand, byte retrieveAlloc :: (a ++ [0])), (binaryData, page)])))

theorem retrieveAlloc_spec (h : InRange s.inQueue) (hm : StoreValid s.memstore) :
    NoPage s ∨ HasPage s := by
  set p := getCommandNext8bitParamBin s.inQueue with hp
  set p1 := getCommandNext16bitParamBin p.2 with hp1
  have hin : p1.2 = incrementReadNextIndex s.inQueue (3 : ℕ) := by
    rw [hp1, hp, next8_queue, next16_queue (h.inc _), h.inc_nat]
  have noPage : (∀ q, commandRetrieveAlloc { s with outQueue := q } = .ok (true,
      respondBytes { s with outQueue := q, inQueue := p1.2 } retrieveAlloc
        [0, p1.1 % 256, p1.1 / 256, 1])) → NoPage s := by
    intro hrun
    refine ⟨[byte 0, byte (p1.1 % 256), byte (p1.1 / 256)], rfl, fun q r hr => ?_⟩
    rw [hrun] at hr
    cases hr
    exact ⟨⟨hin, rfl, rfl, id, fun h => by cases h⟩, rfl,
      fun hv hf => respondBytes_eq hv hf retrieveAlloc (by simp)⟩
  by_cases h1 : p1.1 > 9999
  · exact .inl (noPage fun q => by
      simp only [commandRetrieveAlloc, ← hp, ← hp1, h1, if_true]; rfl)
  cases hpage : memstoreRetrievePageOfData s.memstore p.1 p1.1 with
  | none =>
    exact .inl (noPage fun q => by
      simp only [commandRetrieveAlloc, ← hp, ← hp1, h1, if_false, hpage]; rfl)
  | some page =>
    obtain ⟨off, n⟩ := page
    obtain ⟨hn, hn', data, hread, hlen⟩ := hm.retrieve hpage
    have hpos : n > 0 := by omega
    have hspace : (5 + packetOverhead + n + packetOverhead : ℤ) = data.length + 23 := by
      rw [hlen]; simp only [packetOverhead]; omega
    have hrun : ∀ q, commandRetrieveAlloc { s with outQueue := q } =
        if isQueueSpaceAvailable q (data.length + 23) then
          let s' := respondBytes { s with outQueue := q, inQueue := p1.2 } retrieveAlloc
            [p.1, p1.1 % 256, p1.1 / 256, 0]
          .ok (true, setBinaryDataSendLockMode
            { s' with outQueue := (writeDataToPacket s'.outQueue data binaryData).2 }
            (n + packetOverhead))
        else .ok (false, { s with outQueue := q, inQueue := p1.2 }) := by
      intro q
      simp only [commandRetrieveAlloc, ← hp, ← hp1, h1, if_false, hpage, hpos, if_true, hspace, hread]
      rfl
    refine .inr ⟨[byte p.1, byte (p1.1 % 256), byte (p1.1 / 256)], data, rfl, by omega,
      ⟨off, hpage.trans (by rw [hlen])⟩, fun q r hr => ?_⟩
    rw [hrun] at hr
    by_cases hsp : isQueueSpaceAvailable q (data.length + 23) = true
    · rw [if_pos hsp] at hr
      cases hr
      refine ⟨⟨hin, rfl, rfl, id, fun h => by cases h⟩, .inr ⟨hsp, rfl, fun hv hf => ?_⟩⟩
      have := respondBytes_eq (s := { s with outQueue := q, inQueue := p1.2 }) hv hf retrieveAlloc
        (show [p.1, p1.1 % 256, p1.1 / 256, 0].length ≤ 6 by simp)
      simp only [setBinaryDataSendLockMode, this]
      rfl
    · rw [if_neg hsp] at hr
      cases hr
      exact ⟨⟨hin, rfl, rfl, id, fun _ => .inr (.inl rfl)⟩,
        .inl ⟨Bool.eq_false_iff.2 hsp, rfl, rfl⟩⟩

end

end CpcLink
