/-
  Which allocations are live, as the client sees it (command_memory.c).

  An id is live when `CALLOC` returned it and `FALLOC` has not taken it back: this
  is read off the answers (`liveAfter`).  The store marks a slot as in use by its
  own number, and through every run of the memory commands the two agree
  (`reach_liveIds`).  The mark of a free slot is 0, which is the number of slot 0,
  so `FALLOC` takes id 0 for a live one (`freeAlloc_exact_iff`).
-/
import CpcLink.Proof.Handles
import CpcLink.Proof.ReadBack

namespace CpcLink

/-! ## What the answers say -/

/-- The answer is a command id, an allocation id and an error number. -/
def AnswersId (s s' : Server) (c : Command) (id errorId : BYTE) : Prop :=
  s'.outQueue.unread = s.outQueue.unread ++ encode binaryCommand [byte c, id, errorId]

/-- The live ids after a command: those `CALLOC` returns are new, those `FALLOC`
    confirms are gone. -/
def liveAfter (c : Command) (s s' : Server) (live : Set BYTE) : Set BYTE :=
  {id | c = createAlloc ∧ AnswersId s s' createAlloc id 0 ∨
    id ∈ live ∧ ¬ (c = freeAlloc ∧ AnswersId s s' freeAlloc id 0)}

/-- A memory command, as `process_command` finds it. -/
structure MemoryCall where
  env : Env
  server : Server
  command : Command

/-- `process_command` runs one of the memory commands on the store. -/
structure MemoryStep (x : Memstore × Set BYTE) (call : MemoryCall) (y : Memstore × Set BYTE) :
    Prop where
  memory : createAlloc ≤ call.command ∧ call.command ≤ saveAlloc
  store : call.server.memstore = x.1
  outQueue : Valid call.server.outQueue
  ran : ∃ done s', processCommand call.env call.command call.server = .ok (done, s') ∧
    y = (s'.memstore, liveAfter call.command call.server s' x.2)

/-- After `memstore_init`, with nothing given out. -/
def LiveStart (x : Memstore × Set BYTE) : Prop := (∃ m, x.1 = memstoreInit m) ∧ x.2 = ∅

/-- `FALLOC` confirms the id exactly if it is live, and it is not live any more;
    otherwise it answers with error 1 and leaves the store. -/
def FreesExactly (env : Env) (s : Server) (live : Set BYTE) : Prop :=
  ∃ s', processCommand env freeAlloc s = .ok (true, s') ∧
    (AnswersId s s' freeAlloc (byte (allocationIdOf s.inQueue)) 0 ↔
      byte (allocationIdOf s.inQueue) ∈ live) ∧
    byte (allocationIdOf s.inQueue) ∉ liveAfter freeAlloc s s' live ∧
    (byte (allocationIdOf s.inQueue) ∉ live →
      AnswersId s s' freeAlloc 0 1 ∧ s'.memstore = s.memstore)

section
variable {m m' : Memstore} {s s' : Server} {i : ℤ} {a : MemoryAllocation} {c : Command}

theorem AnswersId.inj {c' : Command} {id id' e e' : BYTE} (h : AnswersId s s' c id e)
    (h' : AnswersId s s' c' id' e') : byte c = byte c' ∧ id = id' ∧ e = e' := by
  have hframe := List.append_cancel_left (h.symm.trans h')
  have hbody : ([byte c, id, e] : List BYTE) = [byte c', id', e'] :=
    (encode_inj (by simp) (by simp) (congrArg (· ++ []) hframe)).1
  simpa using hbody

theorem not_answersId (h : s'.outQueue = s.outQueue) (c : Command) (id e : BYTE) :
    ¬ AnswersId s s' c id e := by
  intro ha
  have hlen := congrArg List.length ha
  rw [h, List.length_append] at hlen
  have hpos : 0 < (encode binaryCommand [byte c, id, e]).length := by
    rw [length_encode]; omega
  omega

/-! ## The marks of the slots -/

theorem isAllocated_congr (h : marks m' = marks m) : isAllocated m' i ↔ isAllocated m i := by
  have hi : (m' i).allocationId = (m i).allocationId := congrFun h i
  unfold isAllocated
  rw [hi]

/-- A creation marks the slot whose number it returns, or none. -/
theorem marks_create (env : Env) (m : Memstore) (pages kb : ℤ) {i : ℤ} {m' : Memstore}
    (h : memstoreCreateAllocationId env m pages kb = (i, m')) : i = 0 ∧ marks m' = marks m ∨
      (1 ≤ i ∧ i ≤ 20) ∧ marks m' = Function.update (marks m) i i := by
  unfold memstoreCreateAllocationId at h
  dsimp only at h
  rcases getFree_spec m with ⟨h1, h20, hfree⟩ | ⟨h0, -⟩
  · split_ifs at h with hslot
    · cases h
      exact .inr ⟨⟨h1, h20⟩, marks_update⟩
    · cases h
      exact .inl ⟨rfl, marks_same hfree.symm⟩
    · exact absurd ⟨by omega, by rw [maxMemoryAllocations]; omega⟩ hslot
  · rw [if_neg (by omega)] at h
    cases h
    exact .inl ⟨h0, rfl⟩

/-! ## The commands -/

/-- Of the memory commands only `CALLOC` and `FALLOC` change the marks. -/
theorem memory_marks {env : Env} (h : createAlloc ≤ c ∧ c ≤ saveAlloc) (hcreate : c ≠ createAlloc)
    (hfree : c ≠ freeAlloc) {r : Bool × Server}
    (hr : callFunction env s 0 (functionOf c) = .ok r) : marks r.2.memstore = marks s.memstore := by
  obtain ⟨hlow, hhigh⟩ := h
  unfold createAlloc at hlow hcreate
  unfold saveAlloc at hhigh
  unfold freeAlloc at hfree
  have hfns : functionOf c ≠ .commandReset ∧ functionOf c ≠ .commandCreateAlloc ∧
      functionOf c ≠ .commandFreeAlloc := by
    interval_cases c <;> first | decide | contradiction
  exact ((call_effect env s 0 hfns.1).result hr).marks hfns.2.1 hfns.2.2

theorem space_memory (h : createAlloc ≤ c ∧ c ≤ saveAlloc) : spaceOf (functionOf c) = 30 := by
  obtain ⟨hlow, hhigh⟩ := h
  unfold createAlloc at hlow
  unfold saveAlloc at hhigh
  interval_cases c <;> rfl

/-- `process_command` finds no space, or it calls the function of the command. -/
theorem processCommand_ran {env : Env} {done : Bool}
    (hr : processCommand env c s = .ok (done, s')) : s' = s ∨
      isQueueSpaceAvailable s.outQueue (spaceOf (functionOf c)) = true ∧
      ∃ r, callFunction env s 0 (functionOf c) = .ok r ∧ s'.memstore = r.2.memstore := by
  cases process_step hr with
  | noSpace => exact .inl rfl
  | complete hR hsp hcall => exact .inr ⟨hR.space ▸ hsp, _, hcall, rfl⟩
  | retried hR hsp _ hcall => exact .inr ⟨hR.space ▸ hsp, _, hcall, rfl⟩
  | scheduled hR hsp _ hcall hs =>
    obtain ⟨_, rfl, -⟩ := schedule_spec hs
    exact .inr ⟨hR.space ▸ hsp, _, hcall, rfl⟩

/-- `CALLOC` and `FALLOC` are complete at once. -/
theorem createAlloc_processed (env : Env) (hsp : isQueueSpaceAvailable s.outQueue 30 = true) :
    processCommand env createAlloc s = .ok (true, (commandCreateAlloc env s).2) := by
  have hdone : (commandCreateAlloc env s).1 = true := by
    unfold commandCreateAlloc
    dsimp only
    split_ifs <;> rfl
  rw [processCommand_calls (by decide) hsp rfl]
  exact if_pos hdone

theorem freeAlloc_processed (env : Env) (hsp : isQueueSpaceAvailable s.outQueue 30 = true) :
    processCommand env freeAlloc s = .ok (true, (commandFreeAlloc s).2) := by
  have hdone : (commandFreeAlloc s).1 = true := by
    unfold commandFreeAlloc
    dsimp only
    split_ifs <;> rfl
  rw [processCommand_calls (by decide) hsp rfl]
  exact if_pos hdone

/-- The answer of `CALLOC`: an error, or the number of the slot that is marked. -/
inductive Creates (s s' : Server) : Prop
  | error {e : BYTE} : e ≠ 0 → AnswersId s s' createAlloc 0 e →
      marks s'.memstore = marks s.memstore → Creates s s'
  | created {i : ℤ} : 1 ≤ i → i ≤ 20 → AnswersId s s' createAlloc (byte i) 0 →
      marks s'.memstore = Function.update (marks s.memstore) i i → Creates s s'

theorem createAlloc_creates (env : Env) (h : Valid s.outQueue)
    (hsp : isQueueSpaceAvailable s.outQueue 30 = true) : Creates s (commandCreateAlloc env s).2 := by
  have answers := fun {payload : List BYTE} (hl : payload.length ≤ 20) =>
    unread_buildResponse h hsp hl
  unfold commandCreateAlloc
  dsimp only
  split
  · exact .error (e := 1) (by decide) (answers (by decide)) rfl
  split
  · exact .error (e := 1) (by decide) (answers (by decide)) rfl
  generalize hcreate : memstoreCreateAllocationId env s.memstore _ _ = r
  obtain ⟨i, m⟩ := r
  dsimp only
  rcases marks_create env s.memstore _ _ hcreate with ⟨h0, hmarks⟩ | ⟨⟨h1, h20⟩, hmarks⟩
  · rw [if_pos h0]
    exact .error (e := 2) (by decide) (answers (by decide)) hmarks
  · rw [if_neg (by omega)]
    exact .created h1 h20 (answers (by simp)) hmarks

/-- The answer of `FALLOC`: the slot holds the number, or it does not. -/
inductive Frees (s s' : Server) (i : ℤ) : Prop
  | freed : i < maxMemoryAllocations → marks s.memstore i = i →
      AnswersId s s' freeAlloc (byte i) 0 →
      marks s'.memstore = Function.update (marks s.memstore) i 0 → Frees s s' i
  | refused : ¬ (i < maxMemoryAllocations ∧ marks s.memstore i = i) →
      AnswersId s s' freeAlloc 0 1 → s'.memstore = s.memstore → Frees s s' i

theorem freeAlloc_frees (h : Valid s.outQueue) (hsp : isQueueSpaceAvailable s.outQueue 30 = true) :
    Frees s (commandFreeAlloc s).2 (allocationIdOf s.inQueue) := by
  have answers := fun {payload : List BYTE} (hl : payload.length ≤ 20) =>
    unread_buildResponse h hsp hl
  unfold commandFreeAlloc memstoreFreeAllocationId allocationIdOf
  dsimp only
  generalize getCommandNext8bitParamBin s.inQueue = p
  by_cases hlt : p.1 < maxMemoryAllocations
  · by_cases hid : (s.memstore p.1).allocationId = p.1
    · rw [if_pos hlt, if_pos hid]
      exact .freed hlt hid (answers (by simp)) marks_update
    · rw [if_pos hlt, if_neg hid]
      exact .refused (fun hok => hid hok.2) (answers (by decide)) rfl
  · rw [if_neg hlt]
    exact .refused (fun hok => hlt hok.1) (answers (by decide)) rfl

/-! ## Runs -/

/-- The live ids are the numbers of the slots in use, and slot 0 is not in use. -/
structure LiveIds (x : Memstore × Set BYTE) : Prop where
  live : ∀ id : BYTE, id ∈ x.2 ↔ isAllocated x.1 id.toNat
  zero : marks x.1 0 = 0

theorem liveIds_start {x : Memstore × Set BYTE} (h : LiveStart x) : LiveIds x := by
  obtain ⟨⟨m, hm⟩, hlive⟩ := h
  have hzero : ∀ i, 0 ≤ i ∧ i < maxMemoryAllocations → marks x.1 i = 0 := fun i hi => by
    rw [hm, marks, memstoreInit_slot hi]
    rfl
  refine ⟨fun id => ?_, hzero 0 (by decide)⟩
  rw [hlive]
  refine iff_of_false (Set.notMem_empty _) ?_
  rintro ⟨h0, h1, hid⟩
  have := hzero _ ⟨h0.le, h1⟩
  unfold marks at this
  omega

theorem isAllocated_created {j : ℤ} (h1 : 1 ≤ i) (h20 : i ≤ 20)
    (hmarks : marks m' = Function.update (marks m) i i) :
    isAllocated m' j ↔ j = i ∨ isAllocated m j := by
  change (0 < j ∧ j < maxMemoryAllocations ∧ marks m' j = j) ↔ _
  rw [hmarks]
  by_cases hj : j = i
  · subst hj
    rw [Function.update_self, maxMemoryAllocations]
    exact iff_of_true ⟨by omega, by omega, rfl⟩ (.inl rfl)
  · rw [Function.update_of_ne hj, or_iff_right hj]
    rfl

theorem isAllocated_freed {j : ℤ} (hmarks : marks m' = Function.update (marks m) i 0) :
    isAllocated m' j ↔ j ≠ i ∧ isAllocated m j := by
  change (0 < j ∧ j < maxMemoryAllocations ∧ marks m' j = j) ↔ _
  rw [hmarks]
  by_cases hj : j = i
  · subst hj
    rw [Function.update_self]
    exact iff_of_false (fun h => by omega) fun h => h.1 rfl
  · rw [Function.update_of_ne hj, and_iff_right hj]
    rfl

theorem eq_byte_iff {id : BYTE} (h0 : 0 ≤ i) (h1 : i < 256) : id = byte i ↔ (id.toNat : ℤ) = i := by
  have hi := toNat_byte_of_lt h0 h1
  constructor
  · rintro rfl
    exact hi
  · intro hid
    exact UInt8.toNat_inj.1 (by omega)

theorem allocationIdOf_byte (q : Queue) : 0 ≤ allocationIdOf q ∧ allocationIdOf q < 256 :=
  ⟨Int.natCast_nonneg _, Int.ofNat_lt.2 (UInt8.toNat_lt _)⟩

theorem LiveIds.create {live : Set BYTE} (h : LiveIds (s.memstore, live)) (hc : Creates s s') :
    LiveIds (s'.memstore, liveAfter createAlloc s s' live) := by
  have stays : ∀ {id : BYTE}, id ∈ live → id ∈ liveAfter createAlloc s s' live :=
    fun hid => .inr ⟨hid, fun hf => absurd hf.1 (by decide)⟩
  have hlive : ∀ id : BYTE, id ∈ live ↔ isAllocated s.memstore id.toNat := h.live
  cases hc with
  | error he hans hmarks =>
    refine ⟨fun id => ?_, (congrFun hmarks 0).trans h.zero⟩
    dsimp only
    rw [isAllocated_congr hmarks, ← hlive]
    refine ⟨fun hid => ?_, stays⟩
    rcases hid with ⟨-, hans'⟩ | ⟨hid, -⟩
    · exact absurd (hans.inj hans').2.2 he
    · exact hid
  | @created i h1 h20 hans hmarks =>
    refine ⟨fun id => ?_, ?_⟩
    · dsimp only
      rw [isAllocated_created h1 h20 hmarks, ← hlive, ← eq_byte_iff (by omega) (by omega)]
      constructor
      · rintro (⟨-, hans'⟩ | ⟨hid, -⟩)
        · exact .inl (hans.inj hans').2.1.symm
        · exact .inr hid
      · rintro (rfl | hid)
        · exact .inl ⟨rfl, hans⟩
        · exact stays hid
    · dsimp only
      rw [hmarks, Function.update_of_ne (by omega)]
      exact h.zero

theorem LiveIds.free {live : Set BYTE} (h : LiveIds (s.memstore, live)) {i : ℤ} (h0 : 0 ≤ i)
    (hf : Frees s s' i) : LiveIds (s'.memstore, liveAfter freeAlloc s s' live) := by
  have hlive : ∀ id : BYTE, id ∈ live ↔ isAllocated s.memstore id.toNat := h.live
  cases hf with
  | freed hlt hmark hans hmarks =>
    rw [maxMemoryAllocations] at hlt
    refine ⟨fun id => ?_, ?_⟩
    · dsimp only
      rw [isAllocated_freed hmarks, ← hlive, ne_eq, ← eq_byte_iff h0 (by omega)]
      constructor
      · rintro (⟨hc, -⟩ | ⟨hid, hno⟩)
        · exact absurd hc (by decide)
        · exact ⟨fun he => hno ⟨rfl, he ▸ hans⟩, hid⟩
      · rintro ⟨hne, hid⟩
        exact .inr ⟨hid, fun hc => hne (hans.inj hc.2).2.1.symm⟩
    · dsimp only
      rw [hmarks]
      by_cases hi : (0 : ℤ) = i
      · rw [← hi, Function.update_self]
      · rw [Function.update_of_ne hi]
        exact h.zero
  | refused _ hans hsame =>
    refine ⟨fun id => ?_, ?_⟩
    · dsimp only
      rw [hsame, ← hlive]
      constructor
      · rintro (⟨hc, -⟩ | ⟨hid, -⟩)
        · exact absurd hc (by decide)
        · exact hid
      · intro hid
        exact .inr ⟨hid, fun hc => absurd (hans.inj hc.2).2.2 (by decide)⟩
    · dsimp only
      rw [hsame]
      exact h.zero

/-- The other commands, and a command without space, change nothing. -/
theorem LiveIds.keep {live : Set BYTE} (h : LiveIds (s.memstore, live))
    (hmarks : marks s'.memstore = marks s.memstore)
    (hcreate : c = createAlloc → ∀ id, ¬ AnswersId s s' createAlloc id 0)
    (hfree : c = freeAlloc → ∀ id, ¬ AnswersId s s' freeAlloc id 0) :
    LiveIds (s'.memstore, liveAfter c s s' live) := by
  refine ⟨fun id => ?_, (congrFun hmarks 0).trans h.zero⟩
  dsimp only
  rw [isAllocated_congr hmarks]
  refine Iff.trans ⟨fun hid => ?_, fun hid => ?_⟩ (h.live id)
  · rcases hid with ⟨hc, hans⟩ | ⟨hid, -⟩
    · exact absurd hans (hcreate hc id)
    · exact hid
  · exact .inr ⟨hid, fun hc => hfree hc.1 id hc.2⟩

/-- One memory command keeps the live ids and the marks in step. -/
theorem MemoryStep.liveIds {x y : Memstore × Set BYTE} {call : MemoryCall}
    (hstep : MemoryStep x call y) (h : LiveIds x) : LiveIds y := by
  obtain ⟨hmemory, hstore, hout, done, s', hran, rfl⟩ := hstep
  obtain ⟨m, live⟩ := x
  obtain ⟨env, s, c⟩ := call
  dsimp only at hmemory hstore hout hran h ⊢
  subst hstore
  rcases processCommand_ran hran with rfl | ⟨hsp, r, hcall, hm⟩
  · exact h.keep rfl (fun _ id => not_answersId rfl _ id _) fun _ id => not_answersId rfl _ id _
  rw [space_memory hmemory] at hsp
  by_cases hcreate : c = createAlloc
  · subst hcreate
    rw [createAlloc_processed env hsp] at hran
    cases hran
    exact h.create (createAlloc_creates env hout hsp)
  by_cases hfree : c = freeAlloc
  · subst hfree
    rw [freeAlloc_processed env hsp] at hran
    cases hran
    exact h.free (allocationIdOf_byte _).1 (freeAlloc_frees hout hsp)
  · exact h.keep (by rw [hm]; exact memory_marks hmemory hcreate hfree hcall)
      (fun hc => absurd hc hcreate) fun hc => absurd hc hfree

/-- **The live ids are the slots in use**, after every run of the memory commands. -/
theorem reach_liveIds {x : Memstore × Set BYTE}
    (hr : Reach LiveStart MemoryStep (fun _ _ => True) x) : LiveIds x :=
  hr.inv (fun _ => liveIds_start) fun _ _ _ h _ hstep => hstep.liveIds h

end

/-- **When `FALLOC` succeeds exactly on live ids**, after every run of the memory
    commands: for every id but 0, which it finds in slot 0. -/
theorem freeAlloc_exact_iff {x : Memstore × Set BYTE}
    (hr : Reach LiveStart MemoryStep (fun _ _ => True) x) (env : Env) {s : Server}
    (hm : s.memstore = x.1) (hout : Valid s.outQueue)
    (hsp : isQueueSpaceAvailable s.outQueue 30 = true) :
    FreesExactly env s x.2 ↔ allocationIdOf s.inQueue ≠ 0 := by
  obtain ⟨m, live⟩ := x
  dsimp only at hm ⊢
  subst hm
  have hinv := reach_liveIds hr
  have hlive : ∀ id : BYTE, id ∈ live ↔ isAllocated s.memstore id.toNat := hinv.live
  have hfrees := freeAlloc_frees hout hsp
  obtain ⟨h0, h1⟩ := allocationIdOf_byte s.inQueue
  have hbyte : ((byte (allocationIdOf s.inQueue)).toNat : ℤ) = allocationIdOf s.inQueue :=
    toNat_byte_of_lt h0 h1
  unfold FreesExactly
  rw [freeAlloc_processed env hsp]
  generalize (commandFreeAlloc s).2 = s' at hfrees
  generalize allocationIdOf s.inQueue = i at *
  have hmem : byte i ∈ live ↔ isAllocated s.memstore i := by rw [hlive, hbyte]
  constructor
  · rintro ⟨s'', hs, hiff, -, -⟩ rfl
    cases hs
    cases hfrees with
    | freed _ _ hans => exact absurd (hmem.1 (hiff.1 hans)).1 (by decide)
    | refused hno => exact hno ⟨by decide, hinv.zero⟩
  · intro hne
    cases hfrees with
    | freed hlt hmark hans hmarks =>
      have hin : byte i ∈ live := hmem.2 ⟨by omega, hlt, hmark⟩
      refine ⟨s', rfl, iff_of_true hans hin, ?_, fun hno => absurd hin hno⟩
      rintro (⟨hc, -⟩ | ⟨-, hno⟩)
      · exact absurd hc (by decide)
      · exact hno ⟨rfl, hans⟩
    | refused hno hans hsame =>
      have hout : byte i ∉ live := fun hin => hno (hmem.1 hin).2
      refine ⟨s', rfl, iff_of_false (fun hans' => ?_) hout, ?_, fun _ => ⟨hans, hsame⟩⟩
      · exact absurd (hans.inj hans').2.2 (by decide)
      · rintro (⟨hc, -⟩ | ⟨hin, -⟩)
        · exact absurd hc (by decide)
        · exact hout hin

/-- A store that is asked for something. -/
def asked (m : Memstore) (params : List BYTE) : Server := { serverOf params with memstore := m }

theorem asked_outQueue (m : Memstore) (params : List BYTE) : Valid (asked m params).outQueue :=
  queueOf_valid (by decide)

theorem asked_space (m : Memstore) (params : List BYTE) :
    isQueueSpaceAvailable (asked m params).outQueue 30 = true := by
  change isQueueSpaceAvailable (queueOf []) 30 = true
  decide

/-- An instance: the allocation that was just created is freed. -/
theorem freeAlloc_exact_created : ∃ x, Reach LiveStart MemoryStep (fun _ _ => True) x ∧
    byte 1 ∈ x.2 ∧ FreesExactly calmEnv (asked x.1 [1]) x.2 := by
  let s := asked (memstoreInit fun _ => .zero) [1, 0, 1]
  have hran := createAlloc_processed calmEnv (asked_space (memstoreInit fun _ => .zero) [1, 0, 1])
  have hans : AnswersId s (commandCreateAlloc calmEnv s).2 createAlloc (byte 1) 0 := by
    unfold AnswersId
    decide +kernel
  generalize (commandCreateAlloc calmEnv s).2 = s' at hran hans
  have hr : Reach LiveStart MemoryStep (fun _ _ => True)
      (s'.memstore, liveAfter createAlloc s s' ∅) :=
    Reach.next (s := (s.memstore, ∅)) (i := ⟨calmEnv, s, createAlloc⟩) (.start ⟨⟨_, rfl⟩, rfl⟩)
      trivial ⟨⟨by decide, by decide⟩, rfl, asked_outQueue _ _, true, s', hran, rfl⟩
  have hne : allocationIdOf (asked s'.memstore [1]).inQueue ≠ 0 := by
    change allocationIdOf (queueOf [1]) ≠ 0
    decide
  have hexact := freeAlloc_exact_iff hr calmEnv (s := asked s'.memstore [1]) rfl
    (asked_outQueue _ _) (asked_space _ _)
  exact ⟨_, hr, .inl ⟨rfl, hans⟩, hexact.2 hne⟩

/-- At the start `FALLOC` confirms that it freed id 0. -/
theorem freeAlloc_reserved : ∃ x s', Reach LiveStart MemoryStep (fun _ _ => True) x ∧ x.2 = ∅ ∧
    processCommand calmEnv freeAlloc (asked x.1 [0]) = .ok (true, s') ∧
    AnswersId (asked x.1 [0]) s' freeAlloc 0 0 ∧ ¬ FreesExactly calmEnv (asked x.1 [0]) x.2 := by
  let s := asked (memstoreInit fun _ => .zero) [0]
  have hran : processCommand calmEnv freeAlloc s = .ok (true, (commandFreeAlloc s).2) :=
    freeAlloc_processed calmEnv (asked_space _ _)
  have hans : AnswersId s (commandFreeAlloc s).2 freeAlloc 0 0 := by
    unfold AnswersId
    decide +kernel
  refine ⟨(s.memstore, ∅), _, .start ⟨⟨_, rfl⟩, rfl⟩, rfl, hran, hans, ?_⟩
  rintro ⟨s', hs, hiff, -, -⟩
  cases hran.symm.trans hs
  exact absurd (hiff.1 hans) (Set.notMem_empty _)

end CpcLink
