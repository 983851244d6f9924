/-
  What a call of a command function leaves as it was: the send lock, which only
  `RALLOC` sets, the table, and the slots of the memory store other than its own.
-/
import CpcLink.Lib.Outcome
import CpcLink.Proof.Dispatch

namespace CpcLink

/-- The slot a command works on. -/
def slotOf (fn : CommandFunction) (s : Server) : Option ℤ :=
  match fn with
  | .commandCreateAlloc => some (getFreeMemoryAllocation s.memstore)
  | .commandFreeAlloc | .commandStoreAlloc | .commandInsertAlloc | .commandCutAlloc
  | .commandLoadAlloc | .commandSaveAlloc => some (allocationIdOf s.inQueue)
  | _ => none

/-- The frame of a call other than `RESET`. -/
structure Leaves (fn : CommandFunction) (s : Server) (r : Bool × Server) : Prop where
  sendMode : fn ≠ .commandRetrieveAlloc → r.2.binaryDataSendMode = s.binaryDataSendMode
  slots : ∀ i, slotOf fn s ≠ some i → r.2.memstore i = s.memstore i

/-- Only the slot `i` of the store is changed. -/
def OnlySlot (m : Memstore) (i : ℤ) (m' : Memstore) : Prop := ∀ j, j ≠ i → m' j = m j

/-- The number each slot holds. -/
def marks (m : Memstore) : ℤ → ℤ := fun i => (m i).allocationId

/-- The slot `i` is written, and no slot is given out or freed. -/
structure Writes (m : Memstore) (i : ℤ) (m' : Memstore) : Prop where
  only : OnlySlot m i m'
  marks : CpcLink.marks m' = CpcLink.marks m

/-- What a call other than `RESET` does: only a command of several steps or one
    that is read again is not complete, and only `CALLOC` and `FALLOC` give out
    and free slots. -/
structure Effect (fn : CommandFunction) (s : Server) (r : Bool × Server) : Prop
    extends Leaves fn s r where
  table : r.2.commandStates = s.commandStates
  marks : fn ≠ .commandCreateAlloc → fn ≠ .commandFreeAlloc →
    CpcLink.marks r.2.memstore = CpcLink.marks s.memstore
  incomplete : r.1 = false → staged fn = true ∨ retried fn = true

section
variable {fn : CommandFunction} {s s' : Server} {done : Bool} {m : Memstore} {i : ℤ}
  {a : MemoryAllocation}

/-- A call that leaves them all. -/
theorem Effect.same (hsend : s'.binaryDataSendMode = s.binaryDataSendMode)
    (htable : s'.commandStates = s.commandStates) (hm : s'.memstore = s.memstore)
    (hdone : done = false → staged fn = true ∨ retried fn = true) : Effect fn s (done, s') where
  sendMode _ := hsend
  slots i _ := by rw [hm]
  table := htable
  marks _ _ := by rw [hm]
  incomplete := hdone

/-- A call that writes its own slot, and is complete. -/
theorem Effect.slot (hi : slotOf fn s = some i)
    (hsend : s'.binaryDataSendMode = s.binaryDataSendMode)
    (htable : s'.commandStates = s.commandStates) (hm : Writes s.memstore i s'.memstore) :
    Effect fn s (true, s') where
  sendMode _ := hsend
  slots j hj := hm.only j (by rintro rfl; exact hj hi)
  table := htable
  marks _ _ := hm.marks
  incomplete := nofun

/-- A call that gives out its own slot, or frees it. -/
theorem Effect.given (hfn : fn = .commandCreateAlloc ∨ fn = .commandFreeAlloc)
    (hi : slotOf fn s = some i) (hsend : s'.binaryDataSendMode = s.binaryDataSendMode)
    (htable : s'.commandStates = s.commandStates) (hm : OnlySlot s.memstore i s'.memstore) :
    Effect fn s (true, s') where
  sendMode _ := hsend
  slots j hj := hm j (by rintro rfl; exact hj hi)
  table := htable
  marks hcreate hfree := by
    rcases hfn with h | h
    · exact absurd h hcreate
    · exact absurd h hfree
  incomplete := nofun

/-- An answer leaves them, too. -/
theorem Effect.respond (h : Effect fn s (done, s')) (commandId : Command) (params : List ℤ) :
    Effect fn s (done, respondBytes s' commandId params) where
  sendMode := h.sendMode
  slots := h.slots
  table := h.table
  marks := h.marks
  incomplete := h.incomplete

/-! ## The operations of the store -/

theorem marks_update :
    marks (Function.update m i a) = Function.update (marks m) i a.allocationId := by
  funext j
  by_cases hj : j = i
  · subst hj
    rw [marks, Function.update_self, Function.update_self]
  · rw [marks, Function.update_of_ne hj, Function.update_of_ne hj]
    rfl

theorem marks_same (ha : a.allocationId = (m i).allocationId) :
    marks (Function.update m i a) = marks m := by
  rw [marks_update, Function.update_eq_self_iff]
  exact ha

theorem onlySlot_refl (m : Memstore) (i : ℤ) : OnlySlot m i m := fun _ _ => rfl

theorem onlySlot_update (m : Memstore) (i : ℤ) (a : MemoryAllocation) :
    OnlySlot m i (Function.update m i a) := fun _ hj => Function.update_of_ne hj ..

theorem Writes.refl (m : Memstore) (i : ℤ) : Writes m i m := ⟨onlySlot_refl m i, rfl⟩

theorem Writes.update (ha : a.allocationId = (m i).allocationId) :
    Writes m i (Function.update m i a) := ⟨onlySlot_update m i a, marks_same ha⟩

variable (env : Env) (m : Memstore) (w : World) (i : ℤ)

theorem onlySlot_create (pages kb : ℤ) :
    OnlySlot m (getFreeMemoryAllocation m) (memstoreCreateAllocationId env m pages kb).2 := by
  unfold memstoreCreateAllocationId
  dsimp only
  split_ifs
  · exact onlySlot_update m _ _
  · exact onlySlot_update m _ _
  · exact onlySlot_refl m _

theorem onlySlot_free : OnlySlot m i (memstoreFreeAllocationId m i).2 := by
  unfold memstoreFreeAllocationId
  split_ifs
  · exact onlySlot_update m _ _
  · exact onlySlot_refl m _
  · exact onlySlot_refl m _

theorem writes_store (p : ℤ) (data : List BYTE) :
    Ensures (memstoreStorePageOfData m i p data) (fun r => Writes m i r.2) fun _ => True :=
  .ite (fun _ => (Ensures.any _).bind fun _ _ => .ok (.update rfl)) fun _ => .ok (.refl m i)

theorem writes_insert (at_ n : ℤ) (data : List BYTE) :
    Ensures (memstoreInsertData m i at_ n data) (fun r => Writes m i r.2) fun _ => True :=
  .ite (fun _ => (Ensures.any _).bind fun _ _ => (Ensures.any _).bind fun _ _ =>
      (Ensures.any _).bind fun _ _ => .ok (.update rfl))
    fun _ => .ok (.refl m i)

theorem writes_cut (at_ n : ℤ) :
    Ensures (memstoreCutData m i at_ n) (fun r => Writes m i r.2) fun _ => True :=
  .ite (fun _ => (Ensures.any _).bind fun _ _ => (Ensures.any _).bind fun _ _ =>
      (Ensures.any _).bind fun _ _ => .ok (.update rfl))
    fun _ => .ok (.refl m i)

theorem writes_load (name : FileName) : Ensures (memstoreLoadData env m w i name)
    (fun r => Writes m i r.memstore) fun _ => True := by
  have closed : ∀ p, closeFile (m i) w = .ok p → p.1.allocationId = (m i).allocationId :=
    fun _ h => (closeFile_spec h).1
  have filled : ∀ (w : World) (a : MemoryAllocation) (file : File) r,
      readFile env w a file = .ok r → r.2.2.2.allocationId = a.allocationId :=
    fun _ _ _ _ h => (readFile_frame h).1
  have cleared : ∀ a a', clearData a = .ok a' → a'.allocationId = a.allocationId :=
    fun _ _ h => (clearData_frame h).1
  refine .ite (fun _ => (Ensures.of_ok closed).bind fun p hp => ?_) fun _ => .ok (.refl m i)
  dsimp only
  split
  · exact .ok (.update hp)
  · refine (Ensures.of_ok (filled _ _ _)).bind fun r hr => ?_
    split
    · exact .ok (.update (hr.trans hp))
    · exact (Ensures.of_ok (cleared _)).bind fun a ha => .ok (.update (ha.trans (hr.trans hp)))

theorem writes_save (name : FileName) (n : ℤ) : Ensures (memstoreSaveData env m w i name n)
    (fun r => Writes m i r.2.1) fun _ => True := by
  refine .ite (fun _ => ?_) fun _ => .ok (.refl m i)
  dsimp only
  split
  · exact .ok (.update rfl)
  · exact .ite (fun _ => (Ensures.any _).bind fun _ _ => .ok (.update rfl))
      fun _ => .ok (.update rfl)

end

/-! ## The commands -/

/-- The postcondition of every command but `RESET`. -/
def Framed (fn : CommandFunction) (s : Server) (x : Except Fault (Bool × Server)) : Prop :=
  Ensures x (Leaves fn s) fun _ => True

/-- The same with all that the call does. -/
def HasEffect (fn : CommandFunction) (s : Server) (x : Except Fault (Bool × Server)) : Prop :=
  Ensures x (Effect fn s) fun _ => True

section
variable (env : Env) (s : Server)

theorem shutdown_effect (tick : ℤ) : Effect .commandShutdown s (commandShutdown env s tick) := by
  unfold commandShutdown
  split <;> exact .same rfl rfl rfl fun _ => .inl rfl

theorem reboot_effect (tick : ℤ) : Effect .commandReboot s (commandReboot env s tick) := by
  unfold commandReboot
  split <;> exact .same rfl rfl rfl fun _ => .inl rfl

theorem help_effect : Effect .commandHelp s (commandHelp s) := by
  unfold commandHelp
  dsimp only
  split_ifs <;> exact .same rfl rfl rfl fun _ => .inl rfl

theorem wifiIp_effect : HasEffect .commandWifiIp s (commandWifiIp env s) := by
  unfold commandWifiIp
  refine .ite (fun _ => .ok (.same rfl rfl rfl nofun)) fun _ => ?_
  dsimp only
  split
  · exact .ok (.same rfl rfl rfl nofun)
  · exact .ite (fun _ => .ok (.same rfl rfl rfl nofun)) fun _ =>
      .ite (fun _ => .ok (.same rfl rfl rfl nofun)) fun _ => .error trivial

theorem shellexec_effect : HasEffect .commandShellexec s (commandShellexec env s) := by
  unfold commandShellexec
  refine .ite (fun _ => .ok (.same rfl rfl rfl nofun)) fun _ =>
    (Ensures.any _).bind fun buffer _ => ?_
  refine .ite (fun _ => .ok (.same rfl rfl rfl nofun)) fun _ => ?_
  dsimp only
  split
  · exact .ok (.same rfl rfl rfl nofun)
  · exact .ite (fun _ => .ok (.same rfl rfl rfl nofun)) fun _ =>
      .ite (fun _ => .ok (.same rfl rfl rfl nofun)) fun _ =>
        .ite (fun _ => (Ensures.any _).bind fun _ _ => .ok (.same rfl rfl rfl nofun)) fun _ =>
          .ok (.same rfl rfl rfl fun _ => .inr rfl)

theorem createAlloc_effect : Effect .commandCreateAlloc s (commandCreateAlloc env s) := by
  unfold commandCreateAlloc
  dsimp only
  split_ifs
  · exact .same rfl rfl rfl nofun
  · exact .same rfl rfl rfl nofun
  · exact .given (.inl rfl) rfl rfl rfl (onlySlot_create env _ _ _)
  · exact .given (.inl rfl) rfl rfl rfl (onlySlot_create env _ _ _)

theorem freeAlloc_effect : Effect .commandFreeAlloc s (commandFreeAlloc s) := by
  unfold commandFreeAlloc
  dsimp only
  split_ifs
  · exact .given (.inr rfl) rfl rfl rfl (onlySlot_free _ _)
  · exact .given (.inr rfl) rfl rfl rfl (onlySlot_free _ _)

theorem retrieveAlloc_effect : HasEffect .commandRetrieveAlloc s (commandRetrieveAlloc s) := by
  have only : ∀ {r : Bool × Server}, r.2.commandStates = s.commandStates →
      r.2.memstore = s.memstore → Effect .commandRetrieveAlloc s r := fun htable hm =>
    { sendMode := fun h => absurd rfl h
      slots := fun i _ => by rw [hm]
      table := htable
      marks := fun _ _ => by rw [hm]
      incomplete := fun _ => .inr rfl }
  unfold commandRetrieveAlloc
  refine .ite (fun _ => .ok (only rfl rfl)) fun _ => ?_
  dsimp only
  split
  · exact .ite (fun _ => .ite (fun _ => (Ensures.any _).bind fun _ _ => .ok (only rfl rfl))
      fun _ => .ok (only rfl rfl)) fun _ => .ok (only rfl rfl)
  · exact .ok (only rfl rfl)

theorem storeAlloc_effect : HasEffect .commandStoreAlloc s (commandStoreAlloc env s) := by
  unfold commandStoreAlloc
  refine .ite (fun _ => .ok (.same rfl rfl rfl nofun)) fun _ =>
    .ite (fun _ => .ok (.same rfl rfl rfl nofun)) fun _ =>
    .ite (fun _ => .ok (.same rfl rfl rfl nofun)) fun _ =>
    .ite (fun _ => .ok (.same rfl rfl rfl fun _ => .inr rfl)) fun _ =>
    .ite (fun _ => .ok (.same rfl rfl rfl nofun)) fun _ => (writes_store ..).bind fun w hw => ?_
  exact .ite (fun _ => .ok (.slot rfl rfl rfl hw)) fun _ => .ok (.slot rfl rfl rfl hw)

theorem insertAlloc_effect : HasEffect .commandInsertAlloc s (commandInsertAlloc env s) := by
  unfold commandInsertAlloc
  refine .ite (fun _ => .ok (.same rfl rfl rfl nofun)) fun _ =>
    .ite (fun _ => .ok (.same rfl rfl rfl nofun)) fun _ =>
    .ite (fun _ => .ok (.same rfl rfl rfl fun _ => .inr rfl)) fun _ =>
    .ite (fun _ => .ok (.same rfl rfl rfl nofun)) fun _ => (writes_insert ..).bind fun w hw => ?_
  exact .ite (fun _ => .ok (.slot rfl rfl rfl hw)) fun _ => .ok (.slot rfl rfl rfl hw)

theorem cutAlloc_effect : HasEffect .commandCutAlloc s (commandCutAlloc s) := by
  unfold commandCutAlloc
  dsimp only
  refine .ite (fun _ => .ok ?_) fun _ => ?_
  · refine Effect.respond ?_ _ _
    exact .same rfl rfl rfl nofun
  refine (writes_cut ..).bind fun w hw => ?_
  refine .ite (fun _ => .ok ?_) fun _ => .ok ?_
  · refine Effect.respond ?_ _ _
    exact .slot rfl rfl rfl hw
  · refine Effect.respond ?_ _ _
    exact .slot rfl rfl rfl hw

theorem loadAlloc_effect : HasEffect .commandLoadAlloc s (commandLoadAlloc env s) := by
  unfold commandLoadAlloc
  refine .ite (fun _ => .ok (.same rfl rfl rfl nofun)) fun _ => (Ensures.any _).bind fun name _ =>
    (writes_load ..).bind fun w hw => ?_
  exact .ite (fun _ => .ok (.slot rfl rfl rfl hw)) fun _ =>
    .ite (fun _ => .ok (.slot rfl rfl rfl hw)) fun _ => .ok (.slot rfl rfl rfl hw)

theorem saveAlloc_effect : HasEffect .commandSaveAlloc s (commandSaveAlloc env s) := by
  unfold commandSaveAlloc
  refine .ite (fun _ => .ok (.same rfl rfl rfl nofun)) fun _ => (Ensures.any _).bind fun name _ =>
    (writes_save ..).bind fun w hw => ?_
  exact .ite (fun _ => .ok (.slot rfl rfl rfl hw)) fun _ => .ok (.slot rfl rfl rfl hw)

/-- **What every command but `RESET` leaves as it was.** -/
theorem call_effect (tick : ℤ) {fn : CommandFunction} (hreset : fn ≠ .commandReset) :
    HasEffect fn s (callFunction env s tick fn) := by
  cases fn with
  | commandReset => exact absurd rfl hreset
  | commandShutdown => exact .ok (shutdown_effect env s tick)
  | commandReboot => exact .ok (reboot_effect env s tick)
  | commandHelp => exact .ok (help_effect s)
  | commandWifiIp => exact wifiIp_effect env s
  | commandShellexec => exact shellexec_effect env s
  | commandCreateAlloc => exact .ok (createAlloc_effect env s)
  | commandFreeAlloc => exact .ok (freeAlloc_effect s)
  | commandRetrieveAlloc => exact retrieveAlloc_effect s
  | commandStoreAlloc => exact storeAlloc_effect env s
  | commandInsertAlloc => exact insertAlloc_effect env s
  | commandCutAlloc => exact cutAlloc_effect s
  | commandLoadAlloc => exact loadAlloc_effect env s
  | commandSaveAlloc => exact saveAlloc_effect env s
  | commandGetFile | commandPutFile | commandGetMemFile | commandPutMemFile =>
    exact .ok (.same rfl rfl rfl fun _ => .inl rfl)
  | _ => exact .ok (.same rfl rfl rfl nofun)

/-- **Every command but `RESET` keeps to its own slot**, and every other one but
    `RALLOC` leaves the send lock. -/
theorem call_leaves (tick : ℤ) {fn : CommandFunction} (hreset : fn ≠ .commandReset) :
    Framed fn s (callFunction env s tick fn) :=
  (call_effect env s tick hreset).mono (fun _ h => h.toLeaves) fun _ h => h

end

end CpcLink
