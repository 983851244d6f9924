/-
  Do the indices into the command table stay in it?

  The id of a text command comes from a search of the table.  The id of a binary
  command is whatever byte follows the header: a body may start with any byte,
  and behind an empty body that byte is the first of the terminator.
-/
import CpcLink.Lib.Outcome
import CpcLink.Proof.Table

namespace CpcLink

/-- The ids of the enumeration that name a command. -/
def Named (c : Command) : Prop := (1 ≤ c ∧ c ≤ shellExec) ∨ (createAlloc ≤ c ∧ c < maxCommands)

instance (c : Command) : Decidable (Named c) := inferInstanceAs (Decidable (_ ∨ _))

/-- The lookups of a dispatch.  `request` is the id that `main` passes to
    `process_command` and, for a binary command, to `get_command_name_from_id`. -/
structure LookupsInRange (env : Env) (s : Server) : Prop where
  id : ∀ c k, request s.inQueue = some (c, k) → c < maxCommands
  name : ∀ c k, request s.inQueue = some (c, k) → ∃ name, getCommandNameFromId c = .ok name
  run : dispatch env s ≠ .error .commandTable
  unnamed : ∀ c k, request s.inQueue = some (c, k) → ¬ Named c →
    isQueueSpaceAvailable s.outQueue 30 = true →
    dispatch env s = .ok (.processed, skipEnd (commandUnknown (atParams s k)).2)

/-- A text command, or a binary command that starts with an id of the table. -/
def InTable (ty : PacketType) (body : List BYTE) : Prop :=
  ty = textCommand ∨ ∃ b tail, body = b :: tail ∧ b.toNat < maxCommands

/-! ## Faults -/

/-- The table is not indexed out of its bounds. -/
def TableSafe {α : Type} (x : Except Fault α) : Prop :=
  Ensures x (fun _ => True) (· ≠ .commandTable)

section
variable {α β : Type} {x : Except Fault α} {f : α → Except Fault β}

theorem tableSafe_ok (a : α) : TableSafe (.ok a : Except Fault α) := .ok trivial

theorem tableSafe_error {e : Fault} (he : e ≠ .commandTable) :
    TableSafe (.error e : Except Fault α) := .error he

theorem TableSafe.bind (hx : TableSafe x) (hf : ∀ a, TableSafe (f a)) : TableSafe (x >>= f) :=
  Ensures.bind hx fun a _ => hf a

theorem tableSafe_ite {p : Prop} [Decidable p] {x y : Except Fault α} (hx : TableSafe x)
    (hy : TableSafe y) : TableSafe (if p then x else y) := .ite (fun _ => hx) fun _ => hy

theorem TableSafe.ne (hx : TableSafe x) : x ≠ .error .commandTable :=
  fun he => absurd rfl (hx.fault he)

theorem tableSafe_memRead (data : Option (List BYTE)) (off n : ℤ) :
    TableSafe (memRead data off n) := by
  unfold memRead
  split
  · exact tableSafe_ite (tableSafe_ok _) (tableSafe_error (by decide))
  · exact tableSafe_error (by decide)

theorem tableSafe_memWrite (data : Option (List BYTE)) (off : ℤ) (src : List BYTE) :
    TableSafe (memWrite data off src) := by
  unfold memWrite
  split
  · exact tableSafe_ite (tableSafe_ok _) (tableSafe_error (by decide))
  · exact tableSafe_error (by decide)

theorem tableSafe_bufferString (size : ℕ) (text : List BYTE) :
    TableSafe (bufferString size text) :=
  tableSafe_ite (tableSafe_ok _) (tableSafe_error (by decide))

end

section
variable (env : Env) (m : Memstore) (w : World) (i : ℤ)

theorem tableSafe_store (p : ℤ) (data : List BYTE) :
    TableSafe (memstoreStorePageOfData m i p data) :=
  tableSafe_ite ((tableSafe_memWrite _ _ _).bind fun _ => tableSafe_ok _) (tableSafe_ok _)

theorem tableSafe_insert (at_ n : ℤ) (data : List BYTE) :
    TableSafe (memstoreInsertData m i at_ n data) := by
  refine tableSafe_ite ((tableSafe_memRead _ _ _).bind fun moved => ?_) (tableSafe_ok _)
  exact (tableSafe_memWrite _ _ _).bind fun _ => (tableSafe_memWrite _ _ _).bind fun _ => tableSafe_ok _

theorem tableSafe_cut (at_ n : ℤ) : TableSafe (memstoreCutData m i at_ n) := by
  refine tableSafe_ite ((tableSafe_memRead _ _ _).bind fun moved => ?_) (tableSafe_ok _)
  exact (tableSafe_memWrite _ _ _).bind fun _ => (tableSafe_memWrite _ _ _).bind fun _ => tableSafe_ok _

theorem tableSafe_clear (a : MemoryAllocation) : TableSafe (clearData a) :=
  (tableSafe_memWrite _ _ _).bind fun _ => tableSafe_ok _

theorem tableSafe_closeFile (a : MemoryAllocation) : TableSafe (closeFile a w) := by
  unfold closeFile
  split
  · exact (tableSafe_clear _).bind fun _ => tableSafe_ok _
  · exact tableSafe_ok _

theorem tableSafe_readFile (a : MemoryAllocation) (file : File) :
    TableSafe (readFile env w a file) := by
  refine tableSafe_ite (tableSafe_ite (tableSafe_ite ?_ (tableSafe_ok _)) (tableSafe_ok _))
    (tableSafe_ok _)
  exact (tableSafe_memWrite _ _ _).bind fun _ => tableSafe_ite (tableSafe_ok _) (tableSafe_ok _)

theorem tableSafe_load (name : FileName) : TableSafe (memstoreLoadData env m w i name) := by
  refine tableSafe_ite ((tableSafe_closeFile _ _).bind fun a => ?_) (tableSafe_ok _)
  split
  split
  · exact tableSafe_ok _
  · refine (tableSafe_readFile _ _ _ _).bind fun r => ?_
    split
    split
    · exact tableSafe_ok _
    · exact (tableSafe_clear _).bind fun _ => tableSafe_ok _

theorem tableSafe_save (name : FileName) (n : ℤ) : TableSafe (memstoreSaveData env m w i name n) := by
  refine tableSafe_ite ?_ (tableSafe_ok _)
  dsimp only
  split
  · exact tableSafe_ok _
  · exact tableSafe_ite ((tableSafe_memRead _ _ _).bind fun _ => tableSafe_ok _) (tableSafe_ok _)

end

/-! ## The commands -/

section
variable {env : Env} {s : Server}

theorem tableSafe_shellLoop (input line : List BYTE) (q : Queue) :
    TableSafe (shellResultLoop input line q) := by
  induction input generalizing line q with
  | nil =>
    exact tableSafe_ite (tableSafe_ite (tableSafe_ok _) (tableSafe_error (by decide)))
      (tableSafe_ok _)
  | cons ch rest ih =>
    exact tableSafe_ite (tableSafe_ite (ih _ _) (tableSafe_error (by decide)))
      (tableSafe_ite (ih _ _) (tableSafe_error (by decide)))

theorem tableSafe_wifiIp (env : Env) (s : Server) : TableSafe (commandWifiIp env s) := by
  unfold commandWifiIp
  refine tableSafe_ite (tableSafe_ok _) ?_
  dsimp only
  split
  · exact tableSafe_ok _
  · exact tableSafe_ite (tableSafe_ok _)
      (tableSafe_ite (tableSafe_ok _) (tableSafe_error (by decide)))

theorem tableSafe_shellexec (env : Env) (s : Server) : TableSafe (commandShellexec env s) := by
  unfold commandShellexec
  refine tableSafe_ite (tableSafe_ok _) ((tableSafe_bufferString _ _).bind fun buffer => ?_)
  refine tableSafe_ite (tableSafe_ok _) ?_
  dsimp only
  split
  · exact tableSafe_ok _
  · refine tableSafe_ite (tableSafe_ok _) (tableSafe_ite (tableSafe_ok _)
      (tableSafe_ite (TableSafe.bind ?_ fun _ => tableSafe_ok _) (tableSafe_ok _)))
    exact (tableSafe_shellLoop _ _ _).bind fun _ => tableSafe_ok _

theorem tableSafe_retrieveAlloc (s : Server) : TableSafe (commandRetrieveAlloc s) := by
  unfold commandRetrieveAlloc
  refine tableSafe_ite (tableSafe_ok _) ?_
  dsimp only
  split
  · exact tableSafe_ite (tableSafe_ite ((tableSafe_memRead _ _ _).bind fun _ => tableSafe_ok _)
      (tableSafe_ok _)) (tableSafe_ok _)
  · exact tableSafe_ok _

theorem tableSafe_storeAlloc (env : Env) (s : Server) : TableSafe (commandStoreAlloc env s) := by
  unfold commandStoreAlloc
  refine tableSafe_ite (tableSafe_ok _) (tableSafe_ite (tableSafe_ok _)
    (tableSafe_ite (tableSafe_ok _) (tableSafe_ite (tableSafe_ok _)
      (tableSafe_ite (tableSafe_ok _) ((tableSafe_store _ _ _ _).bind fun _ => ?_)))))
  exact tableSafe_ite (tableSafe_ok _) (tableSafe_ok _)

theorem tableSafe_insertAlloc (env : Env) (s : Server) : TableSafe (commandInsertAlloc env s) := by
  unfold commandInsertAlloc
  refine tableSafe_ite (tableSafe_ok _) (tableSafe_ite (tableSafe_ok _)
    (tableSafe_ite (tableSafe_ok _)
      (tableSafe_ite (tableSafe_ok _) ((tableSafe_insert _ _ _ _ _).bind fun _ => ?_))))
  exact tableSafe_ite (tableSafe_ok _) (tableSafe_ok _)

theorem tableSafe_cutAlloc (s : Server) : TableSafe (commandCutAlloc s) := by
  unfold commandCutAlloc
  refine tableSafe_ite (tableSafe_ok _) ((tableSafe_cut _ _ _ _).bind fun _ => ?_)
  exact tableSafe_ite (tableSafe_ok _) (tableSafe_ok _)

theorem tableSafe_loadAlloc (env : Env) (s : Server) : TableSafe (commandLoadAlloc env s) := by
  unfold commandLoadAlloc
  refine tableSafe_ite (tableSafe_ok _) ((tableSafe_bufferString _ _).bind fun _ =>
    (tableSafe_load _ _ _ _ _).bind fun _ => ?_)
  exact tableSafe_ite (tableSafe_ok _) (tableSafe_ite (tableSafe_ok _) (tableSafe_ok _))

theorem tableSafe_saveAlloc (env : Env) (s : Server) : TableSafe (commandSaveAlloc env s) := by
  unfold commandSaveAlloc
  refine tableSafe_ite (tableSafe_ok _) ((tableSafe_bufferString _ _).bind fun _ =>
    (tableSafe_save _ _ _ _ _ _).bind fun _ => ?_)
  exact tableSafe_ite (tableSafe_ok _) (tableSafe_ok _)

/-- No command indexes the table with an id from the client. -/
theorem tableSafe_call (env : Env) (s : Server) (tick : ℤ) (fn : CommandFunction) :
    TableSafe (callFunction env s tick fn) := by
  cases fn with
  | commandWifiIp => exact tableSafe_wifiIp env s
  | commandShellexec => exact tableSafe_shellexec env s
  | commandRetrieveAlloc => exact tableSafe_retrieveAlloc s
  | commandStoreAlloc => exact tableSafe_storeAlloc env s
  | commandInsertAlloc => exact tableSafe_insertAlloc env s
  | commandCutAlloc => exact tableSafe_cutAlloc s
  | commandLoadAlloc => exact tableSafe_loadAlloc env s
  | commandSaveAlloc => exact tableSafe_saveAlloc env s
  | _ => exact tableSafe_ok _

/-- The lookups of `process_command` all use the id it is given. -/
theorem tableSafe_processCommand (env : Env) (s : Server) {c : Command} (hc : c < maxCommands) :
    TableSafe (processCommand env c s) := by
  obtain ⟨row, hrow⟩ := row_of_lt hc
  rw [processCommand_eq, hrow]
  refine tableSafe_ite (tableSafe_ok _) ((tableSafe_call _ _ _ _).bind fun p => ?_)
  refine tableSafe_ite (tableSafe_ok _) (tableSafe_ite (tableSafe_ok _)
    (TableSafe.bind ?_ fun _ => tableSafe_ok _))
  unfold scheduleCommand
  split
  · obtain ⟨time, htime⟩ := nextExecTime_ok env hc
    rw [htime]
    exact tableSafe_ok _
  · exact tableSafe_ok _

/-! ## The id of a request -/

theorem commandID_lt (commandString : List BYTE) :
    getCommandIDFromString commandString < maxCommands := by
  have hrows : ∀ row ∈ commandDefs, row.commandID < maxCommands := by decide
  unfold getCommandIDFromString
  split
  next row hrow => exact hrows row (List.mem_of_find?_eq_some hrow)
  next => decide

/-- **Which requests have an id of the table.** -/
theorem request_lt_iff {ty : PacketType} {body rest : List BYTE} (hp : AtPacket s.inQueue ty body rest)
    (hty : ty = textCommand ∨ ty = binaryCommand) :
    (∀ c k, request s.inQueue = some (c, k) → c < maxCommands) ↔ InTable ty body := by
  have ht := hp.packetType
  unfold request
  rcases hty with rfl | rfl
  · refine iff_of_true ?_ (.inl rfl)
    intro c k hr
    rw [if_pos ht] at hr
    split at hr
    · cases hr
      exact commandID_lt _
    · cases hr
  have hne : getPacketType s.inQueue ≠ textCommand := by rw [ht]; decide
  rw [if_neg hne, if_pos ht]
  have hid : (∀ c k, some ((s.inQueue.peek 6).toNat, 7) = some (c, k) → c < maxCommands) ↔
      (s.inQueue.peek 6).toNat < maxCommands := by
    constructor
    · intro h
      exact h _ _ rfl
    · rintro h c k hr
      cases hr
      exact h
  rw [hid]
  cases body with
  | nil =>
    have hend : s.inQueue.peek 6 = 45 := peek_end hp
    rw [hend]
    refine iff_of_false (by decide) ?_
    rintro (h | ⟨b, tail, h, -⟩) <;> cases h
  | cons b tail =>
    have hb : s.inQueue.peek 6 = b := peek_body hp (k := 0) (by simp)
    rw [hb]
    constructor
    · intro h
      exact .inr ⟨b, tail, rfl, h⟩
    · rintro (h | ⟨_, _, h, hlt⟩)
      · cases h
      · cases h
        exact hlt

/-- An id that names no command has the row of an unknown command. -/
theorem unnamed_row {c : Command} (hc : c < maxCommands) (hn : ¬ Named c) :
    ∃ row, commandDefs[c]? = some row ∧ row.returnFunction = .commandUnknown ∧
      row.outQueueSpace = 30 := by
  have hall : ∀ c < maxCommands, ¬ Named c → (commandDefs[c]?).any (fun row =>
      row.returnFunction = .commandUnknown ∧ row.outQueueSpace = 30) = true := by decide
  have := hall c hc hn
  cases hrow : commandDefs[c]? with
  | none => rw [hrow] at this; cases this
  | some row =>
    rw [hrow] at this
    exact ⟨row, rfl, by simpa using this⟩

theorem dispatch_unnamed (h : InRange s.inQueue)
    (hp : ∃ ty body rest, AtPacket s.inQueue ty body rest) {c : Command} {k : ℕ}
    (hr : request s.inQueue = some (c, k)) (hc : c < maxCommands) (hn : ¬ Named c)
    (hsp : isQueueSpaceAvailable s.outQueue 30 = true) :
    dispatch env s = .ok (.processed, skipEnd (commandUnknown (atParams s k)).2) := by
  obtain ⟨row, hrow, hfn, hspace⟩ := unnamed_row hc hn
  rw [dispatch_request h hp hr, processCommand_eq, hrow]
  dsimp only
  rw [hfn, hspace, if_neg (by rw [show (atParams s k).outQueue = s.outQueue from rfl, hsp]; decide)]
  rfl

/-- A packet without a request is not looked up. -/
theorem dispatch_none (hr : request s.inQueue = none) : dispatch env s =
    if getPacketType s.inQueue = textCommand then
      .ok (.badText, skipEnd (respond { s with inQueue := (getCommandText s.inQueue).2.2 }
        (bytes "Bad Text Command\n")))
    else .ok (.ignored, s) := by
  unfold request at hr
  unfold dispatch
  by_cases ht : getPacketType s.inQueue = textCommand
  · rw [if_pos ht] at hr ⊢
    split at hr
    · cases hr
    next hbad =>
    rw [if_pos ht, dispatchText, if_neg hbad]
    rfl
  · rw [if_neg ht] at hr ⊢
    split at hr
    · cases hr
    next hbin =>
    rw [if_neg hbin, if_neg ht]
    rfl

/-- **When the lookups of a dispatch stay in the table.** -/
theorem lookupsInRange_iff (h : InRange s.inQueue) {ty : PacketType} {body rest : List BYTE}
    (hp : AtPacket s.inQueue ty body rest) (hty : ty = textCommand ∨ ty = binaryCommand) :
    LookupsInRange env s ↔ InTable ty body := by
  rw [← request_lt_iff hp hty]
  refine ⟨fun hl => hl.id, fun hid => ⟨hid, fun c k hr => ?_, fun hd => ?_, fun c k hr hn hsp => ?_⟩⟩
  · obtain ⟨row, hrow⟩ := row_of_lt (hid c k hr)
    unfold getCommandNameFromId commandDef
    rw [hrow]
    exact ⟨_, rfl⟩
  · cases hr : request s.inQueue with
    | none =>
      rw [dispatch_none hr] at hd
      split at hd <;> cases hd
    | some ck =>
      obtain ⟨c, k⟩ := ck
      rw [dispatch_request h ⟨_, _, _, hp⟩ hr] at hd
      have hsafe := (tableSafe_processCommand env (atParams s k) (hid c k hr)).bind fun p =>
        tableSafe_ok (finishDispatch s.inQueue.readNextByte p)
      exact hsafe.ne hd
  · exact dispatch_unnamed h ⟨_, _, _, hp⟩ hr (hid c k hr) hn hsp

end

/-- **The lookups of a packet** stay in the table for a text command, and for a
    binary command that starts with an id of the table; those of the commands
    that wait stay in it in every state reached. -/
theorem lookups_in_range (env : Env) {s : Server} {ty : PacketType} {body rest : List BYTE}
    (h : InRange s.inQueue) (hp : AtPacket s.inQueue ty body rest)
    (hty : ty = textCommand ∨ ty = binaryCommand) :
    (LookupsInRange env s ↔ InTable ty body) ∧
    ∀ m, Reach Initial Round (fun _ _ => True) m →
      (∀ i, (m.server.commandStates i).commandId < maxCommands) ∧
      ∀ env, ∃ s', tickCommand env m.server = .ok s' := by
  refine ⟨lookupsInRange_iff h hp hty, fun m hr => ?_⟩
  have ht := table_reach hr
  refine ⟨fun i => (ht i).id_lt, fun env => ?_⟩
  obtain ⟨s', hs', -⟩ := tickCommand_run env ht
  exact ⟨s', hs'⟩

/-- An instance: a binary `PING`. -/
theorem lookups_in_range_ping :
    LookupsInRange calmEnv (serverOf (encode binaryCommand [1] ++ [])) := by
  have hin : Valid (queueOf (encode binaryCommand [1] ++ [])) := queueOf_valid (by decide)
  have hp : AtPacket (queueOf (encode binaryCommand [1] ++ [])) binaryCommand [1] [] :=
    atPacket_queueOf (by decide) (by decide) (by decide)
  exact (lookups_in_range calmEnv (s := serverOf _) hin.toInRange hp (.inr rfl)).1.2
    (.inr ⟨1, [], rfl, by decide⟩)

/-- The body is empty: the id is the first byte of the terminator. -/
theorem lookup_of_empty_body :
    AtPacket (serverOf (encode binaryCommand [] ++ [])).inQueue binaryCommand [] [] ∧
    request (serverOf (encode binaryCommand [] ++ [])).inQueue = some (45, 7) ∧
    ¬ 45 < maxCommands ∧
    dispatch calmEnv (serverOf (encode binaryCommand [] ++ [])) = .error .commandTable := by
  refine ⟨atPacket_queueOf (by decide) (by decide) (by decide), by decide, by decide, rfl⟩

end CpcLink
