/-
  One dispatch.

  `request` is the command of the packet at the head and the number of bytes in
  front of its parameters.  `DispatchStep` has a case for each way the dispatch
  can end, with the state it leaves; every later result is about these cases.
-/
import Mathlib.Tactic.IntervalCases
import CpcLink.Main
import CpcLink.Proof.DataCommands
import CpcLink.Proof.ShellCommand

namespace CpcLink

/-! ## Rows of the table -/

/-- The functions of the commands that are read and run again. -/
def retried : CommandFunction → Bool
  | .commandRetrieveAlloc | .commandShellexec | .commandStoreAlloc | .commandInsertAlloc => true
  | _ => false

/-- What the proofs use of a row of the command table. -/
structure Row (c : Command) (fn : CommandFunction) (space : ℤ) : Prop where
  lt : c < maxCommands
  bounds : 30 ≤ space ∧ space ≤ 2048
  space : space = spaceOf fn
  retried : isRetried c = retried fn
  reset : fn = .commandReset ↔ c = reset
  data : takesData fn = true → c = storeAlloc ∨ c = insertAlloc

theorem row_of_getElem {c : Command} {row : CommandDef} (h : commandDefs[c]? = some row) :
    Row c row.returnFunction row.outQueueSpace := by
  have hc : c < 33 := (List.getElem?_eq_some_iff.1 h).1
  interval_cases c <;> cases h <;> exact ⟨by decide, by decide, by decide, by decide, by decide, by decide⟩

/-! ## The request of a packet -/

/-- The command of the packet at the head, and the bytes in front of its
    parameters; a text command may have no name. -/
def request (q : Queue) : Option (Command × ℕ) :=
  if getPacketType q = textCommand then
    if (getCommandText q).1 then
      some (getCommandIDFromString (getCommandText q).2.1, 7 + nameLength q)
    else none
  else if getPacketType q = binaryCommand then some ((q.peek 6).toNat, 7)
  else none

/-- What is asked of the request, if there is one, is decided by finding it. -/
instance decidableRequest {α β : Type} {x : Option (α × β)} {P : α → β → Prop}
    [∀ a b, Decidable (P a b)] : Decidable (∀ a b, x = some (a, b) → P a b) :=
  match x with
  | none => .isTrue fun _ _ he => by cases he
  | some (a, b) => decidable_of_iff (P a b)
      ⟨fun h a' b' he => by cases he; exact h, fun h => h a b rfl⟩

/-- The function of a command; no row lacks one. -/
def functionOf (c : Command) : CommandFunction :=
  match commandDefs[c]? with
  | some row => row.returnFunction
  | none => .commandUnknown

/-- The server at the parameters of a command. -/
def atParams (s : Server) (k : ℕ) : Server :=
  { s with inQueue := incrementReadNextIndex s.inQueue k }

/-- The end of a command that was processed. -/
def skipEnd (s : Server) : Server := { s with inQueue := queueSkipTerminatorOfPacket s.inQueue }

/-- The server after the poll. -/
def polled (s : Server) : Server := { s with inQueue := (isCompletePacketAvailable s.inQueue).2 }

/-- The ways a dispatch ends. -/
inductive DispatchStep (env : Env) (s : Server) : Outcome → Server → Prop
  | ignored : getPacketType s.inQueue ≠ textCommand → getPacketType s.inQueue ≠ binaryCommand →
      DispatchStep env s .ignored s
  | badText : getPacketType s.inQueue = textCommand → (getCommandText s.inQueue).1 = false →
      DispatchStep env s .badText (skipEnd
        (respond { s with inQueue := (getCommandText s.inQueue).2.2 } (bytes "Bad Text Command\n")))
  | noSpace {c : Command} {k : ℕ} {space : ℤ} : request s.inQueue = some (c, k) →
      Row c (functionOf c) space → isQueueSpaceAvailable s.outQueue space = false →
      DispatchStep env s .rewound s
  | complete {c : Command} {k : ℕ} {space : ℤ} {s' : Server} : request s.inQueue = some (c, k) →
      Row c (functionOf c) space → isQueueSpaceAvailable s.outQueue space = true →
      callFunction env (atParams s k) 0 (functionOf c) = .ok (true, s') →
      DispatchStep env s .processed (skipEnd s')
  | retried {c : Command} {k : ℕ} {space : ℤ} {s' : Server} : request s.inQueue = some (c, k) →
      Row c (functionOf c) space → isQueueSpaceAvailable s.outQueue space = true →
      retried (functionOf c) = true →
      callFunction env (atParams s k) 0 (functionOf c) = .ok (false, s') →
      DispatchStep env s .rewound
        { s' with inQueue := { s'.inQueue with readNextByte := s.inQueue.readNextByte } }
  | scheduled {c : Command} {k : ℕ} {space : ℤ} {s' s'' : Server} :
      request s.inQueue = some (c, k) →
      Row c (functionOf c) space → isQueueSpaceAvailable s.outQueue space = true →
      retried (functionOf c) = false →
      callFunction env (atParams s k) 0 (functionOf c) = .ok (false, s') →
      scheduleCommand env s' c (functionOf c) = .ok s'' →
      DispatchStep env s .processed (skipEnd s'')

section
variable {env : Env} {s : Server}

theorem processCommand_eq (c : Command) (s : Server) : processCommand env c s =
    match commandDefs[c]? with
    | none => .error .commandTable
    | some row =>
      if isQueueSpaceAvailable s.outQueue row.outQueueSpace = false then .ok (false, s)
      else do
        let p ← callFunction env s 0 row.returnFunction
        if p.1 then return (true, p.2)
        else if isRetried c then return (false, p.2)
        else return (true, ← scheduleCommand env p.2 c row.returnFunction) := by
  unfold processCommand getCommandFunction getCommandOutQueueSpaceRequired commandDef
  cases commandDefs[c]? with
  | none => rfl
  | some row => rfl

/-- The ways `process_command` ends. -/
inductive ProcessStep (env : Env) (c : Command) (s : Server) : Bool → Server → Prop
  | noSpace {space : ℤ} : Row c (functionOf c) space →
      isQueueSpaceAvailable s.outQueue space = false → ProcessStep env c s false s
  | complete {space : ℤ} {s' : Server} : Row c (functionOf c) space →
      isQueueSpaceAvailable s.outQueue space = true →
      callFunction env s 0 (functionOf c) = .ok (true, s') → ProcessStep env c s true s'
  | retried {space : ℤ} {s' : Server} : Row c (functionOf c) space →
      isQueueSpaceAvailable s.outQueue space = true → retried (functionOf c) = true →
      callFunction env s 0 (functionOf c) = .ok (false, s') → ProcessStep env c s false s'
  | scheduled {space : ℤ} {s' s'' : Server} : Row c (functionOf c) space →
      isQueueSpaceAvailable s.outQueue space = true → retried (functionOf c) = false →
      callFunction env s 0 (functionOf c) = .ok (false, s') →
      scheduleCommand env s' c (functionOf c) = .ok s'' → ProcessStep env c s true s''

theorem process_step {c : Command} {done : Bool} {s' : Server}
    (hrun : processCommand env c s = .ok (done, s')) : ProcessStep env c s done s' := by
  rw [processCommand_eq] at hrun
  cases hrow : commandDefs[c]? with
  | none => rw [hrow] at hrun; cases hrun
  | some row =>
    have hf : functionOf c = row.returnFunction := by rw [functionOf, hrow]
    have hR := row_of_getElem hrow
    rw [hrow] at hrun
    dsimp only at hrun
    rw [← hf] at hrun hR
    by_cases hsp : isQueueSpaceAvailable s.outQueue row.outQueueSpace = true
    swap
    · rw [if_pos (Bool.eq_false_iff.2 hsp)] at hrun
      cases hrun
      exact .noSpace hR (Bool.eq_false_iff.2 hsp)
    rw [if_neg (by simp [hsp])] at hrun
    obtain ⟨⟨done, s'⟩, hcall, hrun⟩ := bind_eq_ok.1 hrun
    cases done with
    | true => cases hrun; exact .complete hR hsp hcall
    | false =>
      rw [if_neg (by simp), hR.retried] at hrun
      by_cases hret : CpcLink.retried (functionOf c) = true
      · rw [if_pos hret] at hrun
        cases hrun
        exact .retried hR hsp hret hcall
      · rw [if_neg hret] at hrun
        obtain ⟨s'', hs, hrun⟩ := bind_eq_ok.1 hrun
        cases hrun
        exact .scheduled hR hsp (Bool.eq_false_iff.2 hret) hcall hs

/-- The two kinds of commands are dispatched alike. -/
theorem dispatch_request {c : Command} {k : ℕ} (h : InRange s.inQueue)
    (hp : ∃ ty body rest, AtPacket s.inQueue ty body rest)
    (hr : request s.inQueue = some (c, k)) :
    dispatch env s = (do
      let p ← processCommand env c (atParams s k)
      return finishDispatch s.inQueue.readNextByte p) := by
  obtain ⟨ty, body, rest, hp⟩ := hp
  unfold request at hr
  unfold dispatch
  by_cases ht : getPacketType s.inQueue = textCommand
  · rw [if_pos ht] at hr ⊢
    split at hr
    swap
    · cases hr
    next hgood =>
    obtain ⟨rfl, rfl⟩ : getCommandIDFromString (getCommandText s.inQueue).2.1 = c ∧
        7 + nameLength s.inQueue = k := by simpa using hr
    rcases getCommandText_cases h hp with ⟨-, -, -, -, -, hq⟩ | ⟨hb, -⟩ | ⟨hb, -⟩
    · simp only [dispatchText, hgood, if_true, hq]; rfl
    · rw [hgood] at hb; cases hb
    · rw [hgood] at hb; cases hb
  · rw [if_neg ht] at hr ⊢
    split at hr
    swap
    · cases hr
    next hbin =>
    obtain ⟨rfl, rfl⟩ : (s.inQueue.peek 6).toNat = c ∧ 7 = k := by simpa using hr
    rw [if_pos hbin]
    simp only [dispatchBinary, getCommandBin_eq h]; rfl

/-- **A dispatch ends in one of the cases of `DispatchStep`.** -/
theorem dispatch_step (h : InRange s.inQueue) (hp : ∃ ty body rest, AtPacket s.inQueue ty body rest)
    {o : Outcome} {s' : Server} (hd : dispatch env s = .ok (o, s')) : DispatchStep env s o s' := by
  cases hr : request s.inQueue with
  | none =>
    unfold request at hr
    unfold dispatch at hd
    by_cases ht : getPacketType s.inQueue = textCommand
    · rw [if_pos ht] at hr hd
      have hbad : (getCommandText s.inQueue).1 = false := by
        by_contra hne
        rw [if_pos (by simpa using hne)] at hr; cases hr
      simp only [dispatchText, hbad, Bool.false_eq_true, if_false] at hd
      cases hd
      exact .badText ht hbad
    · rw [if_neg ht] at hr hd
      have hbin : getPacketType s.inQueue ≠ binaryCommand := by
        intro hb
        rw [if_pos hb] at hr; cases hr
      rw [if_neg hbin] at hd
      cases hd
      exact .ignored ht hbin
  | some ck =>
    obtain ⟨c, k⟩ := ck
    rw [dispatch_request h hp hr] at hd
    obtain ⟨⟨done, s₁⟩, hrun, hd⟩ := bind_eq_ok.1 hd
    cases process_step hrun with
    | noSpace hR hsp => cases hd; exact .noSpace hr hR hsp
    | complete hR hsp hcall => cases hd; exact .complete hr hR hsp hcall
    | retried hR hsp hret hcall => cases hd; exact .retried hr hR hsp hret hcall
    | scheduled hR hsp hret hcall hs => cases hd; exact .scheduled hr hR hsp hret hcall hs

/-! ## What the command did -/

theorem data_spec {fn : CommandFunction} (h : InRange s.inQueue) (hd : takesData fn = true)
    (tick : ℤ) : DataSpec env fn s (callFunction env s tick fn) := by
  cases fn <;> cases hd
  · exact storeAlloc_spec h
  · exact insertAlloc_spec h

theorem data_call {fn : CommandFunction} (h : InRange s.inQueue) (hd : takesData fn = true)
    {tick : ℤ} {r : Bool × Server} (hr : callFunction env s tick fn = .ok r) :
    DataStep env fn s r := by
  rcases data_spec h hd tick with ⟨r', hr', hs⟩ | ⟨-, e, he⟩
  · rw [hr] at hr'; cases hr'; exact hs
  · rw [hr] at he; cases he

/-- The kinds of commands the proofs tell apart. -/
theorem function_kinds (fn : CommandFunction) : onePacket fn = true ∨ takesData fn = true ∨
    fn = .commandReset ∨ fn = .commandRetrieveAlloc ∨ fn = .commandShellexec := by
  cases fn <;> decide

theorem not_retried_of_onePacket {fn : CommandFunction} (h : onePacket fn = true) :
    retried fn = false := by
  revert h; cases fn <;> decide

theorem retried_of_takesData {fn : CommandFunction} (h : takesData fn = true) :
    retried fn = true := by
  revert h; cases fn <;> decide

theorem spaceOf_takesData {fn : CommandFunction} (h : takesData fn = true) : spaceOf fn = 30 := by
  revert h; cases fn <;> decide

theorem data_command {c : Command} (hd : takesData (functionOf c) = true) :
    c = storeAlloc ∨ c = insertAlloc := by
  unfold functionOf at hd
  cases hrow : commandDefs[c]? with
  | none => rw [hrow] at hd; cases hd
  | some row =>
    rw [hrow] at hd
    exact (row_of_getElem hrow).data hd

/-- `SALLOC` and `IALLOC` are run if there is space for their answer. -/
theorem dispatch_data (h : InRange s.inQueue) (hp : ∃ ty body rest, AtPacket s.inQueue ty body rest)
    {c : Command} {k : ℕ} (hr : request s.inQueue = some (c, k))
    (hd : takesData (functionOf c) = true) (hsp : isQueueSpaceAvailable s.outQueue 30 = true) :
    dispatch env s = (do
      let p ← callFunction env (atParams s k) 0 (functionOf c)
      return finishDispatch s.inQueue.readNextByte p) := by
  rw [dispatch_request h hp hr, processCommand_eq]
  unfold functionOf at *
  cases hrow : commandDefs[c]? with
  | none => rw [hrow] at hd; cases hd
  | some row =>
    have hR := row_of_getElem hrow
    rw [hrow] at hd
    have hret : isRetried c = true := hR.retried.trans (retried_of_takesData hd)
    have hout : (atParams s k).outQueue = s.outQueue := rfl
    have hspace : row.outQueueSpace = 30 := hR.space.trans (spaceOf_takesData hd)
    simp only [hspace, hout, hsp, hret, if_true, Bool.true_eq_false, if_false]
    cases callFunction env (atParams s k) 0 row.returnFunction with
    | error e => rfl
    | ok p =>
      obtain ⟨done, s'⟩ := p
      cases done <;> rfl

/-- Every command but `RESET`, `SALLOC` and `IALLOC` is plain. -/
theorem plain_call {fn : CommandFunction} (h : InRange s.inQueue) (hm : StoreValid s.memstore)
    (hd : takesData fn = false) (hreset : fn ≠ .commandReset) {tick : ℤ} {r : Bool × Server}
    (hr : callFunction env s tick fn = .ok r) : Plain fn s r := by
  rcases function_kinds fn with hone | hdata | rfl | rfl | rfl
  · obtain ⟨_, _, _, _, hrun⟩ := onePacket_answers env tick h hone
    exact (hrun s.outQueue r hr).1
  · rw [hd] at hdata; cases hdata
  · exact absurd rfl hreset
  · rcases retrieveAlloc_spec h hm with ⟨_, _, hrun⟩ | ⟨_, _, _, _, _, hrun⟩
    · exact (hrun s.outQueue r hr).1
    · exact (hrun s.outQueue r hr).1
  · rcases shellexec_spec env h with ⟨-, ⟨_, _, _, _, hrun⟩, -⟩ | ⟨-, _, _, _, _, hrun⟩
    · exact (hrun s.outQueue r hr).1
    · exact (hrun s.outQueue r hr).1

/-- A command of the table has its name, or its id, in the body. -/
theorem request_le {q : Queue} {ty : PacketType} {body rest : List BYTE} (h : InRange q)
    (hp : AtPacket q ty body rest) {c : Command} {k : ℕ} (hr : request q = some (c, k))
    (hc : c < maxCommands) : 7 ≤ k ∧ k ≤ body.length + 6 ∧ k ≤ 36 := by
  unfold request at hr
  split at hr
  · split at hr
    swap
    · cases hr
    next hgood =>
    obtain ⟨-, rfl⟩ : getCommandIDFromString (getCommandText q).2.1 = c ∧ 7 + nameLength q = k := by
      simpa using hr
    rcases getCommandText_cases h hp with ⟨-, h1, h30, hlt, -, -⟩ | ⟨hb, -⟩ | ⟨hb, -⟩
    · omega
    · rw [hgood] at hb; cases hb
    · rw [hgood] at hb; cases hb
  · split at hr
    swap
    · cases hr
    obtain ⟨rfl, rfl⟩ : (q.peek 6).toNat = c ∧ 7 = k := by simpa using hr
    -- the byte behind an empty body is not an id of the table
    have : 0 < body.length := by
      by_contra h0
      have hend := peek_end hp
      rw [Nat.eq_zero_of_not_pos h0, Nat.add_zero] at hend
      rw [hend] at hc; exact absurd hc (by decide)
    omega

/-- Scheduling a command fills a slot of the table, or does nothing. -/
theorem schedule_spec {c : Command} {fn : CommandFunction} {s' : Server}
    (hs : scheduleCommand env s c fn = .ok s') : ∃ commandStates,
      s' = { s with commandStates := commandStates } ∧
      ∀ i, commandStates i = s.commandStates i ∨ ∃ time, commandStates i = ⟨c, some fn, 1, time⟩ := by
  unfold scheduleCommand at hs
  split at hs
  next i _ =>
    obtain ⟨time, _, hs⟩ := bind_eq_ok.1 hs
    cases hs
    refine ⟨_, rfl, fun j => ?_⟩
    by_cases hj : j = i
    · subst hj; exact .inr ⟨time, Function.update_self ..⟩
    · exact .inl (Function.update_of_ne hj ..)
  · cases hs
    exact ⟨_, rfl, fun _ => .inl rfl⟩

/-! ## The in queue after a plain command -/

/-- How far a command reads: its name and its parameters. -/
def paramsEnd (q : Queue) (c : Command) (k : ℕ) : ℕ :=
  k + paramsLength (functionOf c) (incrementReadNextIndex q k)

theorem paramsEnd_le {q : Queue} {ty : PacketType} {body rest : List BYTE} (h : InRange q)
    (hp : AtPacket q ty body rest) {c : Command} {k : ℕ} (hr : request q = some (c, k))
    (hc : c < maxCommands) : 7 ≤ paramsEnd q c k ∧ paramsEnd q c k ≤ 554 := by
  have := request_le h hp hr hc
  have := paramsLength_le (functionOf c) (incrementReadNextIndex q k)
  unfold paramsEnd; omega

/-- A request for data or for a reset. -/
def Special (c : Command) : Prop := takesData (functionOf c) = true ∨ functionOf c = .commandReset

/-- A plain command that was processed. -/
theorem DispatchStep.plain {s' : Server} (h : InRange s.inQueue) (hm : StoreValid s.memstore)
    (hs : DispatchStep env s .processed s') : ∃ c k, request s.inQueue = some (c, k) ∧
      c < maxCommands ∧ (¬ Special c → s'.inQueue =
        queueSkipTerminatorOfPacket (incrementReadNextIndex s.inQueue (paramsEnd s.inQueue c k))) := by
  have hin : ∀ k, InRange (atParams s k).inQueue := fun k => h.inc _
  cases hs with
  | complete hr hR hsp hcall =>
    refine ⟨_, _, hr, hR.lt, fun hc => ?_⟩
    obtain ⟨hd, hreset⟩ := not_or.1 hc
    have hp := (plain_call (hin _) hm (Bool.eq_false_iff.2 hd) hreset hcall).inQueue
    simp only [atParams, h.inc_nat] at hp
    rw [skipEnd, hp]; rfl
  | scheduled hr hR hsp hret hcall hsched =>
    refine ⟨_, _, hr, hR.lt, fun hc => ?_⟩
    obtain ⟨hd, hreset⟩ := not_or.1 hc
    have hp := (plain_call (hin _) hm (Bool.eq_false_iff.2 hd) hreset hcall).inQueue
    obtain ⟨_, rfl, -⟩ := schedule_spec hsched
    simp only [atParams, h.inc_nat] at hp
    rw [skipEnd, hp]; rfl

end

/-! ## A server to try -/

/-- A queue whose unread bytes start at cell 0. -/
def queueOf (input : List BYTE) : Queue :=
  ⟨fun i => if 0 ≤ i then input.getD i.toNat 0 else 0, input.length, 0⟩

/-- A server that has received `input` and nothing else. -/
def serverOf (input : List BYTE) : Server where
  inQueue := queueOf input
  outQueue := queueOf []
  tron := true
  binaryDataReceiveMode := 0
  binaryDataSendMode := 0
  memstore := fun _ => .zero
  commandStates := fun _ => .zero
  world := ⟨fun _ => none, 0, [], []⟩

/-- An allocation of one page. -/
def onePage : MemoryAllocation := ⟨1, 1, 1024, none, 0, some (List.replicate 1024 0)⟩

def withPage (s : Server) : Server := { s with memstore := Function.update s.memstore 1 onePage }

/-- Every library call succeeds, and the shell leaves no files. -/
def calmEnv : Env where
  calloc := fun _ => true
  system := fun _ _ => (0, fun _ => none)
  fopenRead := fun _ => true
  fopenWrite := fun _ => true
  fseekEnd := true
  fseekSet := true
  fread := id
  fwrite := id
  localtime := ⟨0, 0, 0, 1, 0, 0⟩
  timeOfDay := ⟨0, 0⟩
  timeOfDayLater := ⟨0, 0⟩

theorem serverOf_store (input : List BYTE) : StoreValid (serverOf input).memstore :=
  fun i _ _ => slotValid_zero i

theorem withPage_store (s : Server) (h : StoreValid s.memstore) : StoreValid (withPage s).memstore :=
  h.update (.inr ⟨rfl, by decide, by decide, _, rfl, by rw [List.length_replicate]; decide⟩)

theorem queueOf_valid {input : List BYTE} (h : (input.length : ℤ) < queueSize) :
    Valid (queueOf input) :=
  ⟨⟨⟨by have := queueSize_pos; simp only [queueOf]; omega, queueSize_pos⟩,
    Int.natCast_nonneg _, h⟩, le_rfl⟩

theorem queueOf_unread {input : List BYTE} (h : (input.length : ℤ) < queueSize) :
    (queueOf input).unread = input := by
  have hv := queueOf_valid h
  have hcount : (queueOf input).count = input.length := by
    have hn := hv.numberBytes
    simp only [numberBytesInQueueToRead, queueOf, Int.sub_zero] at hn
    rw [Int.tmod_eq_emod_of_nonneg (by have := queueSize_pos; omega), Int.add_emod_left,
      Int.emod_eq_of_lt (by omega) h] at hn
    exact_mod_cast hn.symm
  refine List.ext_getElem (by rw [length_unread, hcount]) fun i h1 h2 => ?_
  rw [getElem_unread, ← readAhead_eq, queueReadAheadByte]
  simp only [queueOf, Int.zero_add]
  rw [Int.tmod_eq_of_lt (by omega) (by omega), if_pos (by omega), Int.toNat_natCast,
    List.getD_eq_getElem _ _ h2]

theorem atPacket_queueOf {ty : PacketType} {body rest : List BYTE} (ht : AcceptedType ty)
    (hl : ((body.length + 9 + rest.length : ℕ) : ℤ) < queueSize) (hb : body.length ≤ 65532) :
    AtPacket (queueOf (encode ty body ++ rest)) ty body rest :=
  ⟨ht, hb, queueOf_unread (by rw [List.length_append, length_encode]; exact hl)⟩

end CpcLink
