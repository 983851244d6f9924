/-
  Is a command dropped after it has announced what it will do?

  SHUTDOWN and REBOOT answer in their first step, and wait in a slot of the
  table for the second.  Only an empty slot is filled, and a slot in use is
  changed by a tick that runs it and by a RESET alone.  So the command waits if
  there was an empty slot.  There need not be one: the file commands never
  complete, and only a RESET takes their slots back.
-/
import CpcLink.Proof.Table

namespace CpcLink

/-- What a command of two steps answers in the first. -/
def announcement : CommandFunction → Option (List BYTE)
  | .commandShutdown => some (bytes "SHUTDOWN IN 10 SECONDS\n")
  | .commandReboot => some (bytes "Rebooting PI IN 3 SECONDS\n")
  | _ => none

/-- What it has the shell run in the second. -/
def secondStep : CommandFunction → List BYTE
  | .commandShutdown => bytes "sudo /sbin/shutdown -h now"
  | _ => bytes "sudo /sbin/reboot"

/-- The packet that is dispatched runs the first step of such a command. -/
def Announces (s : Server) (c : Command) (text : List BYTE) : Prop :=
  (∃ k, request s.inQueue = some (c, k)) ∧ announcement (functionOf c) = some text ∧
    isQueueSpaceAvailable s.outQueue 30 = true

/-- The packet that is dispatched runs a `RESET`. -/
def RunsReset (s : Server) : Prop :=
  ∃ c k, request s.inQueue = some (c, k) ∧ functionOf c = .commandReset ∧
    isQueueSpaceAvailable s.outQueue 30 = true

/-- A tick runs the command of this slot. -/
def RunsSlot (i : ℕ) (env : Env) (s : Server) : Prop :=
  dueCommandState s.commandStates (getCurrentExecTime env.timeOfDay) = some i

/-- A slot is empty when a command announces its second step. -/
def HasSlot (_ : Env) (s : Server) : Prop :=
  ∀ c text, Announces s c text → ∃ i < maxCommandStates, (s.commandStates i).commandId = unknown

/-- No packet of the run is a `RESET` that is run, and no tick runs the slot. -/
def Spared (i : ℕ) : Mcp → Input → Prop :=
  RoundMeets (fun _ s => ¬ RunsReset s) fun env s => ¬ RunsSlot i env s

/-- The slot holds `st` behind the dispatch of a round, and in the states after
    it until a tick runs the slot or a `RESET` is run. -/
def HoldsUntil (i : ℕ) (st : CommandState) (env : Env) (m₁ : Mcp) : Prop :=
  m₁.server.commandStates i = st ∧ ∀ m, Reach
    (fun m => checkTicks env m₁ = .ok m ∧ (Ticks m₁ → ¬ RunsSlot i env m₁.server))
    Round (Spared i) m → m.server.commandStates i = st

/-- A command that announces its second step in the round gets an empty slot,
    and keeps it. -/
def StagesKept (m : Mcp) (input : Input) : Prop :=
  ∀ c text, Dispatches (exchangeBytes input m) →
    Announces (polled (exchangeBytes input m).server) c text →
    ∀ m₁, checkPackets input.env (exchangeBytes input m) = .ok m₁ →
    m₁.server.outQueue = (respond (exchangeBytes input m).server text).outQueue ∧
    ∃ i < maxCommandStates, ∃ time,
      ((exchangeBytes input m).server.commandStates i).commandId = unknown ∧
      HoldsUntil i ⟨c, some (functionOf c), 1, time⟩ input.env m₁

section
variable {env : Env} {s s' : Server} {fn : CommandFunction} {c : Command} {text : List BYTE} {i : ℕ}

/-! ## The two steps -/

theorem announcement_call (h : announcement fn = some text) (env : Env) (s : Server) :
    callFunction env s 0 fn = .ok (false, respond s text) := by
  cases fn <;> cases h <;> rfl

theorem announcement_kind (h : announcement fn = some text) :
    spaceOf fn = 30 ∧ retried fn = false := by
  cases fn <;> cases h <;> exact ⟨rfl, rfl⟩

/-- The second step is run, and the command completes. -/
theorem secondStep_call (h : announcement fn = some text) (env : Env) (s : Server) (tick : ℤ)
    (ht : tick ≠ 0) : callFunction env s tick fn =
      .ok (true, { s with world := (system env s.world (secondStep fn)).2 }) := by
  cases fn <;> cases h
  · simp only [callFunction, commandShutdown, ht, if_false, secondStep]
  · simp only [callFunction, commandReboot, ht, if_false, secondStep]

/-- A tick that runs the slot runs the second step, and empties the slot. -/
theorem tick_secondStep (h : announcement fn = some text) {time : ℤ}
    (hst : s.commandStates i = ⟨c, some fn, 1, time⟩) (hrun : RunsSlot i env s) :
    tickCommand env s = .ok { s with
      world := (system env s.world (secondStep fn)).2
      commandStates := Function.update s.commandStates i .zero } := by
  have hcall := secondStep_call h env s 1 (by decide)
  unfold tickCommand
  rw [hrun]
  dsimp only
  rw [tickSlot, hst]
  dsimp only
  rw [hcall]
  rfl

/-! ## Empty slots -/

theorem emptyCommandState_some {states : ℕ → CommandState}
    (h : getEmptyCommandState states = some i) :
    i < maxCommandStates ∧ (states i).commandId = unknown := by
  have hmem := List.mem_of_getLast? h
  rw [List.mem_filter, List.mem_range, decide_eq_true_iff] at hmem
  exact hmem

theorem emptyCommandState_none {states : ℕ → CommandState} :
    getEmptyCommandState states = none ↔ ∀ i < maxCommandStates, (states i).commandId ≠ unknown := by
  unfold getEmptyCommandState
  simp only [List.getLast?_eq_none_iff, List.filter_eq_nil_iff, List.mem_range, decide_eq_true_iff]

/-- A slot in use is not filled. -/
theorem schedule_inUse (hs : scheduleCommand env s c fn = .ok s')
    (hid : (s.commandStates i).commandId ≠ unknown) : s'.commandStates i = s.commandStates i := by
  unfold scheduleCommand at hs
  split at hs
  next j hj =>
    obtain ⟨time, -, hs⟩ := bind_eq_ok.1 hs
    cases hs
    have hne : i ≠ j := by
      rintro rfl
      exact hid (emptyCommandState_some hj).2
    exact Function.update_of_ne hne ..
  next => cases hs; rfl

/-- An empty slot is filled, if there is one. -/
theorem schedule_empty (env : Env) (fn : CommandFunction) (hc : c < maxCommands)
    (he : ∃ i < maxCommandStates, (s.commandStates i).commandId = unknown) :
    ∃ i < maxCommandStates, ∃ time, (s.commandStates i).commandId = unknown ∧
      scheduleCommand env s c fn = .ok { s with
        commandStates := Function.update s.commandStates i ⟨c, some fn, 1, time⟩ } := by
  cases hslot : getEmptyCommandState s.commandStates with
  | none =>
    obtain ⟨i, hi, hid⟩ := he
    exact absurd hid (emptyCommandState_none.1 hslot i hi)
  | some i =>
    obtain ⟨hi, hid⟩ := emptyCommandState_some hslot
    obtain ⟨time, htime⟩ := nextExecTime_ok env hc
    refine ⟨i, hi, time, hid, ?_⟩
    rw [scheduleCommand, hslot]
    dsimp only
    rw [htime]
    rfl

/-- A full table drops the command. -/
theorem schedule_full (hfull : ∀ i < maxCommandStates, (s.commandStates i).commandId ≠ unknown) :
    scheduleCommand env s c fn = .ok s := by
  rw [scheduleCommand, emptyCommandState_none.2 hfull]
  rfl

theorem schedule_ok (env : Env) (fn : CommandFunction) (hc : c < maxCommands) :
    ∃ s', scheduleCommand env s c fn = .ok s' := by
  by_cases he : ∃ i < maxCommandStates, (s.commandStates i).commandId = unknown
  · obtain ⟨_, -, _, -, hs⟩ := schedule_empty env fn hc he
    exact ⟨_, hs⟩
  · push Not at he
    exact ⟨s, schedule_full he⟩

/-! ## A slot in use -/

theorem dispatch_inUse (h : Healthy s) (hp : ∃ ty body rest, AtPacket s.inQueue ty body rest)
    (hno : ¬ RunsReset s) {o : Outcome} (hd : dispatch env s = .ok (o, s'))
    (hid : (s.commandStates i).commandId ≠ unknown) : s'.commandStates i = s.commandStates i := by
  -- a command that is run is not a reset, and leaves the table
  have call : ∀ {c k space r}, request s.inQueue = some (c, k) → Row c (functionOf c) space →
      isQueueSpaceAvailable s.outQueue space = true →
      callFunction env (atParams s k) 0 (functionOf c) = .ok r →
      r.2.commandStates = s.commandStates := fun {c k space r} hr hR hsp hcall => by
    rcases call_states hcall with he | ⟨hreset, -⟩
    · exact he
    · rw [hR.space, hreset] at hsp
      exact absurd ⟨c, k, hr, hreset, hsp⟩ hno
  cases dispatch_step h.inQueue hp hd with
  | ignored | noSpace | badText => rfl
  | complete hr hR hsp hcall | retried hr hR hsp _ hcall => exact congrFun (call hr hR hsp hcall) i
  | @scheduled c k _ s₁ s₂ hr hR hsp _ hcall hsched =>
    have hstates := call hr hR hsp hcall
    dsimp only at hstates
    rw [← hstates] at hid ⊢
    have hslot : s₂.commandStates i = s₁.commandStates i := schedule_inUse hsched hid
    exact hslot

theorem PacketStep.inUse {m : Mcp} (h : Healthy m.server) (hs : PacketStep env m s')
    (hno : Dispatches m → ¬ RunsReset (CpcLink.polled m.server))
    (hid : (m.server.commandStates i).commandId ≠ unknown) :
    s'.commandStates i = m.server.commandStates i := by
  cases hs with
  | idle | polled => rfl
  | dispatched hd hrun =>
    have hslot : s'.commandStates i = (CpcLink.polled m.server).commandStates i :=
      dispatch_inUse h.polled (hd.atPacket h) (hno hd) hrun hid
    exact hslot

/-- The dispatch that announces schedules the command. -/
theorem dispatch_announces (h : Healthy s) (hp : ∃ ty body rest, AtPacket s.inQueue ty body rest)
    (ha : Announces s c text) (env : Env) : ∃ k, c < maxCommands ∧ dispatch env s = (do
      let s' ← scheduleCommand env (respond (atParams s k) text) c (functionOf c)
      return (.processed, skipEnd s')) := by
  obtain ⟨⟨k, hr⟩, htext, hspace⟩ := ha
  obtain ⟨h30, hkind⟩ := announcement_kind htext
  have hcall := announcement_call htext env (atParams s k)
  rw [dispatch_request h.inQueue hp hr, processCommand_eq]
  unfold functionOf at *
  cases hrow : commandDefs[c]? with
  | none => rw [hrow] at htext; cases htext
  | some row =>
    have hR := row_of_getElem hrow
    rw [hrow] at hkind h30 hcall
    dsimp only at hkind h30 hcall ⊢
    have hspace' : isQueueSpaceAvailable (atParams s k).outQueue row.outQueueSpace = true := by
      rw [hR.space, h30]; exact hspace
    refine ⟨k, hR.lt, ?_⟩
    simp only [hspace', Bool.true_eq_false, if_false, hcall, bind, Except.bind, hR.retried, hkind]
    cases scheduleCommand env (respond (atParams s k) text) c row.returnFunction with
    | error e => rfl
    | ok s' => rfl

theorem TickRun.inUse (hr : TickRun env s s') (hno : ¬ RunsSlot i env s) :
    s'.commandStates i = s.commandStates i := by
  cases hr with
  | idle => rfl
  | @run j _ _ _ _ hdue =>
    have hne : i ≠ j := by
      rintro rfl
      exact hno hdue
    exact Function.update_of_ne hne ..

/-! ## Runs -/

variable {m m' : Mcp} {input : Input}

/-- What happens to a slot in use in a round without a `RESET`. -/
theorem Round.slot (hr : Reach Initial Round (fun _ _ => True) m) (hround : Round m input m')
    (hno : Dispatches (exchangeBytes input m) → ¬ RunsReset (polled (exchangeBytes input m).server))
    (hid : (m.server.commandStates i).commandId ≠ unknown) : ∃ m₁,
    checkPackets input.env (exchangeBytes input m) = .ok m₁ ∧
    m₁.server.commandStates i = m.server.commandStates i ∧
    (m'.server = m₁.server ∨ Ticks m₁ ∧ TickRun input.env m₁.server m'.server) := by
  have h := (healthy_reach hr).exchange input
  obtain ⟨m₁, hp, ht⟩ := hround.steps
  rw [← exchangeBytes_states input m] at hid
  refine ⟨m₁, hp, ?_, checkTicks_run (table_packets hr hp) ht⟩
  rw [(checkPackets_step hp).1.inUse h hno hid, exchangeBytes_states]

theorem Spared.round (hr : Reach Initial Round (fun _ _ => True) m) (hs : Spared i m input)
    (hround : Round m input m') (hid : (m.server.commandStates i).commandId ≠ unknown) :
    m'.server.commandStates i = m.server.commandStates i := by
  obtain ⟨m₁, hp, h₁, he | ⟨hgo, hrun⟩⟩ := hround.slot hr hs.dispatch hid
  · rw [he, h₁]
  · rw [hrun.inUse (hs.tick m₁ hp hgo), h₁]

/-- **A slot in use is kept** until a tick runs it or a `RESET` is run. -/
theorem slot_kept {init : Mcp → Prop} {st : CommandState}
    (h0 : ∀ m, init m → Reach Initial Round (fun _ _ => True) m)
    (hst : ∀ m, init m → m.server.commandStates i = st) (hid : st.commandId ≠ unknown)
    (hr : Reach init Round (Spared i) m) : m.server.commandStates i = st := by
  refine hr.inv_after h0 (fun _ _ _ => trivial) hst fun m input m' hm hst hs hround => ?_
  rw [hs.round hm hround (by rw [hst]; exact hid), hst]

theorem checkPackets_dispatches (hd : Dispatches m) (env : Env) : checkPackets env m = (do
    let r ← dispatch env (polled m.server)
    return { m with server := r.2, packetCheckCounter := 0 }) := by
  rw [checkPackets, if_pos ⟨hd.1, hd.2.1⟩, pollAndDispatch, if_pos hd.2.2]
  change ((dispatch env (polled m.server) >>= _) >>= _) = _
  cases dispatch env (polled m.server) with
  | error e => rfl
  | ok r => rfl

/-- The state behind the dispatch, when there is an empty slot. -/
theorem announces_recorded (hr : Reach Initial Round (fun _ _ => True) m)
    (hmeets : RoundMeets HasSlot (fun _ _ => True) m input)
    (hd : Dispatches (exchangeBytes input m))
    (ha : Announces (polled (exchangeBytes input m).server) c text) {m₁ : Mcp}
    (hp : checkPackets input.env (exchangeBytes input m) = .ok m₁) :
    c ≠ unknown ∧
    m₁.server.outQueue = (respond (exchangeBytes input m).server text).outQueue ∧
    ∃ i < maxCommandStates, ∃ time,
      ((exchangeBytes input m).server.commandStates i).commandId = unknown ∧
      m₁.server.commandStates i = ⟨c, some (functionOf c), 1, time⟩ := by
  have h := (healthy_reach hr).exchange input
  obtain ⟨k, hc, hrun⟩ := dispatch_announces h.polled (hd.atPacket h) ha input.env
  obtain ⟨i, hi, time, hid, hsched⟩ := schedule_empty input.env (functionOf c)
    (s := respond (atParams (polled (exchangeBytes input m).server) k) text) hc
    (hmeets.dispatch hd c text ha)
  rw [checkPackets_dispatches hd, hrun, hsched] at hp
  cases hp
  refine ⟨?_, rfl, i, hi, time, hid, Function.update_self ..⟩
  rintro rfl
  cases ha.2.1

/-- The dispatch runs through, so what is kept was recorded in an empty slot. -/
theorem StagesKept.hasSlot (hr : Reach Initial Round (fun _ _ => True) m)
    (hkept : StagesKept m input) : RoundMeets HasSlot (fun _ _ => True) m input := by
  refine ⟨fun hd c text ha => ?_, fun _ _ _ => trivial⟩
  have h := (healthy_reach hr).exchange input
  obtain ⟨k, hc, hrun⟩ := dispatch_announces h.polled (hd.atPacket h) ha input.env
  obtain ⟨s', hs⟩ := schedule_ok input.env (functionOf c)
    (s := respond (atParams (polled (exchangeBytes input m).server) k) text) hc
  have hp : checkPackets input.env (exchangeBytes input m) = .ok
      { exchangeBytes input m with server := skipEnd s', packetCheckCounter := 0 } := by
    rw [checkPackets_dispatches hd, hrun, hs]; rfl
  obtain ⟨-, i, hi, -, hid, -⟩ := hkept c text hd ha _ hp
  exact ⟨i, hi, hid⟩

/-- **A command that has announced its second step waits for it** until a tick
    runs its slot or a `RESET` is run, exactly if there is an empty slot. -/
theorem stages_kept_iff (hr : Reach Initial Round (fun _ _ => True) m) (input : Input) :
    StagesKept m input ↔ RoundMeets HasSlot (fun _ _ => True) m input := by
  constructor
  · intro hkept
    exact hkept.hasSlot hr
  · intro hmeets c text hd ha m₁ hp
    obtain ⟨hc, hout, i, hi, time, hid, hslot⟩ := announces_recorded hr hmeets hd ha hp
    refine ⟨hout, i, hi, time, hid, hslot, fun m' hr' => ?_⟩
    refine slot_kept (fun m₂ hm₂ => ?_) (fun m₂ hm₂ => ?_) hc hr'
    · exact .next hr trivial (bind_eq_ok.2 ⟨m₁, hp, hm₂.1⟩)
    · obtain ⟨ht, hno⟩ := hm₂
      rcases checkTicks_run (table_packets hr hp) ht with he | ⟨hgo, hrun⟩
      · rw [he, hslot]
      · rw [hrun.inUse (hno hgo), hslot]

/-! ## The file commands -/

/-- The commands that never complete. -/
def fileCommand : CommandFunction → Bool
  | .commandGetFile | .commandPutFile | .commandGetMemFile | .commandPutMemFile => true
  | _ => false

/-- A file command waits in the slot. -/
def FileWaits (st : CommandState) : Prop :=
  st.commandId ≠ unknown ∧ ∃ fn, st.commandFunction = some fn ∧ fileCommand fn = true

theorem fileCommand_call (h : fileCommand fn = true) (env : Env) (s : Server) (tick : ℤ) :
    callFunction env s tick fn = .ok (false, s) := by
  cases fn <;> cases h <;> rfl

/-- A tick that runs a file command lets it wait again. -/
theorem TickRun.file (hr : TickRun env s s') (hf : FileWaits (s.commandStates i)) :
    FileWaits (s'.commandStates i) := by
  by_cases hrun : RunsSlot i env s
  swap
  · rw [hr.inUse hrun]; exact hf
  obtain ⟨hid, fn, hfn, hfile⟩ := hf
  cases hr with
  | idle hdue => rw [RunsSlot, hdue] at hrun; cases hrun
  | run hdue hfn' hcall =>
    cases hrun.symm.trans hdue
    cases hfn.symm.trans hfn'
    rw [fileCommand_call hfile] at hcall
    cases hcall
    dsimp only
    rw [Function.update_self]
    exact ⟨hid, fn, hfn, hfile⟩

/-- **Only a `RESET` ends the wait of a file command.** -/
theorem file_kept {init : Mcp → Prop}
    (h0 : ∀ m, init m → Reach Initial Round (fun _ _ => True) m)
    (hf : ∀ m, init m → FileWaits (m.server.commandStates i))
    (hr : Reach init Round (RoundMeets (fun _ s => ¬ RunsReset s) fun _ _ => True) m) :
    FileWaits (m.server.commandStates i) := by
  refine hr.inv_after (P := fun m => FileWaits (m.server.commandStates i)) h0
    (fun _ _ _ => trivial) hf fun m input m' hm hf hs hround => ?_
  obtain ⟨m₁, -, h₁, he | ⟨-, hrun⟩⟩ := hround.slot hm hs.dispatch hf.1
  · rw [he, h₁]; exact hf
  · exact hrun.file (by rw [h₁]; exact hf)

/-- Once file commands fill the table, every announcement up to the next `RESET`
    is followed by nothing. -/
theorem files_drop_stages (hm : Reach Initial Round (fun _ _ => True) m)
    (hfull : ∀ i < maxCommandStates, FileWaits (m.server.commandStates i))
    (hr : Reach (fun m₀ => m₀ = m) Round (RoundMeets (fun _ s => ¬ RunsReset s) fun _ _ => True) m')
    (hd : Dispatches (exchangeBytes input m'))
    (ha : Announces (polled (exchangeBytes input m').server) c text) : ¬ StagesKept m' input := by
  have hm' : Reach Initial Round (fun _ _ => True) m' :=
    hr.after (fun m₀ h0 => by rw [h0]; exact hm) fun _ _ _ => trivial
  intro hkept
  obtain ⟨i, hi, hid⟩ := (hkept.hasSlot hm').dispatch hd c text ha
  have hf : FileWaits (m'.server.commandStates i) :=
    file_kept (fun m₀ h0 => by rw [h0]; exact hm) (fun m₀ h0 => by rw [h0]; exact hfull i hi) hr
  rw [← exchangeBytes_states input m'] at hf
  exact hf.1 hid

end

/-- The round is a dispatch of this request, with space for its answer. -/
def dispatchesRequest (r : Command × ℕ) (m : Mcp) : Bool :=
  decide (m.packetCheckCounter ≥ maxCommandWait) && decide (Unlocked m.server) &&
    (isCompletePacketAvailable m.server.inQueue).1 &&
    request (polled m.server).inQueue == some r &&
    isQueueSpaceAvailable (polled m.server).outQueue 30

theorem announces_of_dispatchesRequest {m : Mcp} {c : Command} {k : ℕ} {text : List BYTE}
    (h : dispatchesRequest (c, k) m = true) (htext : announcement (functionOf c) = some text) :
    Dispatches m ∧ Announces (polled m.server) c text := by
  simp only [dispatchesRequest, Bool.and_eq_true, decide_eq_true_eq, beq_iff_eq] at h
  obtain ⟨⟨⟨⟨hcount, hunlocked⟩, hfound⟩, hr⟩, hspace⟩ := h
  exact ⟨⟨hcount, hunlocked, hfound⟩, ⟨k, hr⟩, htext, hspace⟩

/-- An instance: a `SHUTDOWN` to a server that has done nothing yet. -/
theorem stages_kept_shutdown : ∃ m, Reach Initial Round (fun _ _ => True) m ∧
    Announces (polled (exchangeBytes ⟨none, false, calmEnv⟩ m).server) 2
      (bytes "SHUTDOWN IN 10 SECONDS\n") ∧ StagesKept m ⟨none, false, calmEnv⟩ := by
  have h : endsIn (receiving (encode binaryCommand [2]) ++ idling 10) startedMcp (fun m =>
      dispatchesRequest (2, 7) (exchangeBytes ⟨none, false, calmEnv⟩ m) &&
        (m.server.commandStates 0).commandId == unknown) = true := by decide +kernel
  obtain ⟨m, -, hr, h⟩ := reach_of_endsIn h
  obtain ⟨hreq, hempty⟩ := Bool.and_eq_true_iff.1 h
  obtain ⟨-, ha⟩ := announces_of_dispatchesRequest hreq rfl
  refine ⟨m, hr, ha, (stages_kept_iff hr _).2 ⟨fun _ _ _ _ => ⟨0, by decide, ?_⟩, fun _ _ _ => trivial⟩⟩
  change ((exchangeBytes ⟨none, false, calmEnv⟩ m).server.commandStates 0).commandId = unknown
  rw [exchangeBytes_states]
  exact eq_of_beq hempty

/-- Twenty `GETFILE`s fill the table; then comes a `SHUTDOWN`. -/
def filledTable : List Input :=
  receiving ((List.replicate 20 (encode binaryCommand [29])).flatten ++ encode binaryCommand [2]) ++
    idling 230

/-- The shutdown is announced, and no slot waits for it. -/
theorem stage_dropped : ∃ m m', runRounds filledTable startedMcp = .ok m ∧
    Reach Initial Round (fun _ _ => True) m ∧ Round m ⟨none, false, calmEnv⟩ m' ∧
    Announces (polled (exchangeBytes ⟨none, false, calmEnv⟩ m).server) 2
      (bytes "SHUTDOWN IN 10 SECONDS\n") ∧
    (∀ i < maxCommandStates, (m'.server.commandStates i).commandId ≠ 2) ∧
    ¬ StagesKept m ⟨none, false, calmEnv⟩ := by
  have h : endsIn filledTable startedMcp (fun m =>
      dispatchesRequest (2, 7) (exchangeBytes ⟨none, false, calmEnv⟩ m) &&
        (List.range maxCommandStates).all (fun i => (m.server.commandStates i).commandId == 29) &&
        endsIn [⟨none, false, calmEnv⟩] m (fun m' => (List.range maxCommandStates).all fun i =>
          (m'.server.commandStates i).commandId == 29)) = true := by
    decide +kernel
  obtain ⟨m, hm, hr, h⟩ := reach_of_endsIn h
  simp only [Bool.and_eq_true, List.all_eq_true, List.mem_range, beq_iff_eq] at h
  obtain ⟨⟨hreq, hfull⟩, hend⟩ := h
  obtain ⟨m', hm', hfull'⟩ := exists_of_endsIn hend
  obtain ⟨m₁, hround, h₁⟩ := bind_eq_ok.1 hm'
  cases h₁
  simp only [List.all_eq_true, List.mem_range, beq_iff_eq] at hfull'
  obtain ⟨hd, ha⟩ := announces_of_dispatchesRequest hreq rfl
  refine ⟨m, m', hm, hr, hround, ha, fun i hi => ?_, fun hkept => ?_⟩
  · rw [hfull' i hi]; decide
  · obtain ⟨i, hi, hid⟩ := (hkept.hasSlot hr).dispatch hd 2 _ ha
    change ((exchangeBytes ⟨none, false, calmEnv⟩ m).server.commandStates i).commandId = unknown at hid
    rw [exchangeBytes_states, hfull i hi] at hid
    cases hid

end CpcLink
