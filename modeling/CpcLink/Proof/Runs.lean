/-
  Runs of the main loop.

  A round exchanges bytes with the interface, then looks for a packet, then for
  a command whose time has come.  `PacketStep` and `TickStep` are what the last
  two can do.  `Kept.reach` is the rule for invariants: what each part of a round
  keeps holds in every state a run reaches.
-/
import CpcLink.Lib.Reach
import CpcLink.Proof.CallFrames
import CpcLink.Proof.Calls

namespace CpcLink

/-! ## Rounds -/

/-- The state after the bytes of a round. -/
def exchangeBytes (input : Input) (m : Mcp) : Mcp := sendByte (receiveByte m input.dor) input.dir

/-- A packet is dispatched in this state. -/
def Dispatches (m : Mcp) : Prop :=
  m.packetCheckCounter ≥ maxCommandWait ∧ Unlocked m.server ∧
    (isCompletePacketAvailable m.server.inQueue).1 = true

/-- The commands that wait are looked at in this state. -/
def Ticks (m : Mcp) : Prop := m.tickCheckCounter ≥ maxTickWait ∧ Unlocked m.server

instance (m : Mcp) : Decidable (Dispatches m) := inferInstanceAs (Decidable (_ ∧ _ ∧ _))
instance (m : Mcp) : Decidable (Ticks m) := inferInstanceAs (Decidable (_ ∧ _))

/-- What looking for a packet does to the server. -/
inductive PacketStep (env : Env) (m : Mcp) : Server → Prop
  | idle : PacketStep env m m.server
  | polled : PacketStep env m (polled m.server)
  | dispatched {o : Outcome} {s' : Server} : Dispatches m →
      dispatch env (CpcLink.polled m.server) = .ok (o, s') → PacketStep env m s'

/-- What looking for a command to run does to the server. -/
inductive TickStep (env : Env) (m : Mcp) : Server → Prop
  | idle : TickStep env m m.server
  | run {i : ℕ} {fn : CommandFunction} {done : Bool} {s' : Server} {states : ℕ → CommandState} :
      Ticks m →
      dueCommandState m.server.commandStates (getCurrentExecTime env.timeOfDay) = some i →
      (m.server.commandStates i).commandFunction = some fn →
      callFunction env m.server (m.server.commandStates i).nextTickCount fn = .ok (done, s') →
      (∀ j f, (states j).commandFunction = some f → (s'.commandStates j).commandFunction = some f) →
      TickStep env m { s' with commandStates := states }

section
variable {env : Env} {m m' : Mcp}

theorem receiveByte_cases (m : Mcp) (dor : Option BYTE) : receiveByte m dor = m ∨
    ∃ b, dor = some b ∧ numberFreeBytesInQueueToWriteToo m.server.inQueue > 0 ∧
      receiveByte m dor = { m with server := { m.server with
        inQueue := storeByte m.server.inQueue b
        binaryDataReceiveMode :=
          if m.server.binaryDataReceiveMode > 0 then m.server.binaryDataReceiveMode - 1
          else m.server.binaryDataReceiveMode } } := by
  cases dor with
  | none => exact .inl rfl
  | some b =>
    by_cases hfree : numberFreeBytesInQueueToWriteToo m.server.inQueue > 0
    · exact .inr ⟨b, rfl, hfree, by simp only [receiveByte, hfree, if_true]⟩
    · exact .inl (by simp only [receiveByte, hfree, if_false])

theorem sendByte_cases (m : Mcp) (dir : Bool) : sendByte m dir = m ∨
    (numberBytesInQueueToRead m.server.outQueue > 0 ∧
      sendByte m dir = { m with
        written := m.written ++ [getCurrentReadByte m.server.outQueue]
        server := { m.server with
          outQueue := incrementReadNextIndex m.server.outQueue 1
          binaryDataSendMode :=
            if m.server.binaryDataSendMode > 0 then m.server.binaryDataSendMode - 1
            else m.server.binaryDataSendMode } }) := by
  by_cases hgo : numberBytesInQueueToRead m.server.outQueue > 0 ∧ dir
  · exact .inr ⟨hgo.1, by simp only [sendByte, hgo, and_self, if_true]⟩
  · exact .inl (by simp only [sendByte, hgo, if_false])

theorem checkPackets_step (hr : checkPackets env m = .ok m') :
    PacketStep env m m'.server ∧ m'.written = m.written ∧
      m'.tickCheckCounter = m.tickCheckCounter := by
  unfold checkPackets at hr
  split at hr
  swap
  · cases hr; exact ⟨.idle, rfl, rfl⟩
  next hgo =>
  obtain ⟨s', hs, hr⟩ := bind_eq_ok.1 hr
  cases hr
  refine ⟨?_, rfl, rfl⟩
  simp only [pollAndDispatch] at hs
  split at hs
  next hfound =>
    obtain ⟨⟨o, s''⟩, hd, hs⟩ := bind_eq_ok.1 hs
    cases hs
    exact .dispatched ⟨hgo.1, hgo.2, hfound⟩ hd
  next => cases hs; exact .polled

theorem tickSlot_call {s s'' : Server} {i : ℕ} (hr : tickSlot env s i = .ok s'') :
    ∃ fn done s' states, (s.commandStates i).commandFunction = some fn ∧
      callFunction env s (s.commandStates i).nextTickCount fn = .ok (done, s') ∧
      (∀ j f, (states j).commandFunction = some f → (s'.commandStates j).commandFunction = some f) ∧
      s'' = { s' with commandStates := states } := by
  unfold tickSlot at hr
  split at hr
  · cases hr
  next fn hfn =>
  obtain ⟨⟨done, s'⟩, hcall, hr⟩ := bind_eq_ok.1 hr
  -- the slot is freed, or keeps its function
  have slot : ∀ st : CommandState, (∀ f, st.commandFunction = some f →
      (s'.commandStates i).commandFunction = some f) → ∀ j f,
      (Function.update s'.commandStates i st j).commandFunction = some f →
      (s'.commandStates j).commandFunction = some f := by
    intro st hst j f hf
    by_cases hj : j = i
    · subst hj; rw [Function.update_self] at hf; exact hst f hf
    · rwa [Function.update_of_ne hj] at hf
  cases done with
  | true =>
    cases hr
    exact ⟨fn, true, s', _, hfn, hcall, slot .zero fun f hf => (by cases hf), rfl⟩
  | false =>
    obtain ⟨time, -, hr⟩ := bind_eq_ok.1 hr
    cases hr
    exact ⟨fn, false, s', _, hfn, hcall, slot ⟨(s'.commandStates i).commandId,
      (s'.commandStates i).commandFunction, (s'.commandStates i).nextTickCount + 1, time⟩
      fun f hf => hf, rfl⟩

theorem checkTicks_step (hr : checkTicks env m = .ok m') :
    TickStep env m m'.server ∧ m'.written = m.written := by
  unfold checkTicks at hr
  split at hr
  swap
  · cases hr; exact ⟨.idle, rfl⟩
  next hgo =>
  obtain ⟨s'', hs, hr⟩ := bind_eq_ok.1 hr
  cases hr
  refine ⟨?_, rfl⟩
  unfold tickCommand at hs
  split at hs
  next i hdue =>
    obtain ⟨fn, done, s', states, hfn, hcall, hstates, rfl⟩ := tickSlot_call hs
    exact .run hgo hdue hfn hcall hstates
  next => cases hs; exact .idle

end

/-! ## The server stays healthy -/

section
variable {env : Env} {s s' : Server}

theorem InRange.skipTerminator {q : Queue} (h : InRange q) :
    InRange (queueSkipTerminatorOfPacket q) := by
  rw [skipTerminator_eq h]
  split
  · exact h.inc 3
  · exact h

theorem InRange.poll {q : Queue} (h : InRange q) : InRange (isCompletePacketAvailable q).2 :=
  (isComplete_inRange h).1

theorem Healthy.withInQueue (h : Healthy s) {q : Queue} (hq : InRange q) :
    Healthy { s with inQueue := q } :=
  ⟨hq, h.outQueue, h.memstore, h.commandStates⟩

theorem Healthy.withStates (h : Healthy s) {states : ℕ → CommandState} (hs : OnlyStaged states) :
    Healthy { s with commandStates := states } :=
  ⟨h.inQueue, h.outQueue, h.memstore, hs⟩

theorem Healthy.polled (h : Healthy s) : Healthy (polled s) := h.withInQueue h.inQueue.poll

theorem Healthy.atParams (h : Healthy s) (k : ℕ) : Healthy (atParams s k) :=
  h.withInQueue (h.inQueue.inc k)

theorem Healthy.skipEnd (h : Healthy s) : Healthy (skipEnd s) :=
  h.withInQueue h.inQueue.skipTerminator

theorem Healthy.respond (h : Healthy s) (response : List BYTE) : Healthy (respond s response) := by
  refine ⟨h.inQueue, ?_, h.memstore, h.commandStates⟩
  rw [CpcLink.respond, h.outQueue.writePacket]
  split
  · exact h.outQueue.foldl _
  · exact h.outQueue

/-- A packet was found at the head. -/
theorem Dispatches.atPacket {m : Mcp} (h : Healthy m.server) (hd : Dispatches m) :
    ∃ ty body rest, AtPacket (polled m.server).inQueue ty body rest := by
  obtain ⟨he, hp⟩ := isComplete_true h.inQueue hd.2.2
  rw [CpcLink.polled, he]; exact hp

theorem getCommandText_inRange {q : Queue} {ty : PacketType} {body rest : List BYTE} (h : InRange q)
    (hp : AtPacket q ty body rest) : InRange (getCommandText q).2.2 := by
  rcases getCommandText_cases h hp with ⟨-, -, -, -, -, hq⟩ | ⟨-, -, hq⟩ | ⟨-, -, hq⟩ <;> rw [hq]
  · exact h.inc _
  · exact h.inc _
  · exact ⟨⟨show -queueSize < -1 by decide, show -1 < queueSize by decide⟩, h.storeNonneg, h.storeLt⟩

/-- The space check of the table is enough for the short answers. -/
theorem Row.fits {c : Command} {fn : CommandFunction} {space : ℤ} (hR : Row c fn space)
    (h : Healthy s) (hsp : isQueueSpaceAvailable s.outQueue space = true) :
    Fits s.outQueue space ∧ Fits s.outQueue 30 := by
  have hb := hR.bounds
  have hf := (h.outQueue.fits (by omega)).1 hsp
  exact ⟨hf, hf.mono hb.1⟩

/-- What waits after it was scheduled comes back for another step. -/
theorem staged_of_scheduled {fn : CommandFunction} {tick : ℤ} (hret : retried fn = false)
    (hcall : callFunction env s tick fn = .ok (false, s')) : staged fn := by
  have hreset : fn ≠ .commandReset := fun he => by subst he; cases hcall
  have heffect := (call_effect env s tick hreset).result hcall
  exact (heffect.incomplete rfl).resolve_right (by rw [hret]; decide)

/-- **A dispatch leaves the server healthy.** -/
theorem Healthy.dispatch (h : Healthy s)
    (hp : ∃ ty body rest, AtPacket s.inQueue ty body rest) {o : Outcome}
    (hd : dispatch env s = .ok (o, s')) : Healthy s' := by
  cases dispatch_step h.inQueue hp hd with
  | ignored | noSpace => exact h
  | badText =>
    obtain ⟨ty, body, rest, hp⟩ := hp
    exact ((h.withInQueue (getCommandText_inRange h.inQueue hp)).respond _).skipEnd
  | @complete c k _ _ _ hR hsp hcall =>
    exact ((h.atParams k).call (fun _ => (hR.fits h hsp).2) hcall).skipEnd
  | @retried c k _ _ _ hR hsp _ hcall =>
    have h' := (h.atParams k).call (fun _ => (hR.fits h hsp).2) hcall
    exact h'.withInQueue ⟨h.inQueue.read, h'.inQueue.storeNonneg, h'.inQueue.storeLt⟩
  | @scheduled c k _ _ _ _ hR hsp hret hcall hsched =>
    have h' := (h.atParams k).call (fun _ => (hR.fits h hsp).2) hcall
    have hst := staged_of_scheduled hret hcall
    obtain ⟨states, rfl, hslot⟩ := schedule_spec hsched
    refine (h'.withStates fun i fn hfn => ?_).skipEnd
    rcases hslot i with he | ⟨time, he⟩
    · rw [he] at hfn; exact h'.commandStates i fn hfn
    · rw [he] at hfn; cases hfn; exact hst

/-- A command that waits needs no space check, resets nothing and takes no data. -/
theorem staged_kind {fn : CommandFunction} (h : staged fn = true) :
    reliesOnSpace fn = false ∧ fn ≠ .commandReset ∧ takesData fn = false := by
  revert h; cases fn <;> decide

theorem Healthy.packets {m : Mcp} (h : Healthy m.server) (hs : PacketStep env m s') :
    Healthy s' := by
  cases hs with
  | idle => exact h
  | polled => exact h.polled
  | dispatched hd hrun => exact h.polled.dispatch (hd.atPacket h) hrun

theorem Healthy.ticks {m : Mcp} (h : Healthy m.server) (hs : TickStep env m s') : Healthy s' := by
  cases hs with
  | idle => exact h
  | @run i fn _ _ _ _ _ hfn hcall hstates =>
    have hkind := (staged_kind (h.commandStates i fn hfn)).1
    have h' := h.call (fun hf => by rw [hkind] at hf; cases hf) hcall
    exact h'.withStates fun j f hf => h'.commandStates j f (hstates j f hf)

theorem Healthy.receive {m : Mcp} (h : Healthy m.server) (dor : Option BYTE) :
    Healthy (receiveByte m dor).server := by
  rcases receiveByte_cases m dor with he | ⟨b, -, -, he⟩ <;> rw [he]
  · exact h
  · exact ⟨h.inQueue.store b, h.outQueue, h.memstore, h.commandStates⟩

theorem Healthy.send {m : Mcp} (h : Healthy m.server) (dir : Bool) :
    Healthy (sendByte m dir).server := by
  rcases sendByte_cases m dir with he | ⟨-, he⟩ <;> rw [he]
  · exact h
  · exact ⟨h.inQueue, h.outQueue.inc (by decide), h.memstore, h.commandStates⟩

theorem Healthy.exchange {m : Mcp} (h : Healthy m.server) (input : Input) :
    Healthy (exchangeBytes input m).server := (h.receive _).send _

end

/-! ## Runs -/

/-- A state the loop starts in. -/
def Initial (m : Mcp) : Prop :=
  ∃ inQueue outQueue memstore world, m = initialMcp inQueue outQueue memstore world

/-- One round of the loop. -/
def Round (m : Mcp) (input : Input) (m' : Mcp) : Prop := mainLoop input m = .ok m'

theorem Initial.healthy {m : Mcp} (h : Initial m) : Healthy m.server := by
  obtain ⟨inQ, outQ, store, w, rfl⟩ := h
  exact ⟨(valid_initQueue inQ).toInRange, valid_initQueue outQ, storeValid_init store,
    onlyStaged_zero⟩

theorem Round.steps {m m' : Mcp} {input : Input} (h : Round m input m') : ∃ m₁,
    checkPackets input.env (exchangeBytes input m) = .ok m₁ ∧
      checkTicks input.env m₁ = .ok m' := bind_eq_ok.1 h

/-- **The server is healthy in every state reached.** -/
theorem healthy_reach {ok : Mcp → Input → Prop} {m : Mcp} (hr : Reach Initial Round ok m) :
    Healthy m.server := by
  refine hr.inv (fun m h => h.healthy) fun m input m' h _ hround => ?_
  obtain ⟨m₁, hp, ht⟩ := hround.steps
  exact ((h.exchange input).packets (checkPackets_step hp).1).ticks (checkTicks_step ht).1

/-- The packet that is dispatched in a round meets `D`, and the state in which
    the commands that wait are looked at meets `T`. -/
structure RoundMeets (D T : Env → Server → Prop) (m : Mcp) (input : Input) : Prop where
  dispatch : Dispatches (exchangeBytes input m) →
    D input.env (polled (exchangeBytes input m).server)
  tick : ∀ m₁, checkPackets input.env (exchangeBytes input m) = .ok m₁ → Ticks m₁ →
    T input.env m₁.server

/-- Every part of a round keeps `P`, a property of the server and of the bytes
    written. -/
structure Kept (D T : Env → Server → Prop) (P : Server → List BYTE → Prop) : Prop where
  start : ∀ m, Initial m → P m.server m.written
  receive : ∀ m dor, Healthy m.server → P m.server m.written →
    P (receiveByte m dor).server (receiveByte m dor).written
  send : ∀ m dir, Healthy m.server → P m.server m.written →
    P (sendByte m dir).server (sendByte m dir).written
  poll : ∀ s w, P s w → P (polled s) w
  dispatch : ∀ env s w o s', Healthy s → (∃ ty body rest, AtPacket s.inQueue ty body rest) →
    D env s → dispatch env s = .ok (o, s') → P s w → P s' w
  tick : ∀ env s w i fn done s' states, Healthy s →
    dueCommandState s.commandStates (getCurrentExecTime env.timeOfDay) = some i →
    (s.commandStates i).commandFunction = some fn → T env s →
    callFunction env s (s.commandStates i).nextTickCount fn = .ok (done, s') → P s w →
    P { s' with commandStates := states } w

/-- **The rule for invariants.** -/
theorem Kept.reach {D T : Env → Server → Prop} {P : Server → List BYTE → Prop} (hk : Kept D T P)
    {m : Mcp} (hr : Reach Initial Round (RoundMeets D T) m) : P m.server m.written := by
  refine hr.inv_with (P := fun m => P m.server m.written) (I := fun m => Healthy m.server)
    (fun _ => healthy_reach) hk.start fun m input m' h hP hok hround => ?_
  obtain ⟨m₁, hp, ht⟩ := hround.steps
  have hx : Healthy (exchangeBytes input m).server := h.exchange input
  have hPx : P (exchangeBytes input m).server (exchangeBytes input m).written :=
    hk.send _ _ (h.receive _) (hk.receive _ _ h hP)
  obtain ⟨hps, hw, -⟩ := checkPackets_step hp
  have hP₁ : P m₁.server m₁.written := by
    rw [hw]
    generalize hs : m₁.server = s₁ at hps
    cases hps with
    | idle => exact hPx
    | polled => exact hk.poll _ _ hPx
    | dispatched hd hrun =>
      exact hk.dispatch _ _ _ _ _ hx.polled (hd.atPacket hx) (hok.dispatch hd) hrun
        (hk.poll _ _ hPx)
  obtain ⟨hts, hw'⟩ := checkTicks_step ht
  rw [hw']
  generalize hs : m'.server = s' at hts
  cases hts with
  | idle => exact hP₁
  | run hgo hdue hfn hcall _ =>
    exact hk.tick _ _ _ _ _ _ _ _ (hx.packets (checkPackets_step hp).1) hdue hfn
      (hok.tick m₁ hp hgo) hcall hP₁

/-! ## Running a list of rounds -/

/-- The state after some rounds. -/
def runRounds (inputs : List Input) (m : Mcp) : Except Fault Mcp :=
  match inputs with
  | [] => .ok m
  | input :: inputs => mainLoop input m >>= runRounds inputs

theorem reach_runRounds {ok : Mcp → Input → Prop} {inputs : List Input} {m m' : Mcp}
    (hr : Reach Initial Round ok m) (hok : ∀ m i, ok m i) (h : runRounds inputs m = .ok m') :
    Reach Initial Round ok m' := by
  induction inputs generalizing m with
  | nil => cases h; exact hr
  | cons input inputs ih =>
    obtain ⟨m₁, h1, h⟩ := bind_eq_ok.1 h
    exact ih (.next hr (hok m input) h1) h

/-- The rounds run through, and `p` holds after them. -/
def endsIn (inputs : List Input) (m : Mcp) (p : Mcp → Bool) : Bool :=
  match runRounds inputs m with
  | .ok m' => p m'
  | .error _ => false

theorem exists_of_endsIn {inputs : List Input} {m : Mcp} {p : Mcp → Bool}
    (h : endsIn inputs m p = true) : ∃ m', runRounds inputs m = .ok m' ∧ p m' = true := by
  unfold endsIn at h
  split at h
  · next m' hm => exact ⟨m', hm, h⟩
  · cases h

/-- Rounds in which these bytes come in, and none goes out. -/
def receiving (input : List BYTE) : List Input := input.map fun b => ⟨some b, false, calmEnv⟩

/-- Rounds in which nothing comes in or goes out. -/
def idling (n : ℕ) : List Input := List.replicate n ⟨none, false, calmEnv⟩

/-- The server is started on empty memory. -/
def startedMcp : Mcp := initialMcp (queueOf []) (queueOf []) (fun _ => .zero) ⟨fun _ => none, 0, [], []⟩

theorem startedMcp_initial : Initial startedMcp := ⟨_, _, _, _, rfl⟩

/-- A state that some rounds lead to. -/
theorem reach_of_endsIn {inputs : List Input} {p : Mcp → Bool}
    (h : endsIn inputs startedMcp p = true) : ∃ m, runRounds inputs startedMcp = .ok m ∧
      Reach Initial Round (fun _ _ => True) m ∧ p m = true := by
  obtain ⟨m, hm, hp⟩ := exists_of_endsIn h
  exact ⟨m, hm, reach_runRounds (.start startedMcp_initial) (fun _ _ => trivial) hm, hp⟩

/-- What is asked of the command that is due, if there is one, is decided by
    finding it. -/
instance decidableDue {x : Option ℕ} {f : ℕ → Option CommandFunction}
    {P : ℕ → CommandFunction → Prop} [∀ i fn, Decidable (P i fn)] :
    Decidable (∀ i fn, x = some i → f i = some fn → P i fn) :=
  match x with
  | none => .isTrue fun _ _ he => by cases he
  | some i => decidable_of_iff (∀ fn ∈ f i, P i fn)
      ⟨fun h j fn he => by cases he; exact h fn, fun h fn => h i fn rfl⟩

/-- `RoundMeets`, computed. -/
def roundMeets (p t : Env → Server → Bool) (m : Mcp) (input : Input) : Bool :=
  (decide (Dispatches (exchangeBytes input m)) →
    p input.env (polled (exchangeBytes input m).server)) &&
  match checkPackets input.env (exchangeBytes input m) with
  | .error _ => true
  | .ok m₁ => decide (Ticks m₁) → t input.env m₁.server

/-- The rounds run through, each of them meets `p` and `t`, and `r` holds after
    them. -/
def runMeets (p t : Env → Server → Bool) (inputs : List Input) (m : Mcp) (r : Mcp → Bool) : Bool :=
  match inputs with
  | [] => r m
  | input :: inputs => roundMeets p t m input &&
    match mainLoop input m with
    | .error _ => false
    | .ok m' => runMeets p t inputs m' r

section
variable {D T : Env → Server → Prop} {p t : Env → Server → Bool} {m : Mcp}

theorem meets_of_roundMeets (hp : ∀ env s, p env s = true → D env s)
    (ht : ∀ env s, t env s = true → T env s) {input : Input} (h : roundMeets p t m input = true) :
    RoundMeets D T m input := by
  obtain ⟨hd, hi⟩ := Bool.and_eq_true_iff.1 h
  refine ⟨fun hgo => hp _ _ (of_decide_eq_true hd (decide_eq_true hgo)), fun m₁ h₁ hgo => ?_⟩
  rw [h₁] at hi
  exact ht _ _ (of_decide_eq_true hi (decide_eq_true hgo))

theorem reach_of_runMeets (hp : ∀ env s, p env s = true → D env s)
    (ht : ∀ env s, t env s = true → T env s) {inputs : List Input}
    (hr : Reach Initial Round (RoundMeets D T) m) {r : Mcp → Bool}
    (h : runMeets p t inputs m r = true) :
    ∃ m', runRounds inputs m = .ok m' ∧ Reach Initial Round (RoundMeets D T) m' ∧ r m' = true := by
  induction inputs generalizing m with
  | nil => exact ⟨m, rfl, hr, h⟩
  | cons input inputs ih =>
    unfold runMeets at h
    obtain ⟨hd, h⟩ := Bool.and_eq_true_iff.1 h
    split at h
    · cases h
    next m₁ hround =>
    obtain ⟨m', hrun, hr', hend⟩ := ih (.next hr (meets_of_roundMeets hp ht hd) hround) h
    exact ⟨m', bind_eq_ok.2 ⟨m₁, hround, hrun⟩, hr', hend⟩

/-- A run from the start, of conditions that are decided. -/
theorem reach_of_started [∀ env s, Decidable (D env s)] [∀ env s, Decidable (T env s)]
    {inputs : List Input} {r : Mcp → Bool}
    (h : runMeets (fun env s => decide (D env s)) (fun env s => decide (T env s)) inputs startedMcp
      r = true) :
    ∃ m, runRounds inputs startedMcp = .ok m ∧ Reach Initial Round (RoundMeets D T) m ∧ r m = true :=
  reach_of_runMeets (fun _ _ => of_decide_eq_true) (fun _ _ => of_decide_eq_true)
    (.start startedMcp_initial) h

end

end CpcLink
