/-
  The loop on the pins is the loop of the model.

  A round on the pins does what `mainLoop` does with what it sees there (`round_mcp`), so
  what holds of every run of the model holds on the pins.  What the server writes is what
  goes into the FIFO to the CPC, and unless the CPC resets the FIFOs, what it reads is what
  comes out of the other one, and what it has written is what the CPC gets.
-/
import CpcLink.Station
import CpcLink.Proof.Gpio
import CpcLink.Proof.Stream

namespace CpcLink

namespace Station

variable {sched : Schedule} {s s' : Station} {env : Env}

/-! ## What a round sees -/

/-- The byte that is received in a round. -/
def dorSeen (sched : Schedule) (s : Station) : Option BYTE :=
  if numberFreeBytesInQueueToWriteToo s.mcp.server.inQueue > 0 then
    let dor := s.pi.access sched (.digitalRead pinDor)
    if dor.1 then some (UInt8.ofNat (readFifoByte sched dor.2).1) else none
  else none

/-- Whether one may be sent. -/
def dirSeen (sched : Schedule) (s : Station) : Bool :=
  if numberBytesInQueueToRead s.mcp.server.outQueue > 0 then
    (s.pi.access sched (.digitalRead pinDir)).1
  else false

def input (sched : Schedule) (env : Env) (s : Station) : Input where
  dor := s.dorSeen sched
  dir := (s.receive sched).dirSeen sched
  env := env

theorem receive_mcp (sched : Schedule) (s : Station) :
    (s.receive sched).mcp = receiveByte s.mcp (s.dorSeen sched) := by
  unfold receive dorSeen
  dsimp only
  split_ifs <;> rfl

theorem send_mcp (sched : Schedule) (s : Station) :
    (s.send sched).mcp = sendByte s.mcp (s.dirSeen sched) := by
  unfold send dirSeen
  dsimp only
  split_ifs with hbytes hdir
  · rw [hdir]
  · rw [Bool.not_eq_true] at hdir
    rw [hdir, sendByte, if_neg (by rintro ⟨-, hf⟩; cases hf)]
  · rw [sendByte, if_neg (by rintro ⟨-, hf⟩; cases hf)]

/-- **A round on the pins is a round of the model.** -/
theorem round_mcp (sched : Schedule) (env : Env) (s : Station) :
    (s.round sched env).map Station.mcp = mainLoop (s.input sched env) s.mcp := by
  have hexchange : ((s.receive sched).send sched).mcp =
      sendByte (receiveByte s.mcp (s.dorSeen sched)) ((s.receive sched).dirSeen sched) := by
    rw [send_mcp, receive_mcp]
  rw [round, mainLoop]
  dsimp only [input]
  rw [hexchange]
  cases checkPackets env (sendByte (receiveByte s.mcp (s.dorSeen sched))
    ((s.receive sched).dirSeen sched)) with
  | error => rfl
  | ok m =>
    change Except.map _ (checkTicks env m >>= _) = checkTicks env m
    cases checkTicks env m with
    | error => rfl
    | ok m' => rfl

theorem round_ok (hround : s.round sched env = .ok s') :
    mainLoop (s.input sched env) s.mcp = .ok s'.mcp := by
  rw [← round_mcp, hround]
  rfl

/-- A byte is received only when there is a place for it. -/
theorem dorSeen_free (h : s.dorSeen sched ≠ none) :
    numberFreeBytesInQueueToWriteToo s.mcp.server.inQueue > 0 := by
  unfold dorSeen at h
  split at h
  next hfree => exact hfree
  next => exact absurd rfl h

/-! ## What goes through the FIFOs -/

/-- What goes through the FIFOs in a step. -/
structure Passes (sched : Schedule) (s s' : Station) (received sent : List BYTE) : Prop where
  pins : SetUp s'.pi.gpio
  later : Later sched s.pi s'.pi
  got : Undisturbed sched s.pi.clock s'.pi.clock →
    s'.pi.gpio.toPi.got = s.pi.gpio.toPi.got ++ received
  put : s'.pi.gpio.toCpc.put = s.pi.gpio.toCpc.put ++ sent
  written : s'.mcp.written = s.mcp.written ++ sent

theorem Passes.trans {s'' : Station} {received received' sent sent' : List BYTE}
    (h : Passes sched s s' received sent) (h' : Passes sched s' s'' received' sent') :
    Passes sched s s'' (received ++ received') (sent ++ sent') where
  pins := h'.pins
  later := h.later.trans h'.later
  got hno := by
    rw [h'.got (hno.mono h.later.clock le_rfl), h.got (hno.mono le_rfl h'.later.clock),
      List.append_assoc]
  put := by rw [h'.put, h.put, List.append_assoc]
  written := by rw [h'.written, h.written, List.append_assoc]

theorem Passes.refl (h : SetUp s.pi.gpio) : Passes sched s s [] [] where
  pins := h
  later := .refl sched s.pi
  got _ := (List.append_nil _).symm
  put := (List.append_nil _).symm
  written := (List.append_nil _).symm

/-- Nothing but the pins has moved. -/
theorem Passes.poll {pi : PiSide} (hpins : SetUp pi.gpio) (hlater : Later sched s.pi pi)
    (hmoved : CpcMoved s.pi.gpio pi.gpio) : Passes sched s ⟨s.mcp, pi⟩ [] [] where
  pins := hpins
  later := hlater
  got _ := hmoved.got.trans (List.append_nil _).symm
  put := hmoved.put.trans (List.append_nil _).symm
  written := (List.append_nil _).symm

theorem receiveByte_written (m : Mcp) (dor : Option BYTE) : (receiveByte m dor).written = m.written := by
  rcases receiveByte_cases m dor with he | ⟨_, -, -, he⟩ <;> rw [he]

theorem receive_passes (sched : Schedule) (h : SetUp s.pi.gpio) :
    Passes sched s (s.receive sched) (s.dorSeen sched).toList [] := by
  obtain ⟨hpins, hmoved⟩ := poll_kept sched h (by decide : (PinOp.digitalRead pinDor).Quiet)
  have hpoll := access_later sched s.pi (.digitalRead pinDor)
  unfold receive dorSeen
  dsimp only
  split_ifs with hfree hdor
  · obtain ⟨hpins', hput⟩ := readFifoByte_kept sched hpins
    have hread := readFifoByte_later sched (s.pi.access sched (.digitalRead pinDor)).2
    refine ⟨hpins', hpoll.trans hread, fun hno => ?_, ?_, ?_⟩
    · rw [poll_dor, Passage.hasSome_iff] at hdor
      obtain ⟨v, rest, hheld⟩ := List.exists_cons_of_ne_nil hdor
      obtain ⟨hval, hgot, -⟩ := readFifoByte_spec sched hpins (hno.mono hpoll.clock le_rfl) hheld
      rw [hval, UInt8.ofNat_toNat]
      exact hgot.trans (by rw [hmoved.got]; rfl)
    · exact hput.trans (hmoved.put.trans (List.append_nil _).symm)
    · rw [receiveByte_written, List.append_nil]
  · exact .poll hpins hpoll hmoved
  · exact .refl h

theorem send_passes (sched : Schedule) (h : SetUp s.pi.gpio) :
    ∃ sent, Passes sched s (s.send sched) [] sent := by
  obtain ⟨hpins, hmoved⟩ := poll_kept sched h (by decide : (PinOp.digitalRead pinDir).Quiet)
  have hpoll := access_later sched s.pi (.digitalRead pinDir)
  unfold send
  dsimp only
  split_ifs with hbytes hdir
  · obtain ⟨hpins', hput, hgot⟩ := writeFifoByte_spec sched hpins hdir
      (getCurrentReadByte s.mcp.server.outQueue)
    refine ⟨[getCurrentReadByte s.mcp.server.outQueue], hpins',
      hpoll.trans (accesses_later sched _ _), fun _ => ?_, ?_, ?_⟩
    · exact hgot.trans (hmoved.got.trans (List.append_nil _).symm)
    · exact hput.trans (by rw [hmoved.put])
    · rw [sendByte, if_pos ⟨hbytes, rfl⟩]
  · exact ⟨[], .poll hpins hpoll hmoved⟩
  · exact ⟨[], .refl h⟩

theorem round_passes (h : SetUp s.pi.gpio) (hround : s.round sched env = .ok s') :
    ∃ sent, Passes sched s s' (s.input sched env).dor.toList sent := by
  have hreceive := receive_passes sched h
  obtain ⟨sent, hsend⟩ := send_passes sched hreceive.pins
  have hall := hreceive.trans hsend
  rw [List.append_nil, List.nil_append] at hall
  obtain ⟨m, hpackets, hrest⟩ := bind_eq_ok.1 hround
  obtain ⟨m', hticks, hend⟩ := bind_eq_ok.1 hrest
  cases hend
  refine ⟨sent, hall.pins, hall.later, hall.got, hall.put, ?_⟩
  change m'.written = _
  rw [(checkTicks_step hticks).2, (checkPackets_step hpackets).2.1]
  exact hall.written

/-! ## Runs -/

/-- What the rounds see; behind a fault there is nothing to see. -/
def inputs (sched : Schedule) : List Env → Station → List Input
  | [], _ => []
  | env :: envs, s => s.input sched env ::
    match s.round sched env with
    | .ok s' => inputs sched envs s'
    | .error _ => envs.map fun env => ⟨none, false, env⟩

/-- In every round a byte comes in only when there is a place for it. -/
def Stores : List Input → Mcp → Prop
  | [], _ => True
  | input :: inputs, m =>
    (input.dor ≠ none → numberFreeBytesInQueueToWriteToo m.server.inQueue > 0) ∧
      ∀ m', mainLoop input m = .ok m' → Stores inputs m'

theorem inputs_run (sched : Schedule) (envs : List Env) (s : Station) :
    (inputs sched envs s).map Input.env = envs ∧
      runRounds (inputs sched envs s) s.mcp = (rounds sched envs s).map Station.mcp ∧
      Stores (inputs sched envs s) s.mcp := by
  induction envs generalizing s with
  | nil => exact ⟨rfl, rfl, trivial⟩
  | cons env envs ih =>
    have hround := round_mcp sched env s
    rw [inputs, runRounds, rounds, ← hround, List.map_cons]
    cases hs : s.round sched env with
    | error fault =>
      refine ⟨by simp [input, Function.comp_def], rfl, dorSeen_free, fun m' hm' => ?_⟩
      rw [← hround, hs] at hm'
      cases hm'
    | ok s₁ =>
      obtain ⟨henvs, hrun, hstores⟩ := ih s₁
      refine ⟨by rw [henvs]; rfl, hrun, dorSeen_free, fun m' hm' => ?_⟩
      cases (round_ok hs).symm.trans hm'
      exact hstores

theorem rounds_passes (envs : List Env) (h : SetUp s.pi.gpio) (hrounds : rounds sched envs s = .ok s') :
    ∃ sent, Passes sched s s' ((inputs sched envs s).filterMap Input.dor) sent := by
  induction envs generalizing s with
  | nil =>
    cases hrounds
    exact ⟨[], .refl h⟩
  | cons env envs ih =>
    obtain ⟨s₁, hround, hrest⟩ := bind_eq_ok.1 hrounds
    obtain ⟨sent, hfirst⟩ := round_passes h hround
    obtain ⟨sent', hlast⟩ := ih hfirst.pins hrest
    have hall := hfirst.trans hlast
    rw [inputs, hround]
    refine ⟨sent ++ sent', ?_⟩
    rw [List.filterMap_cons]
    cases hdor : (s.input sched env).dor with
    | none =>
      rw [hdor] at hall
      exact hall
    | some b =>
      rw [hdor] at hall
      exact hall

/-- **A run on the pins is a run of the model**, with a fault where that has one, in which
    each byte that comes in is stored.  What goes into the FIFO to the CPC is what the model
    writes.  Unless the CPC resets the FIFOs, the bytes that come in are the ones that are
    taken out of the other one. -/
theorem rounds_seen (sched : Schedule) (envs : List Env) (h : SetUp s.pi.gpio) :
    (inputs sched envs s).map Input.env = envs ∧
      runRounds (inputs sched envs s) s.mcp = (rounds sched envs s).map Station.mcp ∧
      Stores (inputs sched envs s) s.mcp ∧
      ∀ s', rounds sched envs s = .ok s' →
        (∃ sent, s'.pi.gpio.toCpc.put = s.pi.gpio.toCpc.put ++ sent ∧
          s'.mcp.written = s.mcp.written ++ sent) ∧
        (Undisturbed sched s.pi.clock s'.pi.clock → s'.pi.gpio.toPi.got =
          s.pi.gpio.toPi.got ++ (inputs sched envs s).filterMap Input.dor) := by
  obtain ⟨henvs, hrun, hstores⟩ := inputs_run sched envs s
  refine ⟨henvs, hrun, hstores, fun s' hs' => ?_⟩
  obtain ⟨sent, hpasses⟩ := rounds_passes envs h hs'
  exact ⟨⟨sent, hpasses.put, hpasses.written⟩, hpasses.got⟩

/-- A CPC that sends a `PING` while the pins are set up, and then reads now and then. -/
def pinging : Schedule := fun t =>
  ⟨if t = 0 then (encode textCommand (bytes "PING\n")).map .put
    else if t % 100 = 0 then [.take] else [], 0⟩

theorem pinging_undisturbed (t t' : ℕ) : Undisturbed pinging t t' := by
  intro i _ _ h
  unfold pinging at h
  dsimp only at h
  split_ifs at h
  · obtain ⟨v, -, he⟩ := List.mem_map.1 h
    cases he
  · cases List.mem_singleton.1 h
  · cases h

/-- The server is started. -/
def pingedStation : Station := start pinging .reset startedMcp

theorem rounds_seen_ping : ∃ s', rounds pinging (List.replicate 16 calmEnv) pingedStation = .ok s' ∧
    s'.pi.gpio.toPi.got = encode textCommand (bytes "PING\n") ∧
    runRounds (inputs pinging (List.replicate 16 calmEnv) pingedStation) startedMcp = .ok s'.mcp := by
  obtain ⟨-, hrun, -, hpasses⟩ := rounds_seen (s := pingedStation) pinging
    (List.replicate 16 calmEnv) (setupPins_spec _ _)
  have hdor : (inputs pinging (List.replicate 16 calmEnv) pingedStation).filterMap Input.dor =
      encode textCommand (bytes "PING\n") := by decide +kernel
  cases hs' : rounds pinging (List.replicate 16 calmEnv) pingedStation with
  | error fault =>
    have hok : (rounds pinging (List.replicate 16 calmEnv) pingedStation).isOk = true := by
      decide +kernel
    rw [hs'] at hok
    cases hok
  | ok s' =>
    rw [hs'] at hrun
    have hgot := (hpasses s' hs').2 (pinging_undisturbed _ _)
    rw [hdor] at hgot
    exact ⟨s', rfl, hgot, hrun⟩

/-! ## The stream to the CPC -/

/-- The server is started. -/
def Starts (sched : Schedule) (s : Station) : Prop :=
  ∃ gpio m, PowerUp gpio ∧ Initial m ∧ s = start sched gpio m

/-- One round, of which the outside is given. -/
def Step (sched : Schedule) (s : Station) (env : Env) (s' : Station) : Prop :=
  s.round sched env = .ok s'

/-- The round meets the conditions on what it sees. -/
def StepMeets (D T : Env → Server → Prop) (sched : Schedule) (s : Station) (env : Env) : Prop :=
  RoundMeets D T s.mcp (s.input sched env)

/-- What has been put into the FIFO is what the server has written. -/
theorem reach_written {ok : Station → Env → Prop} (hr : Reach (Starts sched) (Step sched) ok s) :
    SetUp s.pi.gpio ∧ s.pi.gpio.toCpc.put = s.mcp.written ∧
      ∃ gpio, PowerUp gpio ∧ Later sched ⟨gpio, 0⟩ s.pi := by
  refine hr.inv (P := fun s => SetUp s.pi.gpio ∧ s.pi.gpio.toCpc.put = s.mcp.written ∧
    ∃ gpio, PowerUp gpio ∧ Later sched ⟨gpio, 0⟩ s.pi) ?_ ?_
  · rintro s ⟨gpio, m, hpower, ⟨_, _, _, _, rfl⟩, rfl⟩
    exact ⟨setupPins_spec sched _, (hpower.start sched).2, gpio, hpower, accesses_later sched _ _⟩
  · rintro s env s' ⟨hpins, hput, gpio, hpower, hlater⟩ - hround
    obtain ⟨sent, hpasses⟩ := round_passes hpins hround
    exact ⟨hpasses.pins, by rw [hpasses.put, hpasses.written, hput], gpio, hpower,
      hlater.trans hpasses.later⟩

/-- **The CPC gets whole packets.**  When no packet is a `RESET`, every answer is written
    whole and none fills the out queue, and the CPC does not reset the FIFOs, what it has
    taken out of its FIFO, followed by what is in it and by what waits in the out queue, are
    packets with the sizes they announce. -/
theorem station_framed (hno : Undisturbed sched 0 s.pi.clock)
    (hr : Reach (Starts sched) (Step sched) (StepMeets PacketWhole TickWhole sched) s) :
    FramedStream (s.pi.gpio.toCpc.got ++ s.pi.gpio.toCpc.held ++ s.mcp.server.outQueue.unread) := by
  have hmodel : Reach Initial Round (RoundMeets PacketWhole TickWhole) s.mcp := by
    induction hr with
    | start h =>
      obtain ⟨_, m, -, hm, rfl⟩ := h
      exact .start hm
    | next hr hok hround ih =>
      have hpins := (reach_written hr).1
      obtain ⟨sent, hpasses⟩ := round_passes hpins hround
      exact .next (ih (hno.mono le_rfl hpasses.later.clock)) hok (round_ok hround)
  obtain ⟨-, hput, gpio, hpower, hlater⟩ := reach_written hr
  rw [(hlater.kept hno).2.passes hpower.toCpc, hput]
  exact stream_kept.reach hmodel

/-- The rounds run through, each of them meets `p` and `t`, and `r` holds after them. -/
def stepsMeet (p t : Env → Server → Bool) (sched : Schedule) (envs : List Env) (s : Station)
    (r : Station → Bool) : Bool :=
  match envs with
  | [] => r s
  | env :: envs => roundMeets p t s.mcp (s.input sched env) &&
    match s.round sched env with
    | .error _ => false
    | .ok s' => stepsMeet p t sched envs s' r

theorem reach_of_stepsMeet {D T : Env → Server → Prop} {p t : Env → Server → Bool}
    (hp : ∀ env s, p env s = true → D env s) (ht : ∀ env s, t env s = true → T env s)
    {envs : List Env} (hr : Reach (Starts sched) (Step sched) (StepMeets D T sched) s)
    {r : Station → Bool} (h : stepsMeet p t sched envs s r = true) :
    ∃ s', Reach (Starts sched) (Step sched) (StepMeets D T sched) s' ∧ r s' = true := by
  induction envs generalizing s with
  | nil => exact ⟨s, hr, h⟩
  | cons env envs ih =>
    unfold stepsMeet at h
    obtain ⟨hd, h⟩ := Bool.and_eq_true_iff.1 h
    split at h
    · cases h
    next s₁ hround => exact ih (.next hr (meets_of_roundMeets hp ht hd) hround) h

/-- An instance: of the answer to the `PING` three bytes have been read, seven are in the
    FIFO, and five wait in the out queue. -/
theorem station_framed_ping : ∃ s : Station,
    (s.pi.gpio.toCpc.got.length = 3 ∧ s.pi.gpio.toCpc.held.length = 7 ∧
      s.mcp.server.outQueue.unread.length = 5) ∧
    FramedStream (s.pi.gpio.toCpc.got ++ s.pi.gpio.toCpc.held ++ s.mcp.server.outQueue.unread) := by
  have hstart : Starts pinging pingedStation :=
    ⟨.reset, startedMcp, ⟨rfl, rfl, fun _ => rfl⟩, startedMcp_initial, rfl⟩
  have hend : stepsMeet (fun env s => decide (PacketWhole env s))
      (fun env s => decide (TickWhole env s)) pinging (List.replicate 31 calmEnv) pingedStation
      (fun s => decide (s.pi.gpio.toCpc.got.length = 3 ∧ s.pi.gpio.toCpc.held.length = 7 ∧
        s.mcp.server.outQueue.unread.length = 5)) = true := by decide +kernel
  obtain ⟨s, hr, hs⟩ := reach_of_stepsMeet (D := PacketWhole) (T := TickWhole)
    (fun _ _ => of_decide_eq_true) (fun _ _ => of_decide_eq_true) (.start hstart) hend
  exact ⟨s, of_decide_eq_true hs, station_framed (pinging_undisturbed _ _) hr⟩

end Station

end CpcLink
