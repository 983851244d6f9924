/-
  How often does `SHELLEXEC` run its shell command?

  The command is run first, and then the space for its result is looked at.
  Where there is none the packet is read again later, and the command is run
  again.  The packets are told apart by their places in the stream of the bytes
  that came in.
-/
import Mathlib.Data.List.ReduceOption
import CpcLink.Proof.Indices
import CpcLink.Proof.Overtake
import CpcLink.Proof.ReadBack

namespace CpcLink

/-! ## The condition -/

/-- There is space for the result of the shell command that is run. -/
def ResultFits (env : Env) (s : Server) : Prop :=
  ∀ c k, request s.inQueue = some (c, k) → functionOf c = .commandShellexec →
    isQueueSpaceAvailable s.outQueue (spaceOf .commandShellexec) = true →
    ResultRead env (atParams s k) →
    isQueueSpaceAvailable s.outQueue ((shellOutput env (atParams s k)).length + 25) = true

instance (env : Env) (s : Server) : Decidable (ResultFits env s) :=
  inferInstanceAs (Decidable (∀ _ _, _ → _ → _ → _ → _))

/-! ## Executions -/

/-- The packet at the head asks for `SHELLEXEC`. -/
def asksShell (q : Queue) : Bool :=
  match request q with
  | some (c, _) => functionOf c = .commandShellexec
  | none => false

/-- How often the dispatch of a round calls `system` for `SHELLEXEC`; the state
    after the dispatch is `m₁`. -/
def shellCalls (input : Input) (m m₁ : Mcp) : ℕ :=
  if asksShell (polled (exchangeBytes input m).server).inQueue then
    m₁.server.world.commands.length - m.server.world.commands.length
  else 0

/-- The place in the stream of the packet that a round finds. -/
def packetPlace (h : History) (input : Input) : ℤ :=
  h.stored + storedBytes input h.mcp -
    numberBytesInQueueToRead (polled (exchangeBytes input h.mcp).server).inQueue

/-- A history, with the places of the `SHELLEXEC` packets that `system` was
    called for, latest first. -/
structure ShellHistory where
  history : History
  executed : List ℤ

def ShellStart (h : ShellHistory) : Prop := HistoryStart h.history ∧ h.executed = []

def ShellRound (h : ShellHistory) (input : Input) (h' : ShellHistory) : Prop :=
  HistoryRound h.history input h'.history ∧
    ∃ m₁, checkPackets input.env (exchangeBytes input h.history.mcp) = .ok m₁ ∧
      h'.executed = List.replicate (shellCalls input h.history.mcp m₁) (packetPlace h.history input) ++
        h.executed

/-- Every command of the round finds its parameters, and a shell command space
    for its result. -/
def Spacious (h : ShellHistory) (input : Input) : Prop :=
  RoundMeets (fun env s => ReadsUnread env s ∧ ResultFits env s) TickReadsUnread h.history.mcp input

section
variable {env : Env} {s s' : Server}

/-! ## One command -/

/-- `SHELLEXEC` calls `system` once at most, and it is to be run again only
    when there is no space for a result. -/
def ShellExits (env : Env) (s : Server) (r : Bool × Server) : Prop :=
  r.2.world.commands.length ≤ s.world.commands.length + 1 ∧
    (r.1 = false → ResultRead env s ∧
      isQueueSpaceAvailable s.outQueue ((shellOutput env s).length + 25) = false)

/-- A run that ends in a message. -/
theorem ShellExits.of_respond {w : World} {inQ : Queue} {text : List BYTE}
    (hw : w.commands.length ≤ s.world.commands.length + 1) :
    ShellExits env s (true, respond { s with inQueue := inQ, world := w } text) :=
  ⟨hw, fun h => by cases h⟩

theorem shellexec_exits {r : Bool × Server} (hr : commandShellexec env s = .ok r) :
    ShellExits env s r := by
  by_cases hread : ResultRead env s
  · obtain ⟨result, v, w, hlen, -, -, hv, hw, hrun⟩ := shellexec_result hread
    have hs : commandShellexec env s = _ := hrun s.outQueue
    rw [hs, hlen] at hr
    split at hr
    next =>
      obtain ⟨q', -, hr⟩ := bind_eq_ok.1 hr
      cases hr
      exact ⟨hw.le, fun h => by cases h⟩
    next hno =>
      cases hr
      exact ⟨hv.le, fun _ => ⟨hread, Bool.eq_false_iff.2 hno⟩⟩
  · rcases shellexec_message hread with ⟨e, hrun⟩ | ⟨l, w, -, hw, hrun⟩
    · have hs : commandShellexec env s = _ := hrun s.outQueue
      rw [hs] at hr
      cases hr
    · have hs : commandShellexec env s = _ := hrun s.outQueue
      rw [hs] at hr
      cases hr
      exact .of_respond hw

/-! ## One dispatch -/

theorem asksShell_iff {q : Queue} : asksShell q = true ↔
    ∃ c k, request q = some (c, k) ∧ functionOf c = .commandShellexec := by
  unfold asksShell
  cases request q with
  | none => simp
  | some r =>
    obtain ⟨c, k⟩ := r
    simp

/-- A dispatch of `SHELLEXEC` that finds space for the result calls `system`
    once at most, and if it does the packet is left behind. -/
theorem shell_dispatch (h : Healthy s) (hp : ∃ ty body rest, AtPacket s.inQueue ty body rest)
    (hask : asksShell s.inQueue = true) (hread : ReadsUnread env s) (hfits : ResultFits env s)
    {o : Outcome} (hd : dispatch env s = .ok (o, s')) :
    s'.world.commands.length - s.world.commands.length ≤ 1 ∧
      (0 < s'.world.commands.length - s.world.commands.length →
        s'.inQueue.count < s.inQueue.count) := by
  obtain ⟨c, k, hr, hc⟩ := asksShell_iff.1 hask
  have same : ∀ {t : Server}, t.world = s.world →
      t.world.commands.length - s.world.commands.length ≤ 1 ∧
        (0 < t.world.commands.length - s.world.commands.length →
          t.inQueue.count < s.inQueue.count) := by
    intro t ht
    rw [ht, Nat.sub_self]
    exact ⟨Nat.zero_le _, fun h => absurd h (lt_irrefl 0)⟩
  cases dispatch_step h.inQueue hp hd with
  | ignored => exact same rfl
  | badText => exact same rfl
  | noSpace => exact same rfl
  | @complete c' k' _ t hr' hR hsp hcall =>
    rw [hr] at hr'
    cases hr'
    obtain ⟨ty, body, rest, hat⟩ := hp
    obtain ⟨hend, -⟩ := hread c k hr (by rw [← hR.space]; exact hsp)
    have hle := request_le h.inQueue hat hr hR.lt
    unfold paramsEnd at hend
    rw [hc] at hcall hend
    have hexits : ShellExits env (atParams s k) (true, t) := shellexec_exits hcall
    have hplain := plain_call (h.atParams k).inQueue (h.atParams k).memstore rfl (by decide) hcall
    have hlen : t.world.commands.length ≤ s.world.commands.length + 1 := hexits.1
    refine ⟨by change t.world.commands.length - _ ≤ 1; omega, fun _ => ?_⟩
    have hq : t.inQueue = incrementReadNextIndex (incrementReadNextIndex s.inQueue k)
        (paramsLength .commandShellexec (incrementReadNextIndex s.inQueue k)) := hplain.inQueue
    have hk := h.inQueue.count_inc (a := k) (by omega)
    have ht := (h.inQueue.inc k).count_inc
      (a := paramsLength .commandShellexec (incrementReadNextIndex s.inQueue k)) (by omega)
    rw [← hq] at ht
    have hskip := skipTerminator_count (q := t.inQueue) (by
      rw [hq]
      exact (h.inQueue.inc _).inc _)
    change (queueSkipTerminatorOfPacket t.inQueue).count < _
    omega
  | retried hr' hR hsp _ hcall =>
    rw [hr] at hr'
    cases hr'
    rw [hc] at hcall
    obtain ⟨hres, hno⟩ := (shellexec_exits hcall).2 rfl
    have hspace := hfits c k hr hc (by rw [← hc, ← hR.space]; exact hsp) hres
    rw [show (atParams s k).outQueue = s.outQueue from rfl, hspace] at hno
    cases hno
  | scheduled hr' _ _ hret =>
    rw [hr] at hr'
    cases hr'
    rw [hc] at hret
    cases hret

end

/-! ## Runs -/

section
variable {input : Input} {h h' : ShellHistory}

theorem exchange_world (input : Input) (m : Mcp) :
    (exchangeBytes input m).server.world = m.server.world := by
  unfold exchangeBytes
  rcases sendByte_cases (receiveByte m input.dor) input.dir with he | ⟨-, he⟩ <;> rw [he] <;>
    rcases receiveByte_cases m input.dor with he' | ⟨_, -, -, he'⟩ <;> rw [he']

/-- What a round calls `system` for is behind the read index after it. -/
theorem shell_round (hm : Healthy h.history.mcp.server) (hok : Spacious h input) {m₁ : Mcp}
    (h₁ : checkPackets input.env (exchangeBytes input h.history.mcp) = .ok m₁) :
    shellCalls input h.history.mcp m₁ ≤ 1 ∧ (0 < shellCalls input h.history.mcp m₁ →
      m₁.server.inQueue.count < (polled (exchangeBytes input h.history.mcp).server).inQueue.count) := by
  have hx := hm.exchange input
  have hworld := exchange_world input h.history.mcp
  unfold shellCalls
  split
  next hask =>
    obtain ⟨hstep, -⟩ := checkPackets_step h₁
    rw [← hworld]
    generalize m₁.server = s₁ at hstep
    cases hstep with
    | idle =>
      rw [Nat.sub_self]
      exact ⟨Nat.zero_le _, fun h => absurd h (lt_irrefl 0)⟩
    | polled =>
      rw [show (polled (exchangeBytes input h.history.mcp).server).world =
        (exchangeBytes input h.history.mcp).server.world from rfl, Nat.sub_self]
      exact ⟨Nat.zero_le _, fun h => absurd h (lt_irrefl 0)⟩
    | dispatched hd hrun =>
      obtain ⟨hread, hfits⟩ := hok.dispatch hd
      exact shell_dispatch hx.polled (hd.atPacket hx) hask hread hfits hrun
  next => exact ⟨Nat.zero_le _, fun h => absurd h (lt_irrefl 0)⟩

theorem Spacious.within (hok : Spacious h input) : Within h.history input :=
  ⟨fun hd => (hok.dispatch hd).1, hok.tick⟩

/-- The invariant: the places are behind the read index, and all different. -/
def Once (h : ShellHistory) : Prop := h.executed.Nodup ∧ ∀ p ∈ h.executed, p < h.history.passed

theorem Once.round (hm : Healthy h.history.mcp.server) (ho : Once h) (hok : Spacious h input)
    (hr : ShellRound h input h') : Once h' := by
  obtain ⟨hround, m₁, h₁, hexec⟩ := hr
  have hno := noOvertake_of_meets hm hok.within
  have hpassed := hno.passed hm hround
  obtain ⟨hmax, hcall⟩ := shell_round hm hok h₁
  have hx := hm.exchange input
  have hnew : h.history.passed ≤ packetPlace h.history input := by
    have hexchange := hno.exchange
    have hpoll := hno.poll
    unfold packetPlace History.passed
    omega
  have hbehind : 0 < shellCalls input h.history.mcp m₁ →
      packetPlace h.history input < h'.history.passed := by
    intro hpos
    have hlt := hcall hpos
    obtain ⟨m₂, h₂, hticks⟩ := hround.1.steps
    rw [h₁] at h₂
    cases h₂
    have htick := hno.tick m₁ _ h₁ hticks
    have hm₁ := hx.packets (checkPackets_step h₁).1
    unfold packetPlace History.passed
    rw [hround.2, hx.polled.inQueue.numberBytes]
    rw [hm₁.inQueue.numberBytes] at htick
    push_cast
    omega
  obtain ⟨hnodup, hall⟩ := ho
  unfold Once
  rw [hexec]
  rcases Nat.eq_zero_or_pos (shellCalls input h.history.mcp m₁) with h0 | hpos
  · rw [h0, List.replicate_zero, List.nil_append]
    exact ⟨hnodup, fun p hp => (hall p hp).trans_le hpassed⟩
  · have h1 : shellCalls input h.history.mcp m₁ = 1 := by omega
    rw [h1, List.replicate_one, List.singleton_append, List.nodup_cons]
    refine ⟨⟨fun hmem => ?_, hnodup⟩, fun p hp => ?_⟩
    · have := hall _ hmem
      omega
    · rcases List.mem_cons.1 hp with rfl | hp
      · exact hbehind hpos
      · exact (hall p hp).trans_le hpassed

/-- **A shell command is run once**: in a run whose commands find their
    parameters, and whose shell commands find space for their results, `system`
    is called at most once for every `SHELLEXEC` packet, and no waiting command
    is a `SHELLEXEC`. -/
theorem shell_once (hr : Reach ShellStart ShellRound Spacious h) : h.executed.Nodup ∧
    ∀ i fn, (h.history.mcp.server.commandStates i).commandFunction = some fn →
      fn ≠ .commandShellexec := by
  have healthy : ∀ {h}, Reach ShellStart ShellRound Spacious h → Healthy h.history.mcp.server := by
    intro h hr
    have hr' : Reach Initial Round (RoundMeets (fun env s => ReadsUnread env s ∧ ResultFits env s)
        TickReadsUnread) h.history.mcp :=
      hr.map (fun h : ShellHistory => h.history.mcp) (fun _ h => h.1.1) (fun _ _ h => h)
        fun _ _ _ h => h.1.1
    exact healthy_reach hr'
  have honce : Once h := by
    refine hr.inv_with (I := fun h => Healthy h.history.mcp.server) (fun _ => healthy) ?_ ?_
    · rintro h ⟨-, hnil⟩
      unfold Once
      rw [hnil]
      exact ⟨List.nodup_nil, fun p hp => by cases hp⟩
    · intro h input h' hm ho hok hround
      exact ho.round hm hok hround
  refine ⟨honce.1, fun i fn hfn he => ?_⟩
  have hstaged := (healthy hr).commandStates i fn hfn
  rw [he] at hstaged
  cases hstaged

end

/-- A run has its places. -/
theorem exists_shellHistory {m : Mcp} (hr : Reach Initial Round
    (RoundMeets (fun env s => ReadsUnread env s ∧ ResultFits env s) TickReadsUnread) m) :
    ∃ h : ShellHistory, h.history.mcp = m ∧ Reach ShellStart ShellRound Spacious h := by
  induction hr with
  | @start m h => exact ⟨⟨⟨m, 0⟩, []⟩, rfl, .start ⟨⟨h, rfl⟩, rfl⟩⟩
  | @next _ m' input _ hok hround ih =>
    obtain ⟨h, rfl, hr⟩ := ih
    obtain ⟨m₁, h₁, -⟩ := Round.steps hround
    exact ⟨⟨⟨m', h.history.stored + storedBytes input h.history.mcp⟩,
      List.replicate (shellCalls input h.history.mcp m₁) (packetPlace h.history input) ++ h.executed⟩,
      rfl, .next hr hok ⟨⟨hround, rfl⟩, m₁, h₁, rfl⟩⟩

/-- The shell leaves this text. -/
def printing (text : List BYTE) : Env :=
  { calmEnv with system := fun _ _ => (0, fun _ => some text) }

/-- `SHELLEXEC x` comes in, and is dispatched with its last byte. -/
def greetRounds : List Input :=
  receiving ((encode textCommand (bytes "SHELLEXEC x\n")).take 20) ++
    [⟨some 45, false, printing (bytes "hi\n")⟩]

/-- An instance: the shell greets, and the answer of 37 bytes waits to be sent. -/
theorem shell_once_greets : ∃ h : ShellHistory,
    runRounds greetRounds startedMcp = .ok h.history.mcp ∧
    numberBytesInQueueToRead h.history.mcp.server.outQueue = 37 ∧ h.executed.Nodup := by
  have hend : runMeets (fun env s => decide (ReadsUnread env s ∧ ResultFits env s))
      (fun env s => decide (TickReadsUnread env s)) greetRounds startedMcp
      (fun m => numberBytesInQueueToRead m.server.outQueue == 37) = true := by decide +kernel
  obtain ⟨m, hrun, hr, hn⟩ := reach_of_runMeets
    (D := fun env s => ReadsUnread env s ∧ ResultFits env s) (T := TickReadsUnread)
    (fun _ _ => of_decide_eq_true) (fun _ _ => of_decide_eq_true) (.start startedMcp_initial) hend
  obtain ⟨h, rfl, hh⟩ := exists_shellHistory hr
  exact ⟨h, hrun, eq_of_beq hn, (shell_once hh).1⟩

/-! ## A shell command that is run twice -/

section
variable {h : ShellHistory} {n : ℕ} {rest : List BYTE}

def ShellHistory.server (h : ShellHistory) : Server := h.history.mcp.server

/-- Some run leads here, no command waits and no transfer is under way, and the
    in queue was looked at `n` rounds ago. -/
structure Calm (h : ShellHistory) (n : ℕ) : Prop where
  reach : Reach ShellStart ShellRound (fun _ _ => True) h
  inQueue : Valid h.server.inQueue
  outQueue : Valid h.server.outQueue
  unlocked : Unlocked h.server
  idle : h.server.commandStates = fun _ => .zero
  counter : h.history.mcp.packetCheckCounter = n

theorem calm_start : ∃ h, Calm h 0 ∧ h.server.inQueue.unread = [] ∧ h.server.outQueue.count = 0 ∧
    h.history.stored = 0 := by
  have hv := valid_initQueue (queueOf [])
  refine ⟨⟨⟨startedMcp, 0⟩, []⟩, ?_, ?_, ?_, rfl⟩
  · exact ⟨.start ⟨⟨startedMcp_initial, rfl⟩, rfl⟩, hv, hv, ⟨rfl, rfl⟩, rfl, rfl⟩
  · exact List.eq_nil_of_length_eq_zero (by rw [length_unread]; exact count_initQueue _)
  · exact count_initQueue _

/-- A byte comes in, or none. -/
theorem exchange_quiet {m : Mcp} (hv : Valid m.server.inQueue) (hu : Unlocked m.server)
    {dor : Option BYTE} (hfit : (m.server.inQueue.count : ℤ) + dor.toList.length < queueSize)
    (env : Env) : ∃ q, exchangeBytes ⟨dor, false, env⟩ m =
        { m with server := { m.server with inQueue := q } } ∧
      Valid q ∧ q.unread = m.server.inQueue.unread ++ dor.toList ∧
      storedBytes ⟨dor, false, env⟩ m = dor.toList.length := by
  have hsend : exchangeBytes ⟨dor, false, env⟩ m = receiveByte m dor := by
    simp only [exchangeBytes, sendByte, Bool.false_eq_true, and_false, if_false]
  cases dor with
  | none => exact ⟨m.server.inQueue, hsend, hv, (List.append_nil _).symm, rfl⟩
  | some b =>
    simp only [Option.toList_some, List.length_singleton, Nat.cast_one] at hfit
    have hfree : numberFreeBytesInQueueToWriteToo m.server.inQueue > 0 := by
      rw [hv.free]
      omega
    refine ⟨storeByte m.server.inQueue b, ?_, hv.store b, hv.unread_store b hfit, ?_⟩
    · rw [hsend]
      simp only [receiveByte, hfree, if_true, hu.1, lt_irrefl, if_false]
    · simp only [storedBytes, hfree, if_true, Option.toList_some, List.length_singleton]

theorem checkTicks_idle (env : Env) {m : Mcp} (h : m.server.commandStates = fun _ => .zero) :
    ∃ t, checkTicks env m = .ok { m with tickCheckCounter := t } := by
  unfold checkTicks
  split
  · rw [tickCommand_idle env h]
    exact ⟨0, rfl⟩
  · exact ⟨_, rfl⟩

/-- A round that does not look at the in queue. -/
theorem Calm.quiet (hc : Calm h n) (hn : n < maxCommandWait) (dor : Option BYTE)
    (hfit : (h.server.inQueue.count : ℤ) + dor.toList.length < queueSize) : ∃ h', Calm h' (n + 1) ∧
      h'.server.inQueue.unread = h.server.inQueue.unread ++ dor.toList ∧
      h'.server.outQueue = h.server.outQueue ∧
      h'.history.stored = h.history.stored + dor.toList.length ∧ h'.executed = h.executed := by
  obtain ⟨q, hx, hq, hunread, hstored⟩ := exchange_quiet hc.inQueue hc.unlocked hfit calmEnv
  set m := h.history.mcp with hm
  have hpackets : checkPackets calmEnv (exchangeBytes ⟨dor, false, calmEnv⟩ m) =
      .ok { m with server := { m.server with inQueue := q }, packetCheckCounter := n + 1 } := by
    rw [hx, checkPackets, if_neg (fun hgo => by
      have : n ≥ maxCommandWait := hc.counter ▸ hgo.1
      omega)]
    rw [← hc.counter]
    rfl
  obtain ⟨t, hticks⟩ := checkTicks_idle calmEnv (m :=
    { m with server := { m.server with inQueue := q }, packetCheckCounter := n + 1 }) hc.idle
  have hcalls : shellCalls ⟨dor, false, calmEnv⟩ m
      { m with server := { m.server with inQueue := q }, packetCheckCounter := n + 1 } = 0 := by
    unfold shellCalls
    split
    · exact Nat.sub_self _
    · rfl
  refine ⟨⟨⟨_, h.history.stored + storedBytes ⟨dor, false, calmEnv⟩ m⟩, h.executed⟩,
    ⟨.next hc.reach (i := ⟨dor, false, calmEnv⟩) trivial
      ⟨⟨bind_eq_ok.2 ⟨_, hpackets, hticks⟩, rfl⟩, _, hpackets, ?_⟩, hq, hc.outQueue, hc.unlocked,
      hc.idle, rfl⟩, hunread, rfl, ?_, rfl⟩
  · rw [← hm, hcalls]
    rfl
  · rw [hstored]

/-- Rounds that do not look at the in queue. -/
theorem Calm.rounds (dors : List (Option BYTE)) (hc : Calm h n)
    (hn : n + dors.length ≤ maxCommandWait)
    (hfit : (h.server.inQueue.count : ℤ) + dors.length < queueSize) : ∃ h', Calm h' (n + dors.length) ∧
      h'.server.inQueue.unread = h.server.inQueue.unread ++ dors.reduceOption ∧
      h'.server.outQueue = h.server.outQueue ∧
      h'.history.stored = h.history.stored + dors.reduceOption.length ∧ h'.executed = h.executed := by
  induction dors generalizing h n with
  | nil => exact ⟨h, hc, (List.append_nil _).symm, rfl, rfl, rfl⟩
  | cons dor dors ih =>
    rw [List.length_cons] at hn hfit
    push_cast at hfit
    have hle : dor.toList.length ≤ 1 := by cases dor <;> simp
    obtain ⟨h₁, hc₁, hu₁, ho₁, hs₁, he₁⟩ := hc.quiet (by omega) dor (by omega)
    have hcount : h₁.server.inQueue.count = h.server.inQueue.count + dor.toList.length := by
      rw [← length_unread, hu₁, List.length_append, length_unread]
    obtain ⟨h₂, hc₂, hu₂, ho₂, hs₂, he₂⟩ := ih hc₁ (by omega) (by omega)
    have hcons : (dor :: dors).reduceOption = dor.toList ++ dors.reduceOption := by
      cases dor with
      | none => rfl
      | some b => exact List.reduceOption_cons_of_some b dors
    refine ⟨h₂, ?_, ?_, ho₂.trans ho₁, ?_, he₂.trans he₁⟩
    · rwa [List.length_cons, Nat.add_comm dors.length, ← Nat.add_assoc]
    · rw [hu₂, hu₁, hcons, List.append_assoc]
    · rw [hs₂, hs₁, hcons, List.length_append, Nat.add_assoc]

/-- `SHELLEXEC`, for the command `x`. -/
def shellPacket : List BYTE := encode binaryCommand [12, 120, 10]

theorem shell_request {q : Queue} (hp : AtPacket q binaryCommand [12, 120, 10] rest) :
    request q = some (12, 7) := request_binary (c := 12) (by decide) hp

theorem shellParams {q : Queue} (h : InRange q) (hp : AtPacket q binaryCommand [12, 120, 10] rest) :
    getAllCommandParamsText (incrementReadNextIndex q (7 : ℕ)) maxShellLineLength =
      (true, [120], incrementReadNextIndex q (9 : ℕ)) := by
  have hx : getCurrentReadByte (incrementReadNextIndex q (7 : ℕ)) = 120 := by
    rw [(h.inc _).current, h.peek_inc]
    exact peek_body hp (k := 1) (by decide)
  have hend : getCurrentReadByte (incrementReadNextIndex q (8 : ℕ)) = 10 := by
    rw [(h.inc _).current, h.peek_inc]
    exact peek_body hp (k := 2) (by decide)
  have hloop : paramLoop isNewline maxShellLineLength (incrementReadNextIndex q (7 : ℕ)) =
      ([120], incrementReadNextIndex q (8 : ℕ)) := by
    rw [show maxShellLineLength = 254 + 1 + 1 from rfl, paramLoop, hx, if_neg (by decide)]
    rw [show incrementReadNextIndex (incrementReadNextIndex q (7 : ℕ)) 1 =
      incrementReadNextIndex q (8 : ℕ) from h.inc_nat 7 1, paramLoop, hend, if_pos (by decide)]
  simp only [getAllCommandParamsText, hloop, hend]
  rw [if_neg (by decide), if_pos (by decide)]
  exact congrArg (fun q => (true, [120], q)) (h.inc_nat 8 1)

/-- The command is run, and its result can be read. -/
theorem shell_prints {s : Server} (h : InRange s.inQueue)
    (hp : AtPacket s.inQueue binaryCommand [12, 120, 10] rest) {text : List BYTE}
    (hlen : text.length ≤ 32767) : ResultRead (printing text) (atParams s 7) ∧
      shellOutput (printing text) (atParams s 7) = text := by
  have hparams : getAllCommandParamsText (atParams s 7).inQueue maxShellLineLength =
      (true, [120], incrementReadNextIndex s.inQueue (9 : ℕ)) := shellParams h hp
  have hbuffer : bufferString maxShellLineLength [120] = .ok [120] := rfl
  have hout : shellOutput (printing text) (atParams s 7) = text := by
    simp only [shellOutput, hparams, hbuffer]
    rfl
  refine ⟨?_, hout⟩
  simp only [ResultRead, hout, hparams]
  refine ⟨trivial, [120], hbuffer, rfl, rfl, rfl, ?_⟩
  rw [show queueSize / 4 = 32767 from rfl]
  omega

theorem shellResultLoop_newlines (n : ℕ) : ∀ q, ∃ q',
    shellResultLoop (List.replicate n 10) [] q = .ok q' := by
  induction n with
  | zero => exact fun q => ⟨q, rfl⟩
  | succ n ih =>
    intro q
    rw [List.replicate_succ, shellResultLoop, if_pos (.inl (by decide)), if_pos (by decide)]
    exact ih _

/-- As many newlines as a result may have. -/
def newlines : List BYTE := List.replicate 32767 10

theorem send_newlines {q : Queue} (h : Valid q) (hf : Fits q 32801) :
    sendShellResult q newlines = .ok (emit q textCommand (resultText newlines)) := by
  have hlen : newlines.length = 32767 := List.length_replicate
  obtain ⟨q₁, hloop⟩ := shellResultLoop_newlines 32767 (addDataToPacket
    (startBuildDataPacket q (newlines.length + resultHeaderText.length + 1) textCommand).2 resultHeaderText)
  have hsend : ∃ q', sendShellResult q newlines = .ok q' :=
    ⟨_, bind_eq_ok.2 ⟨q₁, hloop, rfl⟩⟩
  obtain ⟨q', hq'⟩ := hsend
  rw [hq', sendShellResult_eq h (by rw [hlen]; exact hf) ?_ hq']
  intro h0
  exact absurd (List.eq_of_mem_replicate h0) (by decide)

/-- The result fits, and the packet is done with. -/
theorem dispatch_sent {s : Server} (hin : Valid s.inQueue) (hout : Valid s.outQueue)
    (hp : AtPacket s.inQueue binaryCommand [12, 120, 10] [])
    (hfit : (s.outQueue.count : ℤ) + 32801 < queueSize) : ∃ w : World,
    w.commands.length = s.world.commands.length + 1 ∧
    dispatch (printing newlines) s = .ok (.processed, { s with
      inQueue := behindPacket s.inQueue [12, 120, 10]
      outQueue := emit s.outQueue textCommand (resultText newlines)
      world := w }) := by
  have hlen : newlines.length = 32767 := List.length_replicate
  have fits : ∀ {n : ℤ}, 0 < n → n ≤ 32801 → isQueueSpaceAvailable s.outQueue n = true := by
    intro n h0 hn
    refine (hout.fits h0).2 ?_
    unfold Fits
    omega
  obtain ⟨hread, htext⟩ := shell_prints hin.toInRange hp hlen.le
  obtain ⟨result, v, w, hl, hresult, -, -, hw, hrun⟩ := shellexec_result hread
  obtain rfl : result = newlines := (hresult rfl).trans htext
  have hsend := send_newlines hout ((hout.fits (by decide)).1 (fits (by decide) le_rfl))
  have hcall : callFunction (printing newlines) (atParams s 7) 0 (functionOf 12) = .ok (true, { s with
      inQueue := incrementReadNextIndex s.inQueue (9 : ℕ)
      outQueue := emit s.outQueue textCommand (resultText newlines)
      world := w }) := by
    refine (hrun s.outQueue).trans ?_
    rw [hlen, show ((32767 : ℕ) : ℤ) + 25 = 32792 from rfl, if_pos (fits (by decide) (by decide))]
    refine bind_eq_ok.2 ⟨_, hsend, ?_⟩
    rw [show (atParams s 7).inQueue = incrementReadNextIndex s.inQueue (7 : ℕ) from rfl,
      shellParams hin.toInRange hp]
    rfl
  have hskip : queueSkipTerminatorOfPacket (incrementReadNextIndex s.inQueue (9 : ℕ)) =
      behindPacket s.inQueue [12, 120, 10] := by
    have hend := hp.unread_end hin.toInRange
    rw [show ([12, 120, 10] : List BYTE).length + 6 = 9 from rfl] at hend
    rw [skipTerminator_eq (hin.toInRange.inc _), hend, if_pos (by rfl)]
    exact hin.toInRange.inc_nat 9 3
  refine ⟨w, hw, ?_⟩
  rw [dispatch_processed hin.toInRange ⟨_, _, _, hp⟩ (by decide) (shell_request hp)
    (fits (by decide) (by decide)) hcall, skipEnd]
  dsimp only
  rw [hskip]

/-- There is no space for the result, and the packet is rewound. -/
theorem dispatch_full {s : Server} (hin : Valid s.inQueue) (hout : Valid s.outQueue)
    (hp : AtPacket s.inQueue binaryCommand [12, 120, 10] [])
    (h2048 : (s.outQueue.count : ℤ) + 2048 < queueSize)
    (hno : queueSize < s.outQueue.count + 32792) : ∃ w : World,
    w.commands.length = s.world.commands.length + 1 ∧
    dispatch (printing newlines) s = .ok (.rewound, { s with world := w }) := by
  have hlen : newlines.length = 32767 := List.length_replicate
  obtain ⟨hread, htext⟩ := shell_prints hin.toInRange hp hlen.le
  obtain ⟨result, v, w, hl, hresult, -, hv, -, hrun⟩ := shellexec_result hread
  obtain rfl : result = newlines := (hresult rfl).trans htext
  have hspace : isQueueSpaceAvailable s.outQueue 32792 = false := by
    rw [← Bool.not_eq_true, hout.fits (by decide)]
    intro hf
    have := hf.le
    omega
  have hcall : callFunction (printing newlines) (atParams s 7) 0 (functionOf 12) = .ok (false, { s with
      inQueue := incrementReadNextIndex s.inQueue (9 : ℕ)
      world := v }) := by
    refine (hrun s.outQueue).trans ?_
    rw [hlen, show ((32767 : ℕ) : ℤ) + 25 = 32792 from rfl, hspace, if_neg Bool.false_ne_true,
      show (atParams s 7).inQueue = incrementReadNextIndex s.inQueue (7 : ℕ) from rfl,
      shellParams hin.toInRange hp]
    rfl
  have hsp : isQueueSpaceAvailable s.outQueue 2048 = true := by
    refine (hout.fits (by decide)).2 ?_
    unfold Fits
    omega
  refine ⟨v, hv, ?_⟩
  rw [dispatch_rewound hin.toInRange ⟨_, _, _, hp⟩ (by decide) (shell_request hp) hsp (by decide) hcall]
  rfl

/-- The round in which the packet is dispatched. -/
theorem Calm.dispatched (hc : Calm h maxCommandWait)
    (hp : AtPacket h.server.inQueue binaryCommand [12, 120, 10] []) {env : Env} {o : Outcome}
    {s' : Server} (hd : dispatch env h.server = .ok (o, s')) (hin : Valid s'.inQueue)
    (hout : Valid s'.outQueue) (hunlocked : Unlocked s') (hidle : s'.commandStates = fun _ => .zero)
    (hw : s'.world.commands.length = h.server.world.commands.length + 1) : ∃ h', Calm h' 0 ∧
      h'.server = s' ∧ h'.history.stored = h.history.stored ∧
      h'.executed = (h.history.stored - 12 : ℤ) :: h.executed := by
  have hx : exchangeBytes ⟨none, false, env⟩ h.history.mcp = h.history.mcp := by
    simp only [exchangeBytes, sendByte, receiveByte, Bool.false_eq_true, and_false, if_false]
  have hfound := hp.isComplete hc.inQueue.toInRange
  have hpolled : (polled h.history.mcp.server).inQueue = h.server.inQueue := congrArg Prod.snd hfound
  have hpackets : checkPackets env (exchangeBytes ⟨none, false, env⟩ h.history.mcp) =
      .ok { h.history.mcp with server := s', packetCheckCounter := 0 } := by
    rw [hx, checkPackets, if_pos ⟨hc.counter.ge, hc.unlocked⟩]
    refine bind_eq_ok.2 ⟨s', ?_, rfl⟩
    change pollAndDispatch env h.server = .ok s'
    rw [pollAndDispatch, hfound]
    exact bind_eq_ok.2 ⟨_, hd, rfl⟩
  obtain ⟨t, hticks⟩ := checkTicks_idle env (m :=
    { h.history.mcp with server := s', packetCheckCounter := 0 }) hidle
  have hplace : packetPlace h.history ⟨none, false, env⟩ = h.history.stored - 12 := by
    unfold packetPlace
    rw [hx, hpolled, hc.inQueue.toInRange.numberBytes, hp.count]
    change (h.history.stored : ℤ) + (0 : ℕ) - (12 : ℕ) = _
    push_cast
    omega
  have hcalls : shellCalls ⟨none, false, env⟩ h.history.mcp
      { h.history.mcp with server := s', packetCheckCounter := 0 } = 1 := by
    unfold shellCalls
    rw [hx, hpolled, if_pos (asksShell_iff.2 ⟨12, 7, shell_request hp, rfl⟩)]
    change s'.world.commands.length - h.server.world.commands.length = 1
    omega
  refine ⟨⟨⟨_, h.history.stored + storedBytes ⟨none, false, env⟩ h.history.mcp⟩, _⟩,
    ⟨.next hc.reach (i := ⟨none, false, env⟩) trivial
      ⟨⟨bind_eq_ok.2 ⟨_, hpackets, hticks⟩, rfl⟩, _, hpackets, ?_⟩, hin, hout, hunlocked, hidle, rfl⟩,
    rfl, rfl, rfl⟩
  rw [hcalls, hplace]
  rfl

/-- The packet comes in, and is found by the next round. -/
theorem Calm.feed (hc : Calm h 0) (hu : h.server.inQueue.unread = []) : ∃ h',
    Calm h' maxCommandWait ∧ AtPacket h'.server.inQueue binaryCommand [12, 120, 10] [] ∧
    h'.server.outQueue = h.server.outQueue := by
  have hcount : h.server.inQueue.count = 0 := by rw [← length_unread, hu, List.length_nil]
  obtain ⟨h', hc', hu', hout, -, -⟩ := hc.rounds (shellPacket.map some ++ List.replicate 8 none)
    (by decide) (by rw [hcount]; decide)
  refine ⟨h', hc', ⟨by decide, by decide, ?_⟩, hout⟩
  rw [hu', hu]
  rfl

/-- A result is sent. -/
theorem Calm.sent (hc : Calm h 0) (hu : h.server.inQueue.unread = [])
    (hfit : (h.server.outQueue.count : ℤ) + 32801 < queueSize) : ∃ h', Calm h' 0 ∧
      h'.server.inQueue.unread = [] ∧
      h'.server.outQueue.count = h.server.outQueue.count + 32801 := by
  obtain ⟨h₁, hc₁, hp, hout⟩ := hc.feed hu
  rw [← hout] at hfit ⊢
  obtain ⟨w, hw, hd⟩ := dispatch_sent hc₁.inQueue hc₁.outQueue hp hfit
  have hlen : (resultText newlines).length = 32792 := by
    rw [resultText_length, newlines, List.length_replicate]
  have hsent : Valid (emit h₁.server.outQueue textCommand (resultText newlines)) ∧
      (emit h₁.server.outQueue textCommand (resultText newlines)).unread =
        h₁.server.outQueue.unread ++ encode textCommand (resultText newlines) :=
    hc₁.outQueue.emit _ (by rw [hlen]; push_cast; omega)
  obtain ⟨hvalid, hemit⟩ := hsent
  generalize emit h₁.server.outQueue textCommand (resultText newlines) = q at hd hvalid hemit
  have hbehind : Valid (behindPacket h₁.server.inQueue [12, 120, 10]) :=
    hc₁.inQueue.inc (Int.natCast_nonneg _)
  obtain ⟨h₂, hc₂, hs, -, -⟩ := hc₁.dispatched hp hd hbehind hvalid hc₁.unlocked hc₁.idle hw
  refine ⟨h₂, hc₂, ?_, ?_⟩
  · rw [hs]
    exact hp.unread_behind hc₁.inQueue.toInRange
  · rw [hs]
    change q.count = _
    rw [← length_unread, hemit, List.length_append, length_unread, length_encode, hlen]

/-- The command is run, and its packet is still the next. -/
theorem Calm.rewound (hc : Calm h maxCommandWait)
    (hp : AtPacket h.server.inQueue binaryCommand [12, 120, 10] [])
    (hcount : h.server.outQueue.count = 98403) : ∃ h', Calm h' 0 ∧
      h'.server.inQueue = h.server.inQueue ∧ h'.server.outQueue = h.server.outQueue ∧
      h'.history.stored = h.history.stored ∧
      h'.executed = (h.history.stored - 12 : ℤ) :: h.executed := by
  obtain ⟨w, hw, hd⟩ := dispatch_full hc.inQueue hc.outQueue hp
    (by rw [hcount]; decide) (by rw [hcount]; decide)
  obtain ⟨h', hc', hs, hstored, hexec⟩ := hc.dispatched hp hd hc.inQueue hc.outQueue
    hc.unlocked hc.idle hw
  exact ⟨h', hc', by rw [hs], by rw [hs], hstored, hexec⟩

end

/-- Four `SHELLEXEC` packets come in, and nothing goes out.  Three results of
    32767 bytes leave no space for a fourth one, so the fourth command is run in
    every round that looks at its packet. -/
theorem shell_twice : ∃ h : ShellHistory, Reach ShellStart ShellRound (fun _ _ => True) h ∧
    ¬ h.executed.Nodup := by
  obtain ⟨h₀, hc₀, hu₀, ho₀, -⟩ := calm_start
  obtain ⟨h₁, hc₁, hu₁, ho₁⟩ := hc₀.sent hu₀ (by rw [ho₀]; decide)
  rw [ho₀] at ho₁
  obtain ⟨h₂, hc₂, hu₂, ho₂⟩ := hc₁.sent hu₁ (by rw [ho₁]; decide)
  rw [ho₁] at ho₂
  obtain ⟨h₃, hc₃, hu₃, ho₃⟩ := hc₂.sent hu₂ (by rw [ho₂]; decide)
  rw [ho₂] at ho₃
  obtain ⟨h₄, hc₄, hp, ho₄⟩ := hc₃.feed hu₃
  obtain ⟨h₅, hc₅, hin, hout, hstored, hexec⟩ := hc₄.rewound hp (by rw [ho₄, ho₃])
  -- nothing happens until the packet is looked at again
  obtain ⟨h₆, hc₆, hu₆, ho₆, hs₆, he₆⟩ := hc₅.rounds (List.replicate 20 none) (by decide) (by
    rw [hin, hp.count]
    decide)
  have hp₆ : AtPacket h₆.server.inQueue binaryCommand [12, 120, 10] [] := by
    refine ⟨by decide, by decide, ?_⟩
    rw [hu₆, hin, hp.2.2]
    rfl
  obtain ⟨h₇, hc₇, -, -, -, he₇⟩ := hc₆.rewound hp₆ (by rw [ho₆, hout, ho₄, ho₃])
  refine ⟨h₇, hc₇.reach, fun hnodup => ?_⟩
  rw [he₇, he₆, hexec, hs₆, hstored] at hnodup
  exact (List.nodup_cons.1 hnodup).1 (List.mem_cons_self ..)

end CpcLink
