/-
  The program on the CPC and the server take turns.

  Seen from the program the server is a `Responder`: its inbox are the unread bytes of the
  in queue, its outbox those of the out queue, and it keeps the memory store and the world.
  Every step on the line is an act of the dialogue between the two, or is not seen there, as
  long as no byte is written to a full FIFO.
-/
import CpcLink.Line
import CpcLink.Proof.ShellRuns
import CpcLink.Proof.WholePackets

namespace CpcLink

open Responder

/-- What the server keeps between the requests. -/
structure Core where
  memstore : Memstore
  world : World
  tron : Bool

/-- The server is in order, and no command waits for its next step. -/
structure Orderly (s : Server) : Prop where
  healthy : Healthy s
  inQueue : Valid s.inQueue
  table : s.commandStates = fun _ => .zero

/-- The server, as the program sees it. -/
def piServer : Responder BYTE Mcp Core Env where
  inbox m := m.server.inQueue.unread
  outbox m := m.server.outQueue.unread
  keeps m := ⟨m.server.memstore, m.server.world, m.server.tron⟩
  take m b := receiveByte m (some b)
  give m := sendByte m true
  ready m := m.packetCheckCounter ≥ maxCommandWait ∧ Unlocked m.server
  work m env := (Line.checks env m).toOption

@[simp] theorem piServer_inbox (m : Mcp) : piServer.inbox m = m.server.inQueue.unread := rfl

@[simp] theorem piServer_outbox (m : Mcp) : piServer.outbox m = m.server.outQueue.unread := rfl

@[simp] theorem piServer_keeps (m : Mcp) :
    piServer.keeps m = ⟨m.server.memstore, m.server.world, m.server.tron⟩ := rfl

@[simp] theorem piServer_take (m : Mcp) (b : BYTE) : piServer.take m b = receiveByte m (some b) := rfl

@[simp] theorem piServer_give (m : Mcp) : piServer.give m = sendByte m true := rfl

@[simp] theorem piServer_work (m : Mcp) (env : Env) :
    piServer.work m env = (Line.checks env m).toOption := rfl

/-- The bytes that the in queue has room for; with one more it is empty again. -/
def inboxSize : ℕ := 131069

/-- The server, between two parts of its loop. -/
def InService (m : Mcp) : Prop := Orderly m.server

section
variable {m m' : Mcp} {s : Server} {env : Env} {q : Queue} {u : List BYTE}

/-! ## Bytes in and out -/

/-- A byte is received while there is room. -/
theorem receive_room (h : Valid m.server.inQueue) (hroom : m.server.inQueue.unread.length < inboxSize)
    (b : BYTE) : numberFreeBytesInQueueToWriteToo m.server.inQueue > 0 ∧
      (receiveByte m (some b)).server.inQueue = storeByte m.server.inQueue b ∧
      (storeByte m.server.inQueue b).unread = m.server.inQueue.unread ++ [b] := by
  have hsize : queueSize = 131070 := rfl
  rw [length_unread, inboxSize] at hroom
  have hfree : numberFreeBytesInQueueToWriteToo m.server.inQueue > 0 := by
    rw [h.free]
    omega
  refine ⟨hfree, ?_, h.unread_store b (by omega)⟩
  simp only [receiveByte, hfree, if_true]

/-- The first byte of the out queue is sent. -/
theorem send_first (h : Valid m.server.outQueue) {b : BYTE}
    (hfirst : m.server.outQueue.unread = b :: u) : numberBytesInQueueToRead m.server.outQueue > 0 ∧
      getCurrentReadByte m.server.outQueue = b ∧
      (sendByte m true).server.outQueue = incrementReadNextIndex m.server.outQueue (1 : ℕ) ∧
      (incrementReadNextIndex m.server.outQueue (1 : ℕ)).unread = u := by
  have hcount : m.server.outQueue.count = u.length + 1 := by rw [← length_unread, hfirst]; rfl
  have hgo : numberBytesInQueueToRead m.server.outQueue > 0 := by
    rw [h.numberBytes]
    omega
  refine ⟨hgo, ?_, ?_, ?_⟩
  · rw [h.current, peek_eq_getD (by omega), hfirst]
    rfl
  · simp only [sendByte, hgo, and_self, if_true]
    rfl
  · rw [h.unread_inc (by omega), hfirst]
    rfl

/-! ## Looking for something to do -/

/-- Without a command that waits, all that the checks can do is to look at the in queue. -/
theorem checks_idle (env : Env) (h : m.server.commandStates = fun _ => .zero)
    (hpoll : m.packetCheckCounter ≥ maxCommandWait ∧ Unlocked m.server → ∃ s',
      pollAndDispatch env m.server = .ok s' ∧ s'.commandStates = fun _ => .zero) :
    ∃ m', Line.checks env m = .ok m' ∧ (¬ piServer.ready m ∧ m'.server = m.server ∨
      pollAndDispatch env m.server = .ok m'.server) := by
  have after : ∀ m₁ : Mcp, checkPackets env m = .ok m₁ → m₁.server.commandStates = (fun _ => .zero) →
      ∃ m', Line.checks env m = .ok m' ∧ m'.server = m₁.server := by
    intro m₁ hpackets htable
    obtain ⟨t, hticks⟩ := checkTicks_idle env htable
    exact ⟨_, bind_eq_ok.2 ⟨m₁, hpackets, hticks⟩, rfl⟩
  by_cases hgo : m.packetCheckCounter ≥ maxCommandWait ∧ Unlocked m.server
  · obtain ⟨s', hrun, htable⟩ := hpoll hgo
    have hpackets : checkPackets env m = .ok { m with server := s', packetCheckCounter := 0 } := by
      rw [checkPackets, if_pos hgo, hrun]
      rfl
    obtain ⟨m', hchecks, hserver⟩ := after _ hpackets htable
    refine ⟨m', hchecks, .inr ?_⟩
    rw [hserver]
    exact hrun
  · have hpackets : checkPackets env m =
        .ok { m with packetCheckCounter := m.packetCheckCounter + 1 } := by
      rw [checkPackets, if_neg hgo]
      rfl
    obtain ⟨m', hchecks, hserver⟩ := after _ hpackets h
    exact ⟨m', hchecks, .inl ⟨hgo, hserver⟩⟩

/-- Nothing is done about bytes that are no packet yet. -/
theorem poll_waits (h : InRange s.inQueue) (hnone : frameNext s.inQueue.unread = none) :
    pollAndDispatch env s = .ok s := by
  have hresync := resync_of_none hnone
  have hcomplete : isCompletePacketAvailable s.inQueue = (false, s.inQueue) := by
    rw [isComplete_eq h, hresync, hnone]
    simp only [synced_of_resync h hresync]
  unfold pollAndDispatch
  simp only [hcomplete]
  rfl

/-! ## The laws -/

theorem piServer_lawful (ok : Env → Prop) : piServer.Lawful InService inboxSize ok where
  take m b h hroom := by
    obtain ⟨hfree, hin, hunread⟩ := receive_room h.inQueue hroom b
    refine ⟨⟨h.healthy.receive (some b), ?_, ?_⟩, ?_, ?_, ?_⟩
    · rw [piServer_take, hin]
      exact h.inQueue.store b
    · simp only [piServer_take, receiveByte, hfree, if_true]
      exact h.table
    · rw [piServer_take, piServer_inbox, hin]
      exact hunread
    · simp only [piServer_take, piServer_outbox, receiveByte, hfree, if_true]
    · simp only [piServer_take, piServer_keeps, receiveByte, hfree, if_true]
  give m b rest h hout := by
    obtain ⟨hgo, -, hq, hunread⟩ := send_first h.healthy.outQueue hout
    refine ⟨⟨h.healthy.send true, ?_, ?_⟩, ?_, ?_, ?_⟩
    · simp only [piServer_give, sendByte, hgo, and_self, if_true]
      exact h.inQueue
    · simp only [piServer_give, sendByte, hgo, and_self, if_true]
      exact h.table
    · simp only [piServer_give, piServer_inbox, sendByte, hgo, and_self, if_true]
    · rw [piServer_give, piServer_outbox, hq]
      exact hunread
    · simp only [piServer_give, piServer_keeps, sendByte, hgo, and_self, if_true]
  idle m env h _ hempty := by
    have hpoll : pollAndDispatch env m.server = .ok m.server := by
      refine poll_waits h.healthy.inQueue ?_
      rw [piServer_inbox] at hempty
      rw [hempty]
      rfl
    obtain ⟨m', hchecks, hserver⟩ := checks_idle env h.table fun _ => ⟨_, hpoll, h.table⟩
    have hsame : m'.server = m.server := by
      rcases hserver with ⟨-, he⟩ | he
      · exact he
      · exact (Except.ok.inj (hpoll.symm.trans he)).symm
    refine ⟨m', by rw [piServer_work, hchecks]; rfl, ?_, ?_, ?_, ?_⟩
    · rw [InService, hsame]
      exact h
    all_goals simp [hsame]

end

/-! ## The line -/

namespace Line

variable {ρ : Type}

/-- What is under way to the server: the bytes in the FIFO, and the one that is about to be
    written. -/
def dialogue (s : Line ρ) : Dialogue BYTE ρ Mcp := ⟨s.talk, s.toPi.bytes ++ s.pending, s.toCpc.bytes, s.mcp⟩

/-- A program and an idle server, before the program begins. -/
structure Begins (talk : Talk BYTE ρ) (c : Core) (s : Line ρ) : Prop where
  start : ∃ m, s = start talk m
  server : piServer.At InService c [] s.mcp

def Step (s : Line ρ) (e : LineEvent) (s' : Line ρ) : Prop := s.step e = .ok s'

/-- No byte is written to a full FIFO, and the world does as is expected of it. -/
def Lossless (ok : Env → Prop) (s : Line ρ) (e : LineEvent) : Prop :=
  ¬ FindsFull s e ∧ ∀ env, e = .serve env → ok env

/-- No byte is under way. -/
structure Quiet (s : Line ρ) : Prop where
  toPi : s.toPi.bytes = []
  pending : s.pending = []
  toCpc : s.toCpc.bytes = []
  outQueue : s.mcp.server.outQueue.unread = []

/-- The server is about to look for a packet. -/
structure AboutToLook (s : Line ρ) : Prop where
  part : s.part = .check
  counter : s.mcp.packetCheckCounter ≥ maxCommandWait
  unlocked : Unlocked s.mcp.server

/-- A byte that is about to be written finds room, and the server is healthy. -/
structure Fit (s : Line ρ) : Prop where
  room : s.pending = [] ∨ ∃ b, s.pending = [b] ∧ s.toPi.dir = true
  healthy : Healthy s.mcp.server

/-- What a step on the line is in the dialogue: an act, or nothing. -/
def Seen (ok : Env → Prop) (s s' : Line ρ) : Prop :=
  s'.dialogue = s.dialogue ∨ ∃ act, (∀ env, act = .work env → ok env) ∧
    piServer.Act s.dialogue act s'.dialogue

section
variable {s s' : Line ρ} {e : LineEvent} {ok : Env → Prop} {talk : Talk BYTE ρ} {c : Core}
  {post : ρ → Core → Prop}

theorem look_seen (h : Fit s) (hfull : ¬ FindsFull s .look) : Fit s.look ∧ Seen ok s s.look := by
  obtain ⟨talk, pending, toPi, toCpc, m, part⟩ := s
  cases pending with
  | cons => exact ⟨h, .inl rfl⟩
  | nil =>
    cases talk with
    | hear | done => exact ⟨h, .inl rfl⟩
    | say b next =>
      have hdir : toPi.dir = true := by
        by_contra hdir
        exact hfull ⟨rfl, ⟨b, next, rfl⟩, Bool.eq_false_iff.2 hdir⟩
      have hlook : look ⟨.say b next, [], toPi, toCpc, m, part⟩ = ⟨next, [b], toPi, toCpc, m, part⟩ := by
        simp [look, fifoOutByte, hdir]
      rw [hlook]
      refine ⟨⟨.inr ⟨b, rfl, hdir⟩, h.healthy⟩, .inr ⟨.say, by rintro _ ⟨⟩, ?_⟩⟩
      simp only [dialogue, List.append_nil]
      exact .say

theorem write_seen (h : Fit s) : Fit s.write ∧ Seen ok s s.write := by
  obtain ⟨talk, pending, toPi, toCpc, m, part⟩ := s
  obtain ⟨rfl | ⟨b, rfl, hdir⟩, hhealthy⟩ := h
  · exact ⟨⟨.inl rfl, hhealthy⟩, .inl rfl⟩
  · refine ⟨⟨.inl rfl, hhealthy⟩, .inl ?_⟩
    simp only [dialogue, write, Fifo.bytes_write hdir, List.append_nil]

theorem read_seen (h : Fit s) : Fit s.read ∧ Seen ok s s.read := by
  obtain ⟨talk, pending, toPi, ⟨bytes, hfits⟩, m, part⟩ := s
  cases pending with
  | cons => exact ⟨h, .inl rfl⟩
  | nil =>
    cases talk with
    | say | done => exact ⟨h, .inl rfl⟩
    | hear next =>
      cases bytes with
      | nil => exact ⟨h, .inl rfl⟩
      | cons b bytes => exact ⟨⟨h.room, h.healthy⟩, .inr ⟨.hear, by rintro _ ⟨⟩, .hear⟩⟩

theorem receive_seen (h : Fit s) : Fit s.receive ∧ Seen ok s s.receive := by
  obtain ⟨talk, pending, toPi, toCpc, m, part⟩ := s
  cases hbytes : toPi.bytes with
  | nil =>
    have hnone : receive ⟨talk, pending, toPi, toCpc, m, part⟩ = ⟨talk, pending, toPi, toCpc, m, part⟩ := by
      simp only [receive, hbytes]
    rw [hnone]
    exact ⟨h, .inl rfl⟩
  | cons b bytes =>
    by_cases hfree : numberFreeBytesInQueueToWriteToo m.server.inQueue > 0
    swap
    · have hnone : receive ⟨talk, pending, toPi, toCpc, m, part⟩ =
          ⟨talk, pending, toPi, toCpc, m, part⟩ := by
        simp only [receive, hbytes, hfree, if_false]
      rw [hnone]
      exact ⟨h, .inl rfl⟩
    have htake : receive ⟨talk, pending, toPi, toCpc, m, part⟩ =
        ⟨talk, pending, toPi.rest, toCpc, receiveByte m (some b), part⟩ := by
      simp only [receive, hbytes, hfree, if_true]
    rw [htake]
    refine ⟨⟨?_, h.healthy.receive _⟩, .inr ⟨.take, by rintro _ ⟨⟩, ?_⟩⟩
    · rcases h.room with hnone | ⟨b', hb', hdir⟩
      · exact .inl hnone
      · exact .inr ⟨b', hb', Fifo.dir_rest hdir⟩
    · simp only [dialogue, hbytes, Fifo.bytes_rest hbytes, List.cons_append]
      exact .take

theorem send_seen (h : Fit s) : Fit s.send ∧ Seen ok s s.send := by
  unfold send
  split
  next hgo =>
    obtain ⟨hpos, hdir⟩ := hgo
    refine ⟨⟨h.room, h.healthy.send true⟩, .inr ⟨.give, by rintro _ ⟨⟩, ?_⟩⟩
    cases hout : s.mcp.server.outQueue.unread with
    | nil =>
      rw [h.healthy.outQueue.numberBytes, unread_eq_nil.1 hout] at hpos
      exact absurd hpos (lt_irrefl _)
    | cons b rest =>
      obtain ⟨-, hfirst, -, -⟩ := send_first h.healthy.outQueue hout
      simp only [dialogue, hfirst, Fifo.bytes_write hdir]
      exact .give hout
  next => exact ⟨h, .inl rfl⟩

theorem checks_healthy {m m' : Mcp} {env : Env} (h : Healthy m.server)
    (hrun : checks env m = .ok m') : Healthy m'.server := by
  obtain ⟨m₁, hpackets, hticks⟩ := bind_eq_ok.1 hrun
  exact (h.packets (checkPackets_step hpackets).1).ticks (checkTicks_step hticks).1

theorem checks_of_work {m m' : Mcp} {env : Env} (h : piServer.work m env = some m') :
    checks env m = .ok m' := by
  rw [piServer_work] at h
  cases hrun : checks env m with
  | error e =>
    rw [hrun] at h
    cases h
  | ok m₁ =>
    rw [hrun] at h
    exact congrArg Except.ok (Option.some.inj h)

/-- **Every step on the line is an act, or is not seen.** -/
theorem step_seen (h : Fit s) (hok : Lossless ok s e) (hstep : Step s e s') : Fit s' ∧ Seen ok s s' := by
  obtain ⟨hfull, henv⟩ := hok
  cases e with
  | look =>
    cases hstep
    exact look_seen h hfull
  | write =>
    cases hstep
    exact write_seen h
  | read =>
    cases hstep
    exact read_seen h
  | serve env =>
    have hserve : s.serve env = .ok s' := hstep
    cases hpart : s.part with
    | receive =>
      rw [serve, hpart] at hserve
      cases hserve
      obtain ⟨hfit, hseen⟩ : Fit s.receive ∧ Seen ok s s.receive := receive_seen h
      exact ⟨⟨hfit.room, hfit.healthy⟩, hseen⟩
    | send =>
      rw [serve, hpart] at hserve
      cases hserve
      obtain ⟨hfit, hseen⟩ : Fit s.send ∧ Seen ok s s.send := send_seen h
      exact ⟨⟨hfit.room, hfit.healthy⟩, hseen⟩
    | check =>
      rw [serve, hpart] at hserve
      obtain ⟨m', hrun, hs⟩ := bind_eq_ok.1 hserve
      cases hs
      refine ⟨⟨h.room, checks_healthy h.healthy hrun⟩, .inr ⟨.work env, ?_, .work ?_⟩⟩
      · rintro _ ⟨⟩
        exact henv env rfl
      · rw [piServer_work, hrun]
        rfl

theorem Begins.fit (h : Begins talk c s) : Fit s := by
  obtain ⟨⟨m, rfl⟩, hat⟩ := h
  exact ⟨.inl rfl, hat.sound.healthy⟩

theorem Begins.dialogue (h : Begins talk c s) : piServer.Begins InService talk c s.dialogue := by
  obtain ⟨⟨m, rfl⟩, hat⟩ := h
  exact ⟨rfl, rfl, rfl, hat⟩

theorem reach_fit (hr : Reach (Begins talk c) Step (Lossless ok) s) : Fit s :=
  hr.inv (P := Fit) (fun _ h => Begins.fit h) fun _ _ _ h hok hstep => (step_seen h hok hstep).1

/-- A run on the line is a dialogue. -/
theorem reach_dialogue (hr : Reach (Begins talk c) Step (Lossless ok) s) :
    Reach (piServer.Begins InService talk c) piServer.Act (fun _ act => ∀ env, act = .work env → ok env)
      s.dialogue := by
  refine hr.stutter (I := Fit) dialogue (fun _ hr => reach_fit hr) (fun _ h => h.dialogue) ?_
  intro s e s' h hok hstep
  exact (step_seen h hok hstep).2

/-- **Turns on the line.**  A program that takes its turn when it is alone with the server
    does so on the line, whatever the order of the steps: the server never breaks down, it
    answers a program that waits as soon as it looks for a packet, and when the program is done
    its result is as it would be alone, and it has had its answers one after the other. -/
theorem line_takes_turns (hturn : piServer.InTurn InService inboxSize ok post talk c)
    (hr : Reach (Begins talk c) Step (Lossless ok) s) {env : Env} (henv : ok env) :
    (∃ s', s.serve env = .ok s') ∧
      (∀ next, s.talk = .hear next → Quiet s → AboutToLook s →
        ∃ s', s.serve env = .ok s' ∧ s'.mcp.server.outQueue.unread ≠ []) ∧
      ∀ v, s.talk = .done v → Quiet s ∧
        ∃ c', post v c' ∧ piServer.Exchanges InService ok talk c (.done v) c' ∧
          piServer.At InService c' [] s.mcp := by
  have hturns : piServer.Turns InService inboxSize ok post talk c s.dialogue :=
    refines (piServer_lawful ok) hturn (reach_dialogue hr)
  refine ⟨?_, fun next hnext hquiet hlook => ?_, fun v hdone => ?_⟩
  · unfold serve
    cases s.part with
    | receive | send => exact ⟨_, rfl⟩
    | check =>
      obtain ⟨m', hwork, -⟩ := hturns.work (piServer_lawful ok) henv
      rw [checks_of_work hwork]
      exact ⟨_, rfl⟩
  · have hdialogue : s.dialogue = ⟨.hear next, [], [], s.mcp⟩ := by
      rw [dialogue, hnext, hquiet.toPi, hquiet.pending, hquiet.toCpc]
      rfl
    rw [hdialogue] at hturns
    obtain ⟨m', hwork, hanswer⟩ :=
      hturns.not_stuck henv hquiet.outQueue ⟨hlook.counter, hlook.unlocked⟩
    have hrun := checks_of_work hwork
    refine ⟨{ s with mcp := m', part := .receive }, ?_, hanswer⟩
    rw [serve, hlook.part, hrun]
    rfl
  · obtain ⟨talk', pending, toPi, toCpc, m, part⟩ := s
    cases hdone
    obtain ⟨hto, hfrom, c', hpost, hex, hat⟩ := hturns.finished
    obtain ⟨hpi, hpending⟩ := List.append_eq_nil_iff.1 hto
    exact ⟨⟨hpi, hpending, hfrom, hat.outbox⟩, c', hpost, hex, hat⟩

end

end Line

end CpcLink
