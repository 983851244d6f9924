/-
  Does the reader of the in queue overtake the writer?

  No reader looks at the store index.  The number of unread bytes never grows
  but by a byte that comes in, as long as the parameters of a command are unread
  bytes, and the skip behind a rejected request for data steps over an unread
  byte.
-/
import CpcLink.Proof.Runs

namespace CpcLink

/-! ## The condition -/

/-- The command that is run takes its name and its parameters from the unread
    bytes, and a rejected request for data has another one behind them. -/
def ReadsUnread (env : Env) (s : Server) : Prop :=
  ∀ c k, request s.inQueue = some (c, k) →
    isQueueSpaceAvailable s.outQueue (spaceOf (functionOf c)) = true →
    paramsEnd s.inQueue c k ≤ s.inQueue.count ∧
    (takesData (functionOf c) = true → DataRejected env (functionOf c) (atParams s k) →
      0 < (behind (functionOf c) (atParams s k).inQueue).count)

/-- So does a command that is run when its time has come. -/
def TickReadsUnread (env : Env) (s : Server) : Prop :=
  ∀ i fn, dueCommandState s.commandStates (getCurrentExecTime env.timeOfDay) = some i →
    (s.commandStates i).commandFunction = some fn → paramsLength fn s.inQueue ≤ s.inQueue.count

instance (env : Env) (s : Server) : Decidable (ReadsUnread env s) :=
  inferInstanceAs (Decidable (∀ _ _, _ → _ → _ ∧ (_ → _ → _)))
instance (env : Env) (s : Server) : Decidable (TickReadsUnread env s) := decidableDue

section
variable {q : Queue} {env : Env} {s s' : Server} {fn : CommandFunction}

/-! ## The readers -/

theorem skipTerminator_count (h : InRange q) : (queueSkipTerminatorOfPacket q).count ≤ q.count := by
  rw [skipTerminator_eq h]
  split
  next ht =>
    have hl := congrArg List.length ht
    simp only [List.length_take, length_unread, minusMinusMinus, List.length_cons,
      List.length_nil] at hl
    have := h.count_inc (a := 3) (by omega)
    rw [Nat.cast_ofNat] at this
    omega
  next => exact le_rfl

theorem skipToNext_count (h : InRange q) : (queueSkipToNextPacket q).2.count ≤ q.count := by
  rw [skipToNext_eq h]
  have := h.count_inc (a := q.count - (resync q.unread).length) (by omega)
  simp only [this]; omega

theorem behind_count (h : InRange q) (hn : paramsLength fn q ≤ q.count) :
    (behind fn q).count ≤ q.count := by
  have := skipTerminator_count (h.inc (paramsLength fn q : ℕ))
  have := h.count_inc hn
  unfold behind; omega

theorem atData_count (h : InRange q) (hn : paramsLength fn q ≤ q.count) :
    (atData fn q).count ≤ q.count :=
  (isComplete_inRange (h.behind fn)).2.trans (behind_count h hn)

/-- The read index below the array is where it should be. -/
theorem stepsBelow_count {body : List BYTE} (h : InRange q) (hs : StepsBelow q body)
    (hc : 38 ≤ q.count) : ({ q with readNextByte := -1 } : Queue).count ≤ q.count := by
  have h' : InRange { q with readNextByte := -1 } :=
    ⟨⟨show -queueSize < -1 by decide, show -1 < queueSize by decide⟩, h.storeNonneg, h.storeLt⟩
  have h0 := h.storeNonneg
  have h1 := h.storeLt
  have hr := hs.2.2
  have hn := h.numberBytes
  have hn' := h'.numberBytes
  have hQ : queueSize = 131070 := rfl
  simp only [numberBytesInQueueToRead, hQ] at hn hn' hr h1
  rw [Int.tmod_eq_emod_of_nonneg (by omega)] at hn hn'
  omega

theorem badText_count {ty : PacketType} {body rest : List BYTE} (h : InRange q)
    (hp : AtPacket q ty body rest) (hbad : (getCommandText q).1 = false) :
    (getCommandText q).2.2.count ≤ q.count := by
  have hc := hp.count
  rcases getCommandText_cases h hp with ⟨hgood, -⟩ | ⟨-, -, hq⟩ | ⟨-, hs, hq⟩
  · rw [hgood] at hbad; cases hbad
  · have hle : badTextLength body ≤ body.length + 7 := by
      unfold badTextLength
      split_ifs with h0
      · omega
      · have := List.length_pos_of_ne_nil h0; omega
      · omega
      · omega
    rw [hq, h.count_inc (by omega)]; omega
  · rw [hq]
    have := hs.1
    exact stepsBelow_count h hs (by omega)

/-! ## One call -/

/-- The exits of a request for data. -/
theorem DataStep.count {r : Bool × Server} (h : InRange s.inQueue)
    (hn : paramsLength fn s.inQueue ≤ s.inQueue.count)
    (hrej : DataRejected env fn s → 0 < (behind fn s.inQueue).count) (hs : DataStep env fn s r) :
    r.2.inQueue.count ≤ s.inQueue.count := by
  have hb := behind_count h hn
  have hbr := h.behind fn
  cases hs with
  | rejected _ hr =>
    have h0 := hrej hr
    have h1 := hbr.count_inc (a := 1) (by omega)
    have := skipToNext_count (hbr.inc 1)
    rw [Nat.cast_one] at h1
    simp only [rejectData]; omega
  | incomplete | short => exact atData_count h hn
  | stored _ _ _ _ hfound hd =>
    obtain ⟨hat, ty, body, rest, hp⟩ := isComplete_true hbr hfound
    have hp : AtPacket (atData fn s.inQueue) ty body rest := by rw [atData, hat]; exact hp
    obtain ⟨hle, hq⟩ := readData_long (h.atData fn) hd
    have hc := hp.count
    have := atData_count h hn
    rw [hp.packetSize] at hle
    simp only [frontPacketOverhead] at hle
    simp only [hq]
    rw [(h.atData fn).count_inc (by omega)]; omega

/-- A call takes no more bytes than there are. -/
theorem call_count {tick : ℤ} {r : Bool × Server} (h : Healthy s)
    (hn : paramsLength fn s.inQueue ≤ s.inQueue.count)
    (hrej : takesData fn = true → DataRejected env fn s → 0 < (behind fn s.inQueue).count)
    (hr : callFunction env s tick fn = .ok r) : r.2.inQueue.count ≤ s.inQueue.count := by
  by_cases hreset : fn = .commandReset
  · subst hreset
    cases hr
    rw [(reset_spec s).2.1, count_initQueue]; exact Nat.zero_le _
  by_cases hd : takesData fn = true
  · exact (data_call h.inQueue hd hr).count h.inQueue hn (hrej hd)
  · rw [(plain_call h.inQueue h.memstore (Bool.eq_false_iff.2 hd) hreset hr).inQueue,
      h.inQueue.count_inc hn]; omega

/-- A command that is to be read again stores nothing. -/
theorem retried_store {tick : ℤ} (h : Healthy s) (hret : retried fn = true)
    (hr : callFunction env s tick fn = .ok (false, s')) :
    s'.inQueue.storeNextByte = s.inQueue.storeNextByte := by
  by_cases hd : takesData fn = true
  · cases data_call h.inQueue hd hr
    exact (isComplete_frame (h.inQueue.behind fn)).2.trans (by
      rw [behind, skipTerminator_eq (h.inQueue.inc _)]; split <;> rfl)
  · have hreset : fn ≠ .commandReset := fun he => by subst he; cases hret
    rw [(plain_call h.inQueue h.memstore (Bool.eq_false_iff.2 hd) hreset hr).inQueue]; rfl

/-- **A dispatch adds no unread bytes.** -/
theorem dispatch_count (h : Healthy s) (hp : ∃ ty body rest, AtPacket s.inQueue ty body rest)
    (hread : ReadsUnread env s) {o : Outcome} (hd : dispatch env s = .ok (o, s')) :
    s'.inQueue.count ≤ s.inQueue.count := by
  -- the call of a command, at its parameters
  have call : ∀ {c k space r}, request s.inQueue = some (c, k) → Row c (functionOf c) space →
      isQueueSpaceAvailable s.outQueue space = true →
      callFunction env (atParams s k) 0 (functionOf c) = .ok r →
      Healthy r.2 ∧ r.2.inQueue.count ≤ s.inQueue.count := fun {c k space r} hr hR hsp hcall => by
    obtain ⟨hend, hrej⟩ := hread c k hr (by rw [← hR.space]; exact hsp)
    unfold paramsEnd at hend
    have hk : (atParams s k).inQueue.count = s.inQueue.count - k := h.inQueue.count_inc (by omega)
    have hn : paramsLength (functionOf c) (atParams s k).inQueue ≤ (atParams s k).inQueue.count := by
      rw [hk]; simp only [atParams]; omega
    have := call_count (h.atParams k) hn hrej hcall
    exact ⟨(h.atParams k).call (fun _ => (hR.fits h hsp).2) hcall, by omega⟩
  cases dispatch_step h.inQueue hp hd with
  | ignored | noSpace => exact le_rfl
  | badText _ hbad =>
    obtain ⟨ty, body, rest, hp⟩ := hp
    exact (skipTerminator_count (getCommandText_inRange h.inQueue hp)).trans
      (badText_count h.inQueue hp hbad)
  | complete hr hR hsp hcall =>
    obtain ⟨h', hc⟩ := call hr hR hsp hcall
    exact (skipTerminator_count h'.inQueue).trans hc
  | @retried c k _ s' hr hR hsp hret hcall =>
    have hstore : s'.inQueue.storeNextByte = s.inQueue.storeNextByte :=
      retried_store (s := atParams s k) (h.atParams k) hret hcall
    refine le_of_eq ?_
    simp only [Queue.count, numberBytesInQueueToRead, hstore]
  | scheduled hr hR hsp _ hcall hsched =>
    obtain ⟨h', hc⟩ := call hr hR hsp hcall
    obtain ⟨_, rfl, -⟩ := schedule_spec hsched
    exact (skipTerminator_count h'.inQueue).trans hc

/-- A tick adds no unread bytes. -/
theorem tick_count {m : Mcp} (h : Healthy m.server) (hread : Ticks m → TickReadsUnread env m.server)
    (hs : TickStep env m s') : s'.inQueue.count ≤ m.server.inQueue.count := by
  cases hs with
  | idle => exact le_rfl
  | @run i fn _ s' _ hgo hdue hfn hcall _ =>
    have hkind := (staged_kind (h.commandStates i fn hfn)).2.2
    exact call_count h (hread hgo i fn hdue hfn) (fun hd => by rw [hkind] at hd; cases hd) hcall

end

/-! ## Histories -/

/-- The loop, with the number of bytes stored in the in queue so far. -/
structure History where
  mcp : Mcp
  stored : ℕ

/-- The number of bytes a round stores. -/
def storedBytes (input : Input) (m : Mcp) : ℕ :=
  match input.dor with
  | some _ => if numberFreeBytesInQueueToWriteToo m.server.inQueue > 0 then 1 else 0
  | none => 0

/-- The number of bytes the read index has passed. -/
def History.passed (h : History) : ℤ := h.stored - numberBytesInQueueToRead h.mcp.server.inQueue

def HistoryStart (h : History) : Prop := Initial h.mcp ∧ h.stored = 0

def HistoryRound (h : History) (input : Input) (h' : History) : Prop :=
  Round h.mcp input h'.mcp ∧ h'.stored = h.stored + storedBytes input h.mcp

/-- Every command that is run in the round finds its parameters. -/
def Within (h : History) (input : Input) : Prop :=
  RoundMeets ReadsUnread TickReadsUnread h.mcp input

/-- No step of the round but the byte that comes in adds an unread byte. -/
structure NoOvertake (input : Input) (m : Mcp) : Prop where
  exchange : numberBytesInQueueToRead (exchangeBytes input m).server.inQueue ≤
    numberBytesInQueueToRead m.server.inQueue + storedBytes input m
  poll : numberBytesInQueueToRead (polled (exchangeBytes input m).server).inQueue ≤
    numberBytesInQueueToRead (exchangeBytes input m).server.inQueue
  dispatch : Dispatches (exchangeBytes input m) → ∀ o s',
    dispatch input.env (polled (exchangeBytes input m).server) = .ok (o, s') →
    numberBytesInQueueToRead s'.inQueue ≤
      numberBytesInQueueToRead (polled (exchangeBytes input m).server).inQueue
  tick : ∀ m₁ m₂, checkPackets input.env (exchangeBytes input m) = .ok m₁ →
    checkTicks input.env m₁ = .ok m₂ →
    numberBytesInQueueToRead m₂.server.inQueue ≤ numberBytesInQueueToRead m₁.server.inQueue

section
variable {input : Input} {m m' : Mcp} {h h' : History}

/-- A byte that comes in is added, unless it fills the queue. -/
theorem exchange_count (hm : Healthy m.server) : ((exchangeBytes input m).server.inQueue.count : ℤ) =
    (m.server.inQueue.count + storedBytes input m) % queueSize := by
  have hlt := hm.inQueue.count_lt
  have hsend : (exchangeBytes input m).server.inQueue = (receiveByte m input.dor).server.inQueue := by
    unfold exchangeBytes
    rcases sendByte_cases (receiveByte m input.dor) input.dir with he | ⟨-, he⟩ <;> rw [he]
  have same : ((m.server.inQueue.count : ℕ) : ℤ) = (m.server.inQueue.count + (0 : ℕ)) % queueSize := by
    rw [Nat.cast_zero, Int.add_zero, Int.emod_eq_of_lt (by omega) hlt]
  rw [hsend]
  unfold receiveByte storedBytes
  cases input.dor with
  | none => exact same
  | some b =>
    by_cases hfree : numberFreeBytesInQueueToWriteToo m.server.inQueue > 0
    · simp only [hfree, if_true]
      rw [hm.inQueue.count_store_mod b, Nat.cast_one]
    · simp only [hfree, if_false]
      exact same

/-- **No step of a round overtakes.** -/
theorem noOvertake_of_meets (hm : Healthy m.server)
    (hmeets : RoundMeets ReadsUnread TickReadsUnread m input) : NoOvertake input m := by
  have hx := hm.exchange input
  have hpoll := isComplete_inRange hx.inQueue
  refine ⟨?_, ?_, fun hd o s' hrun => ?_, fun m₁ m₂ h₁ h₂ => ?_⟩
  · have hc : ((exchangeBytes input m).server.inQueue.count : ℤ) =
        (m.server.inQueue.count + storedBytes input m) % queueSize := exchange_count hm
    have hlt := hm.inQueue.count_lt
    have hs : storedBytes input m ≤ 1 := by
      unfold storedBytes; split
      · split <;> omega
      · omega
    rw [hx.inQueue.numberBytes, hm.inQueue.numberBytes, hc, show queueSize = 131070 from rfl]
    omega
  · rw [hx.inQueue.numberBytes, hx.polled.inQueue.numberBytes]
    exact_mod_cast hpoll.2
  · have hatp := hd.atPacket hx
    rw [hx.polled.inQueue.numberBytes, (hx.polled.dispatch hatp hrun).inQueue.numberBytes]
    exact_mod_cast dispatch_count hx.polled hatp (hmeets.dispatch hd) hrun
  · have h1 := hx.packets (checkPackets_step h₁).1
    obtain ⟨hstep, -⟩ := checkTicks_step h₂
    rw [h1.inQueue.numberBytes, (h1.ticks hstep).inQueue.numberBytes]
    exact_mod_cast tick_count h1 (hmeets.tick m₁ h₁) hstep

/-- The passed bytes are at most as many as were stored, and none is passed
    again. -/
theorem NoOvertake.passed (hno : NoOvertake input h.mcp) (hm : Healthy h.mcp.server)
    (hround : HistoryRound h input h') : h.passed ≤ h'.passed := by
  obtain ⟨hr, hstored⟩ := hround
  obtain ⟨m₁, h₁, h₂⟩ := hr.steps
  have hx := hm.exchange input
  have htick := hno.tick m₁ _ h₁ h₂
  have hexchange := hno.exchange
  have hpackets : numberBytesInQueueToRead m₁.server.inQueue ≤
      numberBytesInQueueToRead (exchangeBytes input h.mcp).server.inQueue := by
    obtain ⟨hstep, -⟩ := checkPackets_step h₁
    generalize m₁.server = s₁ at hstep
    cases hstep with
    | idle => exact le_rfl
    | polled => exact hno.poll
    | dispatched hd hrun => exact (hno.dispatch hd _ _ hrun).trans hno.poll
  unfold History.passed
  rw [hstored]
  push_cast
  omega

/-- **The reader never overtakes the writer** in a run in which every command
    finds its parameters. -/
theorem no_overtake (hr : Reach HistoryStart HistoryRound Within h) : 0 ≤ h.passed ∧
    ∀ input, Within h input → NoOvertake input h.mcp ∧
      ∀ h', HistoryRound h input h' → h.passed ≤ h'.passed := by
  have healthy : ∀ {h}, Reach HistoryStart HistoryRound Within h → Healthy h.mcp.server := fun hr =>
    have hr' : Reach Initial Round (RoundMeets ReadsUnread TickReadsUnread) _ :=
      hr.map History.mcp (fun _ h => h.1) (fun _ _ h => h) fun _ _ _ h => h.1
    healthy_reach hr'
  refine ⟨?_, fun input hw => ?_⟩
  · refine hr.inv_with (P := fun h => 0 ≤ h.passed) (I := fun h => Healthy h.mcp.server)
      (fun _ => healthy) (fun h hs => ?_) fun h input h' hm h0 hw hround => ?_
    · obtain ⟨⟨_, _, _, _, he⟩, h0⟩ := hs
      unfold History.passed
      rw [he, h0]
      exact show 0 ≤ ((0 : ℕ) : ℤ) - (queueSize + 0 - 0).tmod queueSize by decide
    · exact h0.trans ((noOvertake_of_meets hm hw).passed hm hround)
  · have hno := noOvertake_of_meets (healthy hr) hw
    exact ⟨hno, fun h' hround => hno.passed (healthy hr) hround⟩

end

/-- A run has a history. -/
theorem exists_history {m : Mcp}
    (hr : Reach Initial Round (RoundMeets ReadsUnread TickReadsUnread) m) :
    ∃ h : History, h.mcp = m ∧ Reach HistoryStart HistoryRound Within h := by
  induction hr with
  | @start m h => exact ⟨⟨m, 0⟩, rfl, .start ⟨h, rfl⟩⟩
  | @next _ m' input _ hok hround ih =>
    obtain ⟨h, rfl, hr⟩ := ih
    exact ⟨⟨m', h.stored + storedBytes input h.mcp⟩, rfl, .next hr hok ⟨hround, rfl⟩⟩

/-- `HELP PING`, a page for an allocation there is not, and a `PING`. -/
def askedRounds : List Input := idling 20 ++
  receiving (encode textCommand (bytes "HELP PING\n") ++ encode binaryCommand [24, 1, 0, 0] ++
    encode binaryData [7] ++ encode textCommand (bytes "PING\n")) ++ idling 7

/-- An instance: the parameter of `HELP` is read and the page is rejected; the
    next round reads the `PING`. -/
theorem no_overtake_asked : ∃ h : History, runRounds askedRounds startedMcp = .ok h.mcp ∧
    numberBytesInQueueToRead h.mcp.server.outQueue = 107 + 14 ∧
    numberBytesInQueueToRead h.mcp.server.inQueue = 15 ∧ 0 ≤ h.passed ∧
    NoOvertake ⟨none, false, calmEnv⟩ h.mcp := by
  have hend : runMeets (fun env s => decide (ReadsUnread env s))
      (fun env s => decide (TickReadsUnread env s)) askedRounds startedMcp (fun m =>
        (numberBytesInQueueToRead m.server.outQueue == 107 + 14 &&
          numberBytesInQueueToRead m.server.inQueue == 15) &&
        roundMeets (fun env s => decide (ReadsUnread env s))
          (fun env s => decide (TickReadsUnread env s)) m ⟨none, false, calmEnv⟩) = true := by
    decide +kernel
  obtain ⟨m, hrun, hr, hm⟩ := reach_of_started (D := ReadsUnread) (T := TickReadsUnread) hend
  simp only [Bool.and_eq_true, beq_iff_eq] at hm
  obtain ⟨⟨hout, hin⟩, hmeets⟩ := hm
  have hnext : RoundMeets ReadsUnread TickReadsUnread m ⟨none, false, calmEnv⟩ :=
    meets_of_roundMeets (fun _ _ => of_decide_eq_true) (fun _ _ => of_decide_eq_true) hmeets
  obtain ⟨h, rfl, hh⟩ := exists_history hr
  exact ⟨h, hrun, hout, hin, (no_overtake hh).1, ((no_overtake hh).2 _ hnext).1⟩

/-- An `XALLOC` without its parameters, up to the round before it is dispatched. -/
def bareCut : List Input := receiving (encode binaryCommand [26]) ++ idling 10

/-- `XALLOC` takes its nine parameters from behind the packet: all but six bytes
    of the ring are unread then. -/
theorem overtake_cut : ∃ m m', runRounds bareCut startedMcp = .ok m ∧
    Reach Initial Round (fun _ _ => True) m ∧ Round m ⟨none, false, calmEnv⟩ m' ∧
    numberBytesInQueueToRead m.server.inQueue = 10 ∧
    numberBytesInQueueToRead m'.server.inQueue = 131064 := by
  have h : endsIn bareCut startedMcp (fun m => numberBytesInQueueToRead m.server.inQueue == 10 &&
      endsIn [⟨none, false, calmEnv⟩] m
        (fun m' => numberBytesInQueueToRead m'.server.inQueue == 131064)) = true := by
    decide +kernel
  obtain ⟨m, hm, hr, h⟩ := reach_of_endsIn h
  simp only [Bool.and_eq_true, beq_iff_eq] at h
  obtain ⟨hn, hend⟩ := h
  obtain ⟨m', hm', hn'⟩ := exists_of_endsIn hend
  obtain ⟨m₁, hround, h₁⟩ := bind_eq_ok.1 hm'
  cases h₁
  exact ⟨m, m', hm, hr, hround, hn, eq_of_beq hn'⟩

end CpcLink
