/-
  Do the indices of the queues stay in the array?

  Every reader moves the read index forward, but one: a text command whose body
  is as long as the longest name minus one steps back over the byte behind it.
  From the end of the array the step back is taken from index 0, and the `%` of
  C leaves -1.
-/
import CpcLink.Proof.Containment
import CpcLink.Proof.Runs

namespace CpcLink

/-- Both indices are in the array, and so is every cell read ahead. -/
structure InArray (q : Queue) : Prop where
  read : 0 ≤ q.readNextByte ∧ q.readNextByte < queueSize
  store : 0 ≤ q.storeNextByte ∧ q.storeNextByte < queueSize
  ahead : ∀ k : ℕ, 0 ≤ (q.readNextByte + k).tmod queueSize ∧
    (q.readNextByte + k).tmod queueSize < queueSize

/-- A text command whose body of 29 bytes ends with the array has a name that
    ends in it. -/
def TextFits (_ : Env) (s : Server) : Prop :=
  ∀ body rest, AtPacket s.inQueue textCommand body rest → StepsBelow s.inQueue body →
    ∃ b ∈ body.drop 1, isSeparator b = true

section
variable {env : Env} {s s' : Server} {q : Queue} {body rest : List BYTE}

theorem Valid.inArray (h : Valid q) : InArray q := by
  refine ⟨⟨h.readNonneg, h.read.lt⟩, ⟨h.storeNonneg, h.storeLt⟩, fun k => ?_⟩
  have h0 := h.readNonneg
  exact ⟨Int.tmod_nonneg _ (by omega), Int.tmod_lt_of_pos _ queueSize_pos⟩

/-! ## The readers -/

theorem Valid.skipTerminator (h : Valid q) : Valid (queueSkipTerminatorOfPacket q) := by
  rw [skipTerminator_eq h.toInRange]
  split
  · exact h.inc (by decide)
  · exact h

theorem Valid.poll (h : Valid q) : Valid (isCompletePacketAvailable q).2 := by
  rw [isComplete_eq h.toInRange]
  split
  · exact h.synced
  · exact h.synced.inc (Int.natCast_nonneg _)
  · exact h.synced

theorem Valid.behind (h : Valid q) (fn : CommandFunction) : Valid (behind fn q) :=
  (h.inc (Int.natCast_nonneg _)).skipTerminator

theorem Valid.atData (h : Valid q) (fn : CommandFunction) : Valid (atData fn q) :=
  (h.behind fn).poll

/-- A text command without a name in a body of 29 bytes has no separator there. -/
theorem getCommandText_fails (h : InRange q) (hp : AtPacket q textCommand body rest)
    (hs : StepsBelow q body) (hfail : (getCommandText q).1 = false) :
    ∀ b ∈ body.drop 1, isSeparator b = false := by
  obtain ⟨h29, hhead, -⟩ := hs
  have hp6 : ∀ k, (incrementReadNextIndex q (6 : ℕ)).peek k = q.peek (6 + k) := h.peek_inc 6
  have hloop : (commandNameLoop body.length 30 0 (incrementReadNextIndex q (6 : ℕ))).1 = false := by
    rw [getCommandText_long h hp (by omega) hhead] at hfail
    dsimp only at hfail
    split at hfail
    · exact hfail
    · exact hfail
  intro b hb
  obtain ⟨k, hk, rfl⟩ := List.getElem_of_mem hb
  rw [List.length_drop] at hk
  -- without an end of the name all the bytes are copied
  have hcopied : k + 1 <
      (commandNameLoop body.length 30 0 (incrementReadNextIndex q (6 : ℕ))).2.1.length := by
    rcases nameLoop_cases body.length 30 0 (h.inc (6 : ℕ)) with ⟨htrue, -⟩ | ⟨-, hfull, -⟩
    · rw [hloop] at htrue
      cases htrue
    · omega
  have hsep := nameLoop_before body.length 30 0 (h.inc (6 : ℕ)) hcopied (by omega)
  rw [hp6, peek_body hp (by omega)] at hsep
  rw [List.getElem_drop]
  simpa only [Nat.add_comm 1 k] using hsep

/-- A text packet that fits is left forwards. -/
theorem getCommandText_valid (h : Valid q) (hp : AtPacket q textCommand body rest)
    (hfit : StepsBelow q body → ∃ b ∈ body.drop 1, isSeparator b = true) :
    Valid (getCommandText q).2.2 := by
  rcases getCommandText_cases h.toInRange hp with ⟨-, -, -, -, -, hq⟩ | ⟨-, -, hq⟩ | ⟨hfail, hs, -⟩
  · rw [hq]
    exact h.inc (Int.natCast_nonneg _)
  · rw [hq]
    exact h.inc (Int.natCast_nonneg _)
  · obtain ⟨b, hb, hsep⟩ := hfit hs
    rw [getCommandText_fails h.toInRange hp hs hfail b hb] at hsep
    cases hsep

/-! ## The commands -/

theorem DataStep.valid {fn : CommandFunction} {r : Bool × Server} (h : Valid s.inQueue)
    (hs : DataStep env fn s r) : Valid r.2.inQueue := by
  cases hs with
  | rejected =>
    have hnext : Valid (incrementReadNextIndex (behind fn s.inQueue) 1) :=
      (h.behind fn).inc (by decide)
    simp only [rejectData]
    rw [skipToNext_eq hnext.toInRange]
    exact hnext.inc (Int.natCast_nonneg _)
  | incomplete => exact h.atData fn
  | short => exact h.atData fn
  | stored _ _ _ _ _ hd =>
    rw [(readData_long (h.atData fn).toInRange hd).2]
    exact (h.atData fn).inc (Int.natCast_nonneg _)

theorem call_valid (h : Healthy s) (hv : Valid s.inQueue) {fn : CommandFunction} {tick : ℤ}
    {r : Bool × Server} (hr : callFunction env s tick fn = .ok r) : Valid r.2.inQueue := by
  by_cases hreset : fn = .commandReset
  · subst hreset
    cases hr
    exact valid_initQueue s.inQueue
  by_cases hd : takesData fn = true
  · exact (data_call h.inQueue hd hr).valid hv
  · rw [(plain_call h.inQueue h.memstore (Bool.eq_false_iff.2 hd) hreset hr).inQueue]
    exact hv.inc (Int.natCast_nonneg _)

/-- **A dispatch leaves the read index in the array**, if the packet fits. -/
theorem dispatch_valid (h : Healthy s) (hv : Valid s.inQueue)
    (hp : ∃ ty body rest, AtPacket s.inQueue ty body rest) (hfit : TextFits env s) {o : Outcome}
    (hd : dispatch env s = .ok (o, s')) : Valid s'.inQueue := by
  have call : ∀ {c : Command} {k : ℕ} {r : Bool × Server},
      callFunction env (atParams s k) 0 (functionOf c) = .ok r → Valid r.2.inQueue :=
    fun hcall => call_valid (h.atParams _) (hv.inc (Int.natCast_nonneg _)) hcall
  cases dispatch_step h.inQueue hp hd with
  | ignored => exact hv
  | noSpace => exact hv
  | badText ht hbad =>
    obtain ⟨ty, body, rest, hp⟩ := hp
    obtain rfl : textCommand = ty := ht.symm.trans hp.packetType
    exact (getCommandText_valid hv hp (hfit body rest hp)).skipTerminator
  | complete _ _ _ hcall => exact (call hcall).skipTerminator
  | retried _ _ _ _ hcall =>
    have hr := call hcall
    exact ⟨⟨hv.read, hr.storeNonneg, hr.storeLt⟩, hv.readNonneg⟩
  | scheduled _ _ _ _ hcall hsched =>
    obtain ⟨_, rfl, -⟩ := schedule_spec hsched
    exact Valid.skipTerminator (call hcall)

/-! ## Runs -/

theorem indices_kept : Kept TextFits (fun _ _ => True) fun s _ => Valid s.inQueue where
  start m h := by
    obtain ⟨inQueue, outQueue, memstore, world, rfl⟩ := h
    exact valid_initQueue inQueue
  receive m dor _ h := by
    rcases receiveByte_cases m dor with he | ⟨b, -, -, he⟩
    · rwa [he]
    · rw [he]
      exact h.store b
  send m dir _ h := by
    rcases sendByte_cases m dir with he | ⟨-, he⟩
    · rwa [he]
    · rw [he]
      exact h
  poll s _ h := h.poll
  dispatch env s _ o s' hs hp hfit hd h := dispatch_valid hs h hp hfit hd
  tick env s _ i fn done s' states hs _ _ _ hcall h := call_valid hs h hcall

/-- **The indices stay in the array** in every run whose text commands fit. -/
theorem indices_in_array {m : Mcp}
    (hr : Reach Initial Round (RoundMeets TextFits fun _ _ => True) m) :
    InArray m.server.inQueue ∧ InArray m.server.outQueue :=
  ⟨(indices_kept.reach hr).inArray, (healthy_reach hr).outQueue.inArray⟩

end

/-! ## A run to the end of the array -/

/-- Zeros are noise: a poll keeps the last two. -/
theorem resync_zeros (k : ℕ) : resync (List.replicate (k + 2) 0) = [0, 0] := by
  induction k with
  | zero => rfl
  | succ k ih =>
    change (if [0, 0, 0] = plusPlusPlus then _ else resync (List.replicate (k + 2) 0)) = _
    rw [if_neg (by decide), ih]

/-- A queue that holds zeros. -/
def zeroQueue (store read : ℤ) : Queue := ⟨fun _ => 0, store, read⟩

/-- Where the polls have left the read index after `n` rounds. -/
def readAfter (n : ℕ) : ℕ := n / 21 * 21 - 2

/-- The loop after `n` rounds in which a zero came in. -/
def afterZeros (n : ℕ) : Mcp where
  server := { startedMcp.server with inQueue := zeroQueue n (readAfter n) }
  packetCheckCounter := n % 21
  tickCheckCounter := n % 101
  written := []

def zeroInput : Input := ⟨some 0, false, calmEnv⟩

section
variable (store read : ℤ)

theorem zeroQueue_valid (hs : 0 ≤ store ∧ store < queueSize) (hr : 0 ≤ read ∧ read < queueSize) :
    Valid (zeroQueue store read) :=
  ⟨⟨⟨by have := queueSize_pos; simp only [zeroQueue]; omega, hr.2⟩, hs.1, hs.2⟩, hr.1⟩

theorem zeroQueue_count (hs : 0 ≤ store ∧ store < queueSize) (hr : 0 ≤ read ∧ read ≤ store) :
    ((zeroQueue store read).count : ℤ) = store - read := by
  have hv := zeroQueue_valid store read hs ⟨hr.1, by omega⟩
  rw [← hv.numberBytes, numberBytesInQueueToRead]
  simp only [zeroQueue]
  rw [Int.tmod_eq_emod_of_nonneg (by omega), show queueSize + store - read = store - read + queueSize
    by omega, Int.add_emod_right, Int.emod_eq_of_lt (by omega) (by omega)]

theorem zeroQueue_store (hs : 0 ≤ store ∧ store + 1 < queueSize) :
    storeByte (zeroQueue store read) 0 = zeroQueue (store + 1) read := by
  have hdata : Function.update (fun _ : ℤ => (0 : BYTE)) store 0 = fun _ => 0 :=
    Function.update_eq_self store fun _ => (0 : BYTE)
  simp only [storeByte, incrementStoreNextIndex, storeToCurrentWriteByte, zeroQueue]
  rw [hdata, Int.tmod_eq_of_lt (by omega) (by omega)]

/-- A poll skips all but two zeros. -/
theorem zeroQueue_poll (hs : 0 ≤ store ∧ store < queueSize) (hr : 0 ≤ read ∧ read + 2 ≤ store) :
    isCompletePacketAvailable (zeroQueue store read) = (false, zeroQueue store (store - 2)) := by
  have hv := zeroQueue_valid store read hs ⟨hr.1, by omega⟩
  have hcount := zeroQueue_count store read hs ⟨hr.1, by omega⟩
  obtain ⟨k, hk⟩ : ∃ k, (zeroQueue store read).count = k + 2 := ⟨_, (Nat.sub_add_cancel (by omega)).symm⟩
  have hu : (zeroQueue store read).unread = List.replicate (k + 2) 0 := by
    rw [Queue.unread, hk]
    exact List.ext_getElem (by simp [CircularBuffer.window]) fun i h1 h2 => by
      simp [CircularBuffer.window, CircularBuffer.cell, zeroQueue]
  have hsync : synced (zeroQueue store read) = zeroQueue store (store - 2) := by
    rw [synced, hu, resync_zeros, hk, incrementReadNextIndex]
    rw [hk] at hcount
    simp only [zeroQueue, List.length_cons, List.length_nil, Queue.mk.injEq, true_and]
    rw [Int.tmod_eq_of_lt (by omega) (by omega)]
    omega
  rw [isComplete_eq hv.toInRange, hu, resync_zeros, hsync]
  rfl

/-! The counters run round on their own, so the state after `n` rounds is known. -/

theorem exchange_zero {n : ℕ} (hn : (n : ℤ) + 1 < queueSize) :
    exchangeBytes zeroInput (afterZeros n) = { afterZeros n with
      server := { (afterZeros n).server with inQueue := zeroQueue (n + 1) (readAfter n) } } := by
  have hread : readAfter n ≤ n := by
    unfold readAfter
    omega
  have hv := zeroQueue_valid n (readAfter n) (by omega) (by omega)
  have hfree : numberFreeBytesInQueueToWriteToo (afterZeros n).server.inQueue > 0 := by
    have hlt := hv.toInRange.count_lt
    change numberFreeBytesInQueueToWriteToo (zeroQueue n (readAfter n)) > 0
    rw [hv.free]
    omega
  have hstore := zeroQueue_store n (readAfter n) (by omega)
  have hreceive : receiveByte (afterZeros n) (some 0) = { afterZeros n with
      server := { (afterZeros n).server with inQueue := zeroQueue (n + 1) (readAfter n) } } := by
    simp only [receiveByte, hfree, if_true]
    rw [← hstore]
    rfl
  change sendByte (receiveByte (afterZeros n) (some 0)) false = _
  rw [hreceive]
  simp only [sendByte, Bool.false_eq_true, and_false, if_false]

/-- Every twentyfirst round polls. -/
theorem checkPackets_zero {n : ℕ} (hn : (n : ℤ) + 1 < queueSize) :
    checkPackets calmEnv { afterZeros n with
      server := { (afterZeros n).server with inQueue := zeroQueue (n + 1) (readAfter n) } } =
    .ok { afterZeros (n + 1) with tickCheckCounter := n % 101 } := by
  have hserver : (afterZeros (n + 1)).server =
      { (afterZeros n).server with inQueue := zeroQueue (n + 1) (readAfter (n + 1)) } := by
    simp only [afterZeros, Nat.cast_add, Nat.cast_one]
  by_cases hpoll : n % 21 = 20
  · have hread : (readAfter (n + 1) : ℤ) = (n + 1 : ℤ) - 2 := by
      unfold readAfter
      omega
    have hq := zeroQueue_poll (n + 1) (readAfter n) (by omega) (by
      unfold readAfter
      omega)
    have hcounter : (afterZeros (n + 1)).packetCheckCounter = 0 := by
      simp only [afterZeros]
      omega
    rw [checkPackets, if_pos ⟨by simp only [afterZeros, maxCommandWait]; omega, rfl, rfl⟩,
      pollAndDispatch]
    dsimp only
    rw [hq, ← hread, if_neg Bool.false_ne_true, ← hserver, ← hcounter]
    rfl
  · have hread : readAfter (n + 1) = readAfter n := by
      unfold readAfter
      omega
    have hcounter : (afterZeros (n + 1)).packetCheckCounter = n % 21 + 1 := by
      simp only [afterZeros]
      omega
    rw [checkPackets, if_neg (fun h => by
      have hge : n % 21 ≥ 20 := h.1
      omega), ← hread, ← hserver, show (afterZeros n).packetCheckCounter = n % 21 from rfl,
      ← hcounter]
    rfl

/-- No command waits. -/
theorem tickCommand_idle (env : Env) {s : Server} (h : s.commandStates = fun _ => .zero) :
    tickCommand env s = .ok s := by
  have hnone : dueCommandState s.commandStates (getCurrentExecTime env.timeOfDay) = none := by
    rw [h, dueCommandState, List.find?_eq_none]
    intro i _
    simp [CommandState.zero]
  rw [tickCommand, hnone]

theorem zero_round {n : ℕ} (hn : (n : ℤ) + 1 < queueSize) :
    mainLoop zeroInput (afterZeros n) = .ok (afterZeros (n + 1)) := by
  change (checkPackets calmEnv (exchangeBytes zeroInput (afterZeros n)) >>= checkTicks calmEnv) = _
  rw [exchange_zero hn, checkPackets_zero hn]
  change checkTicks calmEnv { afterZeros (n + 1) with tickCheckCounter := n % 101 } = _
  by_cases htick : n % 101 = 100
  · have hcounter : (afterZeros (n + 1)).tickCheckCounter = 0 := by
      simp only [afterZeros]
      omega
    rw [checkTicks, if_pos ⟨by simp only [maxTickWait]; omega, rfl, rfl⟩,
      tickCommand_idle calmEnv rfl]
    change Except.ok { afterZeros (n + 1) with tickCheckCounter := 0 } = _
    rw [← hcounter]
  · have hcounter : (afterZeros (n + 1)).tickCheckCounter = n % 101 + 1 := by
      simp only [afterZeros]
      omega
    rw [checkTicks, if_neg (fun h => by
      have hge : n % 101 ≥ 100 := h.1
      omega), ← hcounter]
    rfl

theorem startedMcp_zeros : startedMcp = afterZeros 0 := by
  have hq : initQueue (queueOf []) = zeroQueue 0 0 := by
    simp only [initQueue, zeroQueue, queueOf, Queue.mk.injEq, and_true]
    funext i
    split
    · rfl
    · split
      · rfl
      · rfl
  simp only [afterZeros, readAfter, startedMcp, initialMcp, hq]
  rfl

/-- Zeros are no packet. -/
theorem zero_meets {D : Env → Server → Prop} {n : ℕ} (hn : (n : ℤ) + 1 < queueSize) :
    RoundMeets D (fun _ _ => True) (afterZeros n) zeroInput := by
  refine ⟨fun hd => ?_, fun _ _ _ => trivial⟩
  obtain ⟨hcounter, -, hfound⟩ := hd
  rw [exchange_zero hn] at hcounter hfound
  have h20 : n % 21 ≥ 20 := hcounter
  have hq := zeroQueue_poll (n + 1) (readAfter n) (by omega) (by
    unfold readAfter
    omega)
  dsimp only at hfound
  rw [hq] at hfound
  cases hfound

theorem reach_zeros {D : Env → Server → Prop} {n : ℕ} (hn : (n : ℤ) < queueSize) :
    Reach Initial Round (RoundMeets D fun _ _ => True) (afterZeros n) := by
  induction n with
  | zero => exact .start (startedMcp_zeros ▸ startedMcp_initial)
  | succ n ih => exact .next (ih (by omega)) (zero_meets (by omega)) (zero_round (by omega))

/-- A text command of 29 bytes with a name that ends. -/
def listHome : List BYTE := bytes "SHELLEXEC ls -l /home/cpc664\n"

/-- An instance: noise up to 36 bytes before the end of the array, then a text
    command with 29 bytes and a parameter, whose terminator lies across the end. -/
theorem indices_in_array_shell : ∃ m,
    runRounds (receiving (encode textCommand listHome) ++ idling 10) (afterZeros 131034) = .ok m ∧
    m.server.inQueue.readNextByte = 2 ∧ numberBytesInQueueToRead m.server.outQueue = 46 ∧
    InArray m.server.inQueue ∧ InArray m.server.outQueue := by
  have hend : runMeets (fun _ s => s.inQueue.unread == encode textCommand listHome)
      (fun _ _ => true) (receiving (encode textCommand listHome) ++ idling 10) (afterZeros 131034)
      (fun m => m.server.inQueue.readNextByte == 2 &&
        numberBytesInQueueToRead m.server.outQueue == 46) = true := by decide +kernel
  obtain ⟨m, hrun, hr, hm⟩ := reach_of_runMeets (D := TextFits) (T := fun _ _ => True)
    (fun _ s hs body rest hp _ => by
      have hu : encode textCommand listHome ++ [] = encode textCommand body ++ rest := by
        rw [← hp.2.2, List.append_nil]
        exact (eq_of_beq hs).symm
      obtain ⟨rfl, -⟩ := encode_inj (by decide) hp.2.1 hu
      decide)
    (fun _ _ _ => trivial) (reach_zeros (by decide)) hend
  simp only [Bool.and_eq_true, beq_iff_eq] at hm
  exact ⟨m, hrun, hm.1, hm.2, indices_in_array hr⟩

/-- Noise up to 36 bytes before the end of the array, then a text command with
    29 letters: the read index is -1. -/
theorem index_below : ∃ m, Reach Initial Round (fun _ _ => True) m ∧
    runRounds (receiving (encode textCommand (List.replicate 29 65)) ++ idling 10)
      (afterZeros 131034) = .ok m ∧
    m.server.inQueue.readNextByte = -1 ∧ ¬ InArray m.server.inQueue := by
  have h : endsIn (receiving (encode textCommand (List.replicate 29 65)) ++ idling 10)
      (afterZeros 131034) (fun m => m.server.inQueue.readNextByte == -1) = true := by decide +kernel
  obtain ⟨m, hm, hp⟩ := exists_of_endsIn h
  have hread : m.server.inQueue.readNextByte = -1 := eq_of_beq hp
  have hzeros : Reach Initial Round (fun _ _ => True) (afterZeros 131034) :=
    (reach_zeros (D := fun _ _ => True) (by decide)).mono fun _ _ _ => trivial
  refine ⟨m, reach_runRounds hzeros (fun _ _ => trivial) hm, hm, hread, ?_⟩
  intro hin
  have h0 := hin.read.1
  rw [hread] at h0
  exact absurd h0 (by decide)

end

end CpcLink
