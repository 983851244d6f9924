/-
  Does a later step of a command read input?

  The request of the command was taken off the in queue long before.  `HELP`
  waits when the help it was asked for is one that is still to be written; its
  next step then looks for a parameter again, in whatever is in front of the
  read index by then.
-/
import CpcLink.Proof.Table

namespace CpcLink

/-- `HELP` is due, no newline is behind the read index and no space in front of it. -/
def TakesInput (env : Env) (s : Server) : Prop :=
  ∃ i, dueCommandState s.commandStates (getCurrentExecTime env.timeOfDay) = some i ∧
    (s.commandStates i).commandFunction = some .commandHelp ∧
    isNewline (getPreviousReadByte s.inQueue) = false ∧
    isSpace (getCurrentReadByte s.inQueue) = false

/-! ## How far a parameter is read, from any index -/

/-- The queue some single steps further. -/
def stepped (q : Queue) (k : ℕ) : Queue := (fun q => incrementReadNextIndex q 1)^[k] q

section
variable {q : Queue}

theorem stepped_succ (q : Queue) (k : ℕ) :
    stepped q (k + 1) = incrementReadNextIndex (stepped q k) 1 := Function.iterate_succ_apply' ..

/-- Less than a round of steps does not come back. -/
theorem stepped_ne {k : ℕ} (h0 : 0 < k) (hk : (k : ℤ) < queueSize) : stepped q k ≠ q := by
  have hread : ∀ k, CircularBuffer.Index queueSize q.readNextByte →
      (stepped q k).readNextByte = CircularBuffer.move queueSize q.readNextByte k := by
    intro k hi
    induction k with
    | zero => exact (CircularBuffer.move_zero hi).symm
    | succ k ih =>
      rw [stepped_succ]
      change CircularBuffer.move queueSize (stepped q k).readNextByte 1 = _
      rw [ih, CircularBuffer.move_move hi (by omega) (by decide)]
      push_cast; rfl
  intro he
  have hr := congrArg Queue.readNextByte he
  obtain ⟨n, rfl⟩ : ∃ n, k = n + 1 := ⟨k - 1, by omega⟩
  by_cases hi : CircularBuffer.Index queueSize q.readNextByte
  · rw [hread _ hi, CircularBuffer.move_eq_self hi (by omega) (by omega)] at hr
    omega
  -- a step leaves an index of the array, or one below it
  · have hstep : (stepped q (n + 1)).readNextByte =
        ((stepped q n).readNextByte + 1).tmod queueSize := by rw [stepped_succ]; rfl
    rw [he] at hstep
    refine hi ⟨?_, ?_⟩
    · rw [hstep]; exact Int.lt_tmod_of_pos _ queueSize_pos
    · rw [hstep]; exact Int.tmod_lt_of_pos _ queueSize_pos

theorem paramLoop_stepped (ends : BYTE → Bool) (n : ℕ) (q : Queue) :
    (paramLoop ends n q).2 = stepped q (paramLoop ends n q).1.length := by
  induction n generalizing q with
  | zero => rfl
  | succ n ih =>
    rw [paramLoop]
    split
    · rfl
    · exact ih (incrementReadNextIndex q 1)

/-- The loop stops at once at a byte that ends the parameter. -/
theorem paramLoop_stops (ends : BYTE → Bool) (n : ℕ) (q : Queue) :
    (paramLoop ends (n + 1) q).1.length = 0 ↔ ends (getCurrentReadByte q) = true := by
  rw [paramLoop]
  split
  next he => simp [he]
  next he => simp [he]

/-- Only in front of a space is nothing read. -/
theorem nextParam_stepped (n : ℕ) (q : Queue) : ∃ k ≤ n + 2,
    (getCommandNextParamText q (n + 1) true).2.2 = stepped q k ∧
      (k = 0 ↔ isSpace (getCurrentReadByte q) = true) := by
  have hq := paramLoop_stepped isSeparator (n + 1) q
  have hn := paramLoop_length isSeparator (n + 1) q
  have hstop := paramLoop_stops isSeparator n q
  unfold isSeparator at hq hn hstop
  simp only [getCommandNextParamText]
  generalize paramLoop (fun b => isSpace b || isNewline b) (n + 1) q = r at hq hn hstop
  obtain ⟨text, q'⟩ := r
  dsimp only at hq hn hstop ⊢
  -- the loop took a byte, so it did not start at a separator
  have moved : text.length ≠ 0 → ¬ isSpace (getCurrentReadByte q) = true := by
    intro h0 hs
    exact h0 (hstop.2 (by simp [hs]))
  split_ifs with hfull hspace hline
  · exact ⟨text.length, by omega, hq, by simp [hfull.1, moved]⟩
  · exact absurd hspace.2 (by decide)
  · refine ⟨text.length + 1, by omega, by rw [stepped_succ, hq], ?_⟩
    refine iff_of_false (by omega) fun hs => ?_
    have hq0 : q' = q := by rw [hq, hstop.2 (by simp [hs])]; rfl
    rw [hq0] at hline
    have h10 : getCurrentReadByte q = 10 := by simpa [isNewline] using hline.1
    rw [h10] at hs
    exact absurd hs (by decide)
  · refine ⟨text.length, by omega, hq, fun h0 => ?_, fun hs => hstop.2 (by simp [hs])⟩
    have hq0 : q' = q := by rw [hq, h0]; rfl
    rw [hq0] at hline
    have hnl : isNewline (getCurrentReadByte q) = false := by simpa using hline
    simpa [hnl] using hstop.1 h0

end

/-! ## A tick -/

section
variable {env : Env} {s s' : Server}

theorem commandHelp_inQueue (s : Server) : (commandHelp s).2.inQueue =
    if isNewline (getPreviousReadByte s.inQueue) then s.inQueue
    else (getCommandNextParamText s.inQueue maxCommandNameLength true).2.2 := by
  unfold commandHelp
  dsimp only
  split_ifs <;> rfl

/-- `HELP` reads unless it finds a newline behind or a space in front of the index. -/
theorem commandHelp_keeps (s : Server) : (commandHelp s).2.inQueue = s.inQueue ↔
    isNewline (getPreviousReadByte s.inQueue) = true ∨
      isSpace (getCurrentReadByte s.inQueue) = true := by
  rw [commandHelp_inQueue]
  split
  next hnl => exact iff_of_true rfl (.inl hnl)
  next hnl =>
    obtain ⟨k, hk, hq, h0⟩ := nextParam_stepped 29 s.inQueue
    rw [maxCommandNameLength, hq, or_iff_right hnl, ← h0]
    constructor
    · intro he
      by_contra hne
      refine stepped_ne (Nat.pos_of_ne_zero hne) ?_ he
      rw [show queueSize = 131070 from rfl]; omega
    · rintro rfl
      rfl

/-- **When a tick leaves the in queue alone**: for the table of any state
    reached, and any queues and clock. -/
theorem tick_keeps_inQueue_iff {m : Mcp} (hr : Reach Initial Round (fun _ _ => True) m) (env : Env)
    (s : Server) (hs : s.commandStates = m.server.commandStates) :
    ∃ s', tickCommand env s = .ok s' ∧ (s'.inQueue = s.inQueue ↔ ¬ TakesInput env s) := by
  have htable : TableFits s.commandStates := hs ▸ table_reach hr
  obtain ⟨s', htick, hrun⟩ := tickCommand_run env htable
  refine ⟨s', htick, ?_⟩
  cases hrun with
  | idle hdue =>
    refine iff_of_true rfl ?_
    rintro ⟨i, hi, -⟩
    cases hdue.symm.trans hi
  | @run i fn done s₁ time hdue hfn hcall =>
    have htakes : TakesInput env s ↔ fn = .commandHelp ∧
        isNewline (getPreviousReadByte s.inQueue) = false ∧
        isSpace (getCurrentReadByte s.inQueue) = false := by
      constructor
      · rintro ⟨j, hj, hfn', hbytes⟩
        cases hdue.symm.trans hj
        cases hfn.symm.trans hfn'
        exact ⟨rfl, hbytes⟩
      · rintro ⟨rfl, hbytes⟩
        exact ⟨i, hdue, hfn, hbytes⟩
    change s₁.inQueue = s.inQueue ↔ _
    rw [htakes]
    by_cases hhelp : fn = .commandHelp
    · subst hhelp
      have hrun : commandHelp s = (done, s₁) := Except.ok.inj hcall
      have hkeep := commandHelp_keeps s
      rw [hrun] at hkeep
      rw [hkeep]
      simp [← Bool.not_eq_true, imp_iff_not_or]
    · obtain ⟨r, hcall', -, hkeep⟩ :=
        staged_runs ((htable i).function hfn).2.1 env s (s.commandStates i).nextTickCount
      cases hcall.symm.trans hcall'
      exact iff_of_true (hkeep hhelp) fun h => hhelp h.1

end

/-! ## A run -/

/-- `HELP PUTFILE`, a pause, and the first bytes of another packet. -/
def helpThenPacket : List Input :=
  receiving (encode textCommand (bytes "HELP PUTFILE\n")) ++ idling 74 ++ receiving [43, 43, 43, 8]

/-- One second later. -/
def laterEnv : Env := { calmEnv with timeOfDay := ⟨1, 0⟩ }

/-- The tick of the next round takes thirty bytes where four wait. -/
theorem tick_takes_input : ∃ m s', runRounds helpThenPacket startedMcp = .ok m ∧
    Reach Initial Round (fun _ _ => True) m ∧ Ticks m ∧
    numberBytesInQueueToRead m.server.inQueue = 4 ∧
    tickCommand laterEnv m.server = .ok s' ∧ numberBytesInQueueToRead s'.inQueue = 131044 ∧
    s'.inQueue ≠ m.server.inQueue := by
  have h : endsIn helpThenPacket startedMcp (fun m =>
      decide (m.tickCheckCounter ≥ maxTickWait ∧ Unlocked m.server) &&
      numberBytesInQueueToRead m.server.inQueue == 4 &&
      match tickCommand laterEnv m.server with
      | .ok s' => numberBytesInQueueToRead s'.inQueue == 131044
      | .error _ => false) = true := by decide +kernel
  obtain ⟨m, hm, hr, hp⟩ := reach_of_endsIn h
  simp only [Bool.and_eq_true, decide_eq_true_eq, beq_iff_eq] at hp
  obtain ⟨⟨hticks, hwaiting⟩, htick⟩ := hp
  split at htick
  next s' hs' =>
    have hafter : numberBytesInQueueToRead s'.inQueue = 131044 := by simpa using htick
    refine ⟨m, s', hm, hr, hticks, hwaiting, hs', hafter, fun he => ?_⟩
    rw [he, hwaiting] at hafter
    exact absurd hafter (by decide)
  next => cases htick

/-- An instance: the same command is due, in front of a space. -/
theorem tick_keeps_inQueue_space : ∃ m s', runRounds helpThenPacket startedMcp = .ok m ∧
    tickCommand laterEnv { m.server with inQueue := queueOf [32] } = .ok s' ∧
    s'.inQueue = queueOf [32] := by
  have h : endsIn helpThenPacket startedMcp (fun _ => true) = true := by decide +kernel
  obtain ⟨m, hm, hr, -⟩ := reach_of_endsIn h
  obtain ⟨s', hs', hiff⟩ := tick_keeps_inQueue_iff hr laterEnv
    { m.server with inQueue := queueOf [32] } rfl
  refine ⟨m, s', hm, hs', hiff.2 ?_⟩
  have h32 : isSpace (getCurrentReadByte (queueOf [32])) = true := by decide
  rintro ⟨i, -, -, -, hspace⟩
  cases h32.symm.trans hspace

end CpcLink
