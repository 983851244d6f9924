/-
  A command that is read and run again later.

  `process_command` returns FALSE without space for the answer, and for the four
  commands that wait for more space or for their data.  Until then each of them
  has only read from the in queue and set the receive lock, so putting the read
  index back undoes it: `retry_untouched`.
-/
import CpcLink.Proof.Dispatch

namespace CpcLink

/-- The queue with its read index moved. -/
def Moved (q q' : Queue) : Prop := q'.data = q.data ∧ q'.storeNextByte = q.storeNextByte

/-- Nothing but the receive lock has changed, and the in queue as `R` says.
    Files and shell are outside of the server. -/
structure Untouched (R : Queue → Queue → Prop) (s s' : Server) : Prop where
  inQueue : R s.inQueue s'.inQueue
  outQueue : s'.outQueue = s.outQueue
  tron : s'.tron = s.tron
  binaryDataSendMode : s'.binaryDataSendMode = s.binaryDataSendMode
  memstore : s'.memstore = s.memstore
  commandStates : s'.commandStates = s.commandStates

/-- `main` puts the read index back to `hold_read_pointer`. -/
def rewind (holdReadPointer : ℤ) (s : Server) : Server :=
  { s with inQueue := { s.inQueue with readNextByte := holdReadPointer } }

/-! ## The readers -/

section
variable {q q' q'' : Queue}

theorem Moved.refl (q : Queue) : Moved q q := ⟨rfl, rfl⟩

theorem Moved.trans (h : Moved q q') (h' : Moved q' q'') : Moved q q'' :=
  ⟨h'.1.trans h.1, h'.2.trans h.2⟩

theorem moved_inc (q : Queue) (n : ℤ) : Moved q (incrementReadNextIndex q n) := ⟨rfl, rfl⟩

theorem moved_next8 (q : Queue) : Moved q (getCommandNext8bitParamBin q).2 := ⟨rfl, rfl⟩

theorem moved_next16 (q : Queue) : Moved q (getCommandNext16bitParamBin q).2 := ⟨rfl, rfl⟩

theorem moved_next32 (q : Queue) : Moved q (getCommandNext32bitParamBin q).2 := ⟨rfl, rfl⟩

theorem moved_skipTerminator (q : Queue) : Moved q (queueSkipTerminatorOfPacket q) := by
  unfold queueSkipTerminatorOfPacket
  split
  · exact .refl q
  · split
    · exact moved_inc q _
    · exact .refl q

theorem moved_skipLoop (n : ℕ) (q : Queue) (three : List BYTE) : Moved q (skipLoop n q three).2 := by
  induction n generalizing q three with
  | zero => exact .refl q
  | succ n ih =>
    rw [skipLoop]
    split
    · exact .refl q
    · split
      · exact moved_inc q 1
      · exact (moved_inc q 1).trans (ih _ _)

theorem moved_skipToNext (q : Queue) : Moved q (queueSkipToNextPacket q).2 := by
  unfold queueSkipToNextPacket
  split
  · exact .refl q
  · exact moved_skipLoop _ q _

theorem moved_isComplete (q : Queue) : Moved q (isCompletePacketAvailable q).2 := by
  have h := moved_skipToNext q
  simp only [isCompletePacketAvailable]
  split_ifs
  · exact h.trans (moved_inc _ _)
  · exact h.trans (moved_inc _ _)
  · exact h
  · exact h
  · exact h
  · exact h

theorem moved_paramLoop (ends : BYTE → Bool) (n : ℕ) (q : Queue) :
    Moved q (paramLoop ends n q).2 := by
  induction n generalizing q with
  | zero => exact .refl q
  | succ n ih =>
    rw [paramLoop]
    split
    · exact .refl q
    · exact (moved_inc q 1).trans (ih _)

theorem moved_allParams (q : Queue) (n : ℕ) : Moved q (getAllCommandParamsText q n).2.2 := by
  have h := moved_paramLoop isNewline n q
  simp only [getAllCommandParamsText]
  split_ifs
  · exact h
  · exact h.trans (moved_inc _ 1)
  · exact h

theorem moved_nameLoop (size : ℤ) (n index : ℕ) (q : Queue) :
    Moved q (commandNameLoop size n index q).2.2 := by
  induction n generalizing index q with
  | zero => exact .refl q
  | succ n ih =>
    rw [commandNameLoop]
    split
    · dsimp only
      split
      · exact moved_inc q 1
      · exact (moved_inc q 1).trans (ih _ _)
    · exact .refl q

theorem moved_commandText (q : Queue) : Moved q (getCommandText q).2.2 := by
  have hbody : Moved q (incrementReadNextIndex (incrementReadNextIndex (incrementReadNextIndex
      (incrementReadNextIndex q frontDelimiterOverhead) 1) 1) 1) := ⟨rfl, rfl⟩
  unfold getCommandText
  dsimp only
  split_ifs
  · exact ⟨rfl, rfl⟩
  · exact hbody
  · exact (hbody.trans (moved_nameLoop _ _ _ _)).trans (moved_inc _ _)
  · exact hbody.trans (moved_nameLoop _ _ _ _)

end

/-! ## The commands that are run again -/

section
variable {env : Env} {s s' : Server}

theorem retrieveAlloc_retried (hr : commandRetrieveAlloc s = .ok (false, s')) :
    Untouched Moved s s' := by
  unfold commandRetrieveAlloc at hr
  dsimp only at hr
  split at hr
  · cases hr
  split at hr
  · split at hr
    · split at hr
      · obtain ⟨_, -, hr⟩ := bind_eq_ok.1 hr
        cases hr
      · cases hr
        exact ⟨⟨rfl, rfl⟩, rfl, rfl, rfl, rfl, rfl⟩
    · cases hr
  · cases hr

theorem storeAlloc_retried (hr : commandStoreAlloc env s = .ok (false, s')) :
    Untouched Moved s s' := by
  unfold commandStoreAlloc at hr
  dsimp only at hr
  split_ifs at hr
  · cases hr
  · cases hr
  · cases hr
  · cases hr
    have hparams := (moved_next8 s.inQueue).trans (moved_next16 _)
    exact ⟨hparams.trans ((moved_skipTerminator _).trans (moved_isComplete _)),
      rfl, rfl, rfl, rfl, rfl⟩
  · cases hr
  · obtain ⟨_, -, hr⟩ := bind_eq_ok.1 hr
    split at hr <;> cases hr

theorem insertAlloc_retried (hr : commandInsertAlloc env s = .ok (false, s')) :
    Untouched Moved s s' := by
  unfold commandInsertAlloc at hr
  dsimp only at hr
  split_ifs at hr
  · cases hr
  · cases hr
  · cases hr
    have hparams := (moved_next8 s.inQueue).trans ((moved_next32 _).trans (moved_next32 _))
    exact ⟨hparams.trans ((moved_skipTerminator _).trans (moved_isComplete _)),
      rfl, rfl, rfl, rfl, rfl⟩
  · cases hr
  · obtain ⟨_, -, hr⟩ := bind_eq_ok.1 hr
    split at hr <;> cases hr

theorem shellexec_retried (hr : commandShellexec env s = .ok (false, s')) :
    Untouched Moved s s' := by
  unfold commandShellexec at hr
  dsimp only at hr
  split at hr
  · cases hr
  obtain ⟨_, -, hr⟩ := bind_eq_ok.1 hr
  split at hr
  · cases hr
  split at hr
  · cases hr
  split at hr
  · cases hr
  split at hr
  · cases hr
  split at hr
  · obtain ⟨_, -, hr⟩ := bind_eq_ok.1 hr
    cases hr
  -- the result is there, and no space for it
  · cases hr
    exact ⟨moved_allParams _ _, rfl, rfl, rfl, rfl, rfl⟩

/-- A command that is to be run again has only read. -/
theorem call_retried {fn : CommandFunction} (hfn : retried fn = true) {tick : ℤ}
    (hr : callFunction env s tick fn = .ok (false, s')) : Untouched Moved s s' := by
  cases fn with
  | commandRetrieveAlloc => exact retrieveAlloc_retried hr
  | commandStoreAlloc => exact storeAlloc_retried hr
  | commandInsertAlloc => exact insertAlloc_retried hr
  | commandShellexec => exact shellexec_retried hr
  | _ => cases hfn

/-- What `process_command` leaves when it returns FALSE. -/
theorem processCommand_retried {c : Command} (hr : processCommand env c s = .ok (false, s')) :
    Untouched Moved s s' := by
  cases process_step hr with
  | noSpace => exact ⟨.refl _, rfl, rfl, rfl, rfl, rfl⟩
  | retried _ _ hret hcall => exact call_retried hret hcall

/-- Putting the read index back undoes reading. -/
theorem Untouched.rewind (h : Untouched Moved s s') {q : Queue} (hq : Moved q s.inQueue) :
    Untouched Eq { s with inQueue := q } (rewind q.readNextByte s') := by
  obtain ⟨hd, hs⟩ := hq.trans h.inQueue
  refine ⟨?_, h.outQueue, h.tron, h.binaryDataSendMode, h.memstore, h.commandStates⟩
  simp only [CpcLink.rewind, hd, hs]

/-- **A command that is to be run again leaves no trace**: after the rewind only
    the receive lock may differ.  `q` is the in queue when the command is run,
    read up to any place. -/
theorem retry_untouched (env : Env) (s : Server) :
    (∀ (c : Command) (q : Queue) (s' : Server), Moved s.inQueue q →
      processCommand env c { s with inQueue := q } = .ok (false, s') →
      Untouched Eq s (rewind s.inQueue.readNextByte s')) ∧
    (∀ s', dispatch env s = .ok (.rewound, s') → Untouched Eq s s') := by
  have again : ∀ (c : Command) (q : Queue) (s' : Server), Moved s.inQueue q →
      processCommand env c { s with inQueue := q } = .ok (false, s') →
      Untouched Eq s (rewind s.inQueue.readNextByte s') := by
    intro c q s' hq hrun
    exact (processCommand_retried hrun).rewind hq
  -- `main` rewinds when the command was not processed
  have finished : ∀ {q : Queue} {c : Command} {p : Bool × Server} {s' : Server},
      Moved s.inQueue q → processCommand env c { s with inQueue := q } = .ok p →
      finishDispatch s.inQueue.readNextByte p = (.rewound, s') → Untouched Eq s s' := by
    rintro q c ⟨done, s₁⟩ s' hq hrun hfin
    cases done with
    | true => cases hfin
    | false =>
      cases hfin
      exact again c q s₁ hq hrun
  refine ⟨again, fun s' hd => ?_⟩
  unfold dispatch at hd
  split_ifs at hd
  · unfold dispatchText at hd
    dsimp only at hd
    split_ifs at hd
    · obtain ⟨p, hrun, hd⟩ := bind_eq_ok.1 hd
      exact finished (moved_commandText _) hrun (Except.ok.inj hd)
    · cases hd
  · obtain ⟨p, hrun, hd⟩ := bind_eq_ok.1 hd
    exact finished (q := (getCommandBin s.inQueue).2) ⟨rfl, rfl⟩ hrun (Except.ok.inj hd)
  · cases hd

end

/-- An instance: the page of `SALLOC` has not arrived. -/
theorem retry_untouched_store : ∃ s',
    dispatch calmEnv (withPage (serverOf (encode binaryCommand [24, 1, 0, 0] ++ [43, 43]))) =
      .ok (.rewound, s') ∧ s'.binaryDataReceiveMode = 1031 ∧
    Untouched Eq (withPage (serverOf (encode binaryCommand [24, 1, 0, 0] ++ [43, 43]))) s' := by
  have hrun : (match dispatch calmEnv (withPage (serverOf (encode binaryCommand [24, 1, 0, 0] ++
      [43, 43]))) with
    | .ok (.rewound, s') => s'.binaryDataReceiveMode == 1031
    | _ => false) = true := by decide +kernel
  split at hrun
  next s' hd => exact ⟨s', hd, eq_of_beq hrun, (retry_untouched calmEnv _).2 s' hd⟩
  next => cases hrun

end CpcLink
