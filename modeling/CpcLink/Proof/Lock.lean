/-
  Can the receive lock always be released?

  The lock is set to the bytes of the data packet that are still missing: the
  size asked for and the overhead, less what waits.  It counts down to 0 if that
  is not negative.  More may wait than was asked for: a data packet announced
  larger, or other bytes behind a broken one.
-/
import CpcLink.Proof.Runs

namespace CpcLink

/-- The bytes that wait where the data packet is looked for, without the noise
    in front of it, and without a packet that is not well formed. -/
def dataWaiting (fn : CommandFunction) (q : Queue) : ℕ :=
  let waiting := resync (behind fn q).unread
  match frameNext waiting with
  | some (n, none) => waiting.length - n
  | _ => waiting.length

/-- No more bytes wait than a packet of this size has, and what is missing is an
    `int`.  A size so far below 0 that the difference wraps around does no harm. -/
def MissingFits (size : ℤ) (waiting : ℕ) : Prop :=
  ((waiting : ℤ) ≤ size ∧ size - waiting < 2 ^ 31) ∨ size - waiting < -2 ^ 31

instance (size : ℤ) (waiting : ℕ) : Decidable (MissingFits size waiting) :=
  inferInstanceAs (Decidable ((_ ∧ _) ∨ _))

/-- A request for data that is run, and whose packet is not complete, does not
    have more bytes waiting than it asks for. -/
def LockFits (env : Env) (s : Server) : Prop :=
  ∀ c k, request s.inQueue = some (c, k) →
    isQueueSpaceAvailable s.outQueue (spaceOf (functionOf c)) = true →
    takesData (functionOf c) = true → ¬ DataRejected env (functionOf c) (atParams s k) →
    (isCompletePacketAvailable (behind (functionOf c) (atParams s k).inQueue)).1 = false →
    MissingFits (dataWant (functionOf c) (atParams s k) + packetOverhead)
      (dataWaiting (functionOf c) (atParams s k).inQueue)

instance (env : Env) (s : Server) : Decidable (LockFits env s) :=
  inferInstanceAs (Decidable (∀ _ _, _ → _ → _ → _ → _ → _))

section
variable {env : Env} {s s' : Server} {fn : CommandFunction}

/-! ## The value of the lock -/

theorem count_atData (h : InRange s.inQueue) (fn : CommandFunction) :
    (atData fn s.inQueue).count = dataWaiting fn s.inQueue := by
  have hb := h.behind fn
  have hc := hb.count_synced
  rw [atData, isComplete_eq hb, dataWaiting]
  cases hf : frameNext (resync (behind fn s.inQueue).unread) with
  | none => exact hc
  | some decision =>
    obtain ⟨k, packet⟩ := decision
    cases packet with
    | some _ => exact hc
    | none =>
      have hk := frameNext_pos hf
      simp only [hb.synced.count_inc (a := k) (by omega), hc]

/-- The lock that an incomplete data packet sets. -/
theorem awaitData_nonneg (h : InRange s.inQueue) (hm : StoreValid s.memstore) :
    0 ≤ (awaitData fn s).binaryDataReceiveMode ↔
      MissingFits (dataWant fn s + packetOverhead) (dataWaiting fn s.inQueue) := by
  have hw := dataWant_range hm fn
  have hn := (h.atData fn).numberBytes
  have hlt := (h.atData fn).count_lt
  have hQ : queueSize = 131070 := rfl
  rw [count_atData h] at hn hlt
  rw [awaitData, MissingFits]
  simp only [packetOverhead, hn]
  rw [wrap32_nonneg (by omega) (by omega)]
  omega

/-! ## Steps -/

/-- A call that takes no data leaves the lock. -/
theorem call_receive (h : Healthy s) (hd : takesData fn = false) {tick : ℤ} {r : Bool × Server}
    (hr : callFunction env s tick fn = .ok r) :
    r.2.binaryDataReceiveMode = s.binaryDataReceiveMode := by
  by_cases hreset : fn = .commandReset
  · subst hreset; cases hr; rfl
  · exact (plain_call h.inQueue h.memstore hd hreset hr).receive

/-- The call of a dispatched command, if the lock fits. -/
theorem call_nonneg (h : Healthy s) (h0 : 0 ≤ s.binaryDataReceiveMode)
    (hfit : takesData fn = true → ¬ DataRejected env fn s →
      (isCompletePacketAvailable (behind fn s.inQueue)).1 = false →
      MissingFits (dataWant fn s + packetOverhead) (dataWaiting fn s.inQueue)) {tick : ℤ}
    {r : Bool × Server} (hr : callFunction env s tick fn = .ok r) :
    0 ≤ r.2.binaryDataReceiveMode := by
  by_cases hd : takesData fn = true
  swap
  · rw [call_receive h (Bool.eq_false_iff.2 hd) hr]; exact h0
  cases data_call h.inQueue hd hr with
  | rejected | short | stored => exact h0
  | incomplete hrej hf => exact (awaitData_nonneg h.inQueue h.memstore).2 (hfit hd hrej hf)

theorem dispatch_nonneg (h : Healthy s) (hp : ∃ ty body rest, AtPacket s.inQueue ty body rest)
    (hfit : LockFits env s) {o : Outcome} (hd : dispatch env s = .ok (o, s'))
    (h0 : 0 ≤ s.binaryDataReceiveMode) : 0 ≤ s'.binaryDataReceiveMode := by
  -- the call of the request `c`
  have call : ∀ {c : Command} {k : ℕ} {space : ℤ} {r : Bool × Server},
      request s.inQueue = some (c, k) → Row c (functionOf c) space →
      isQueueSpaceAvailable s.outQueue space = true →
      callFunction env (atParams s k) 0 (functionOf c) = .ok r → 0 ≤ r.2.binaryDataReceiveMode := by
    intro c k space r hr hR hsp hcall
    rw [hR.space] at hsp
    exact call_nonneg (h.atParams k) h0 (hfit c k hr hsp) hcall
  cases dispatch_step h.inQueue hp hd with
  | ignored | noSpace | badText => exact h0
  | complete hr hR hsp hcall => exact call hr hR hsp hcall
  | retried hr hR hsp _ hcall => exact call hr hR hsp hcall
  | scheduled hr hR hsp _ hcall hsched =>
    obtain ⟨_, rfl, -⟩ := schedule_spec hsched
    exact call hr hR hsp hcall

theorem lock_kept : Kept LockFits (fun _ _ => True) fun s _ => 0 ≤ s.binaryDataReceiveMode where
  start m h := by obtain ⟨_, _, _, _, rfl⟩ := h; exact le_rfl
  receive m dor h h0 := by
    rcases receiveByte_cases m dor with he | ⟨b, -, -, he⟩ <;> rw [he]
    · exact h0
    · dsimp only; split <;> omega
  send m dir h h0 := by
    rcases sendByte_cases m dir with he | ⟨-, he⟩ <;> rw [he] <;> exact h0
  poll _ _ h0 := h0
  dispatch env s w o s' h hp hfit hd h0 := dispatch_nonneg h hp hfit hd h0
  tick env s w i fn done s' states h _ hfn _ hcall h0 := by
    have hr := call_receive h (staged_kind (h.commandStates i fn hfn)).2.2 hcall
    change 0 ≤ s'.binaryDataReceiveMode
    rw [hr]; exact h0

/-- **The receive lock is never negative** in a run in which no incomplete data
    packet has more bytes waiting than were asked for. -/
theorem lock_nonneg {m : Mcp} (hr : Reach Initial Round (RoundMeets LockFits fun _ _ => True) m) :
    0 ≤ m.server.binaryDataReceiveMode := lock_kept.reach hr

end

/-- An allocation of one page, a request to insert three bytes into it, and the
    first ten bytes of their packet. -/
def insertInParts : List Input := receiving (encode binaryCommand [21, 1, 0, 1] ++
  encode binaryCommand [25, 1, 0, 0, 0, 0, 0, 0, 3, 0] ++ (encode binaryData [7, 8, 9]).take 10)

/-- An instance: two bytes are missing when the request is run. -/
theorem lock_nonneg_insert : ∃ m, runRounds insertInParts startedMcp = .ok m ∧
    m.server.binaryDataReceiveMode = 2 ∧ 0 ≤ m.server.binaryDataReceiveMode := by
  have hend : runMeets (fun env s => decide (LockFits env s)) (fun _ _ => true) insertInParts
      startedMcp (fun m => m.server.binaryDataReceiveMode == 2) = true := by decide +kernel
  obtain ⟨m, hrun, hr, hm⟩ := reach_of_started (D := LockFits) (T := fun _ _ => True) hend
  exact ⟨m, hrun, eq_of_beq hm, lock_nonneg hr⟩

/-- Four idle rounds, a request for one byte, and a packet announced with 20. -/
def lateInsert : List Input :=
  idling 4 ++ receiving (encode binaryCommand [25, 1, 255, 255, 255, 255, 0, 0, 1, 0] ++
    front binaryData 20 ++ List.replicate 13 7)

/-- At the second look the request is complete, and 19 bytes of the packet wait. -/
theorem lock_negative : ∃ m, runRounds lateInsert startedMcp = .ok m ∧
    Reach Initial Round (fun _ _ => True) m ∧ m.server.binaryDataReceiveMode = -9 := by
  have h : endsIn lateInsert startedMcp (fun m => m.server.binaryDataReceiveMode == -9) = true := by
    decide +kernel
  obtain ⟨m, hm, hr, he⟩ := reach_of_endsIn h
  exact ⟨m, hm, hr, eq_of_beq he⟩

end CpcLink
