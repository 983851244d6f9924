/-
  The table of the commands that wait for their tick.

  In every state reached a slot is empty, or it holds the id of one command of
  several steps with the function of its row.  The steps of these commands
  cannot fault, and no step runs before the first.
-/
import CpcLink.Proof.Runs

namespace CpcLink

/-- A slot that is empty, or in which a command waits. -/
inductive SlotFits : CommandState → Prop
  | empty : SlotFits .zero
  | waiting {c : Command} {tick time : ℤ} : c < maxCommands → staged (functionOf c) = true →
      1 ≤ tick → SlotFits ⟨c, some (functionOf c), tick, time⟩

def TableFits (commandStates : ℕ → CommandState) : Prop := ∀ i, SlotFits (commandStates i)

/-- The slot after a step of its command. -/
def slotAfter (st : CommandState) (done : Bool) (time : ℤ) : CommandState :=
  if done then .zero else ⟨st.commandId, st.commandFunction, st.nextTickCount + 1, time⟩

/-- What running the commands that wait can do. -/
inductive TickRun (env : Env) (s : Server) : Server → Prop
  | idle : dueCommandState s.commandStates (getCurrentExecTime env.timeOfDay) = none →
      TickRun env s s
  | run {i : ℕ} {fn : CommandFunction} {done : Bool} {s' : Server} {time : ℤ} :
      dueCommandState s.commandStates (getCurrentExecTime env.timeOfDay) = some i →
      (s.commandStates i).commandFunction = some fn →
      callFunction env s (s.commandStates i).nextTickCount fn = .ok (done, s') →
      TickRun env s { s' with
        commandStates := Function.update s.commandStates i (slotAfter (s.commandStates i) done time) }

section
variable {env : Env} {s s' : Server} {st : CommandState}

theorem SlotFits.id_lt (h : SlotFits st) : st.commandId < maxCommands := by
  cases h with
  | empty => decide
  | waiting hc => exact hc

theorem SlotFits.function (h : SlotFits st) {fn : CommandFunction}
    (hfn : st.commandFunction = some fn) :
    fn = functionOf st.commandId ∧ staged fn = true ∧ 1 ≤ st.nextTickCount := by
  cases h with
  | empty => cases hfn
  | waiting _ hst ht =>
    cases hfn
    exact ⟨rfl, hst, ht⟩

theorem SlotFits.waits (h : SlotFits st) (hid : st.commandId ≠ unknown) :
    st.commandFunction = some (functionOf st.commandId) := by
  cases h with
  | empty => exact absurd rfl hid
  | waiting => rfl

theorem TableFits.update {states : ℕ → CommandState} (h : TableFits states) (i : ℕ)
    (hst : SlotFits st) : TableFits (Function.update states i st) := by
  intro j
  by_cases hj : j = i
  · subst hj; rw [Function.update_self]; exact hst
  · rw [Function.update_of_ne hj]; exact h j

/-! ## The steps -/

/-- The commands of several steps do not fault, and leave the table alone. -/
theorem staged_runs {fn : CommandFunction} (hst : staged fn = true) (env : Env) (s : Server)
    (tick : ℤ) : ∃ r, callFunction env s tick fn = .ok r ∧ r.2.commandStates = s.commandStates ∧
      (fn ≠ .commandHelp → r.2.inQueue = s.inQueue) := by
  cases fn with
  | commandHelp => exact ⟨_, rfl, (help_effect s).table, fun h => absurd rfl h⟩
  | commandShutdown =>
    refine ⟨_, rfl, ?_, fun _ => ?_⟩ <;> unfold commandShutdown <;> split <;> rfl
  | commandReboot =>
    refine ⟨_, rfl, ?_, fun _ => ?_⟩ <;> unfold commandReboot <;> split <;> rfl
  | commandGetFile | commandPutFile | commandGetMemFile | commandPutMemFile =>
    exact ⟨_, rfl, rfl, fun _ => rfl⟩
  | _ => cases hst

theorem row_of_lt {c : Command} (hc : c < maxCommands) : ∃ row, commandDefs[c]? = some row :=
  ⟨commandDefs[c], List.getElem?_eq_getElem hc⟩

theorem nextExecTime_ok (env : Env) {c : Command} (hc : c < maxCommands) :
    ∃ time, getNextExecTime env c = .ok time := by
  obtain ⟨row, hrow⟩ := row_of_lt hc
  unfold getNextExecTime getCommandTickPeriod commandDef
  rw [hrow]
  exact ⟨_, rfl⟩

theorem dueCommandState_some {states : ℕ → CommandState} {time : ℤ} {i : ℕ}
    (h : dueCommandState states time = some i) :
    i < maxCommandStates ∧ (states i).commandId ≠ unknown ∧ (states i).nextExecTime < time := by
  obtain ⟨hp, hi, -⟩ := List.find?_range_eq_some.1 h
  exact ⟨List.mem_range.1 hi, of_decide_eq_true hp⟩

/-- **A tick does not fault**, and ends in one of the cases of `TickRun`. -/
theorem tickCommand_waits (env : Env)
    (h : ∀ i, (s.commandStates i).commandId ≠ unknown → SlotFits (s.commandStates i)) :
    ∃ s', tickCommand env s = .ok s' ∧ TickRun env s s' := by
  unfold tickCommand
  cases hdue : dueCommandState s.commandStates (getCurrentExecTime env.timeOfDay) with
  | none => exact ⟨s, rfl, .idle hdue⟩
  | some i =>
    have hid := (dueCommandState_some hdue).2.1
    have hfn := (h i hid).waits hid
    obtain ⟨⟨done, s₁⟩, hcall, hstates, -⟩ :=
      staged_runs ((h i hid).function hfn).2.1 env s (s.commandStates i).nextTickCount
    obtain ⟨time, htime⟩ := nextExecTime_ok env (h i hid).id_lt
    have hrun : tickSlot env s i = .ok { s₁ with
        commandStates := Function.update s.commandStates i (slotAfter (s.commandStates i) done time) } := by
      rw [tickSlot, hfn]
      dsimp only at hstates ⊢
      rw [hcall]
      cases done with
      | true => rw [← hstates]; rfl
      | false =>
        change (getNextExecTime env (s₁.commandStates i).commandId >>= _) = _
        rw [hstates, htime]
        rfl
    exact ⟨_, hrun, .run hdue hfn hcall⟩

theorem tickCommand_run (env : Env) (h : TableFits s.commandStates) :
    ∃ s', tickCommand env s = .ok s' ∧ TickRun env s s' := tickCommand_waits env fun i _ => h i

/-! ## Every state reached -/

theorem SlotFits.after (h : SlotFits st) (hid : st.commandId ≠ unknown) (done : Bool) (time : ℤ) :
    SlotFits (slotAfter st done time) := by
  cases h with
  | empty => exact absurd rfl hid
  | waiting hc hst ht =>
    cases done with
    | true => exact .empty
    | false => exact .waiting hc hst (by dsimp only; omega)

theorem TickRun.table (hr : TickRun env s s') (h : TableFits s.commandStates) :
    TableFits s'.commandStates := by
  cases hr with
  | idle => exact h
  | run hdue _ _ => exact h.update _ ((h _).after (dueCommandState_some hdue).2.1 _ _)

/-- A call leaves the table, or it is a reset. -/
theorem call_states {fn : CommandFunction} {tick : ℤ} {r : Bool × Server}
    (hr : callFunction env s tick fn = .ok r) : r.2.commandStates = s.commandStates ∨
      fn = .commandReset ∧ r.2.commandStates = fun _ => .zero := by
  by_cases hreset : fn = .commandReset
  · subst hreset
    cases hr
    exact .inr ⟨rfl, rfl⟩
  · exact .inl ((call_effect env s tick hreset).result hr).table

theorem call_table (ht : TableFits s.commandStates) {fn : CommandFunction} {tick : ℤ}
    {r : Bool × Server} (hr : callFunction env s tick fn = .ok r) :
    TableFits r.2.commandStates := by
  rcases call_states hr with he | ⟨-, he⟩ <;> rw [he]
  · exact ht
  · exact fun _ => .empty

theorem dispatch_table (h : Healthy s) (hp : ∃ ty body rest, AtPacket s.inQueue ty body rest)
    {o : Outcome} (hd : dispatch env s = .ok (o, s')) (ht : TableFits s.commandStates) :
    TableFits s'.commandStates := by
  cases dispatch_step h.inQueue hp hd with
  | ignored | noSpace | badText => exact ht
  | @complete c k _ _ _ _ _ hcall => exact call_table (s := atParams s k) ht hcall
  | @retried c k _ _ _ _ _ _ hcall => exact call_table (s := atParams s k) ht hcall
  | @scheduled c k _ _ _ hr hR _ hret hcall hsched =>
    have ht' := call_table (s := atParams s k) ht hcall
    have hst := staged_of_scheduled hret hcall
    obtain ⟨states, rfl, hslot⟩ := schedule_spec hsched
    intro i
    change SlotFits (states i)
    rcases hslot i with he | ⟨time, he⟩ <;> rw [he]
    · exact ht' i
    · exact .waiting hR.lt hst le_rfl

theorem PacketStep.table {m : Mcp} (h : Healthy m.server) (ht : TableFits m.server.commandStates)
    (hs : PacketStep env m s') : TableFits s'.commandStates := by
  cases hs with
  | idle | polled => exact ht
  | dispatched hd hrun => exact dispatch_table h.polled (hd.atPacket h) hrun ht

theorem exchangeBytes_states (input : Input) (m : Mcp) :
    (exchangeBytes input m).server.commandStates = m.server.commandStates := by
  unfold exchangeBytes
  rcases sendByte_cases (receiveByte m input.dor) input.dir with he | ⟨-, he⟩ <;> rw [he] <;>
    rcases receiveByte_cases m input.dor with he' | ⟨_, -, -, he'⟩ <;> rw [he']

/-- The last part of a round. -/
theorem checkTicks_run {m m' : Mcp} (ht : TableFits m.server.commandStates)
    (hr : checkTicks env m = .ok m') :
    m'.server = m.server ∨ Ticks m ∧ TickRun env m.server m'.server := by
  unfold checkTicks at hr
  split at hr
  swap
  · cases hr; exact .inl rfl
  next hgo =>
  obtain ⟨s', hs, hr⟩ := bind_eq_ok.1 hr
  cases hr
  obtain ⟨s'', hs', hrun⟩ := tickCommand_run env ht
  cases hs.symm.trans hs'
  exact .inr ⟨hgo, hrun⟩

/-- **The slots fit in every state reached.** -/
theorem table_reach {ok : Mcp → Input → Prop} {m : Mcp} (hr : Reach Initial Round ok m) :
    TableFits m.server.commandStates := by
  refine hr.inv_with (P := fun m => TableFits m.server.commandStates)
    (I := fun m => Healthy m.server) (fun _ => healthy_reach) ?_ ?_
  · rintro m ⟨inQueue, outQueue, memstore, world, rfl⟩
    exact fun _ => .empty
  intro m input m' h ht _ hround
  obtain ⟨m₁, hp, hticks⟩ := hround.steps
  have ht₁ : TableFits m₁.server.commandStates := by
    refine (checkPackets_step hp).1.table (h.exchange input) ?_
    rw [exchangeBytes_states]; exact ht
  rcases checkTicks_run ht₁ hticks with he | ⟨-, hrun⟩
  · rw [he]; exact ht₁
  · exact hrun.table ht₁

/-- They fit behind the dispatch of a round. -/
theorem table_packets {ok : Mcp → Input → Prop} {m m₁ : Mcp} {input : Input}
    (hr : Reach Initial Round ok m)
    (hp : checkPackets input.env (exchangeBytes input m) = .ok m₁) :
    TableFits m₁.server.commandStates := by
  have ht : TableFits (exchangeBytes input m).server.commandStates := by
    rw [exchangeBytes_states]; exact table_reach hr
  exact (checkPackets_step hp).1.table ((healthy_reach hr).exchange input) ht

end

end CpcLink
