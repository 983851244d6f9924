/-
  In which order the stages of a command are run (command_processor.c).

  The log of a run has what `process_command` records in a slot, and the handlers
  that `tick_command` calls with their tick numbers.  In each slot these are
  sessions: an entry is called with ticks 1, 2, 3 and so on up to the call that
  returns TRUE, and nothing is recorded over it (`stages_in_order`).
-/
import CpcLink.Lib.Sessions
import CpcLink.Proof.CallFrames
import CpcLink.Proof.Staged

namespace CpcLink

open SessionEvent

/-! ## The log -/

/-- What is recorded in a slot: the command and its handler. -/
abbrev Entry := Command × CommandFunction

/-- The slots, and what happened to the entries in them. -/
abbrev StageLog := List (ℕ × SessionEvent Entry)

/-- What `process_command` records: a command that is not complete, and is not
    read again, in the slot that `get_empty_command_state` finds. -/
def recordsOf (env : Env) (c : Command) (s : Server) : StageLog :=
  if isQueueSpaceAvailable s.outQueue (spaceOf (functionOf c)) = true ∧ isRetried c = false then
    match callFunction env s 0 (functionOf c) with
    | .ok (false, s') =>
      match getEmptyCommandState s'.commandStates with
      | some i => [(i, .put (c, functionOf c))]
      | none => []
    | _ => []
  else []

/-- The handlers that the loop of `tick_command` calls, over the slots from here
    on.  It breaks behind a call. -/
def handlerCalls (env : Env) (s : Server) : List ℕ → StageLog
  | [] => []
  | i :: slots =>
    let st := s.commandStates i
    if st.commandId ≠ unknown ∧ st.nextExecTime < getCurrentExecTime env.timeOfDay then
      match st.commandFunction with
      | none => []
      | some fn =>
        match callFunction env s st.nextTickCount fn with
        | .ok (complete, _) => [(i, .called (st.commandId, fn) st.nextTickCount complete)]
        | .error _ => []
    else handlerCalls env s slots

structure Stages where
  table : ℕ → CommandState
  log : StageLog

/-- A call, in any state of the server that has the table. -/
inductive StageCall where
  | process (env : Env) (commandId : Command) (s : Server)
  | tick (env : Env) (s : Server)

inductive StageStep (x : Stages) : StageCall → Stages → Prop
  | process {env : Env} {c : Command} {s s' : Server} {done : Bool} : s.commandStates = x.table →
      functionOf c ≠ .commandReset → processCommand env c s = .ok (done, s') →
      StageStep x (.process env c s) ⟨s'.commandStates, x.log ++ recordsOf env c s⟩
  | tick {env : Env} {s s' : Server} : s.commandStates = x.table → tickCommand env s = .ok s' →
      StageStep x (.tick env s)
        ⟨s'.commandStates, x.log ++ handlerCalls env s (List.range maxCommandStates)⟩

/-- The table is empty, and nothing has happened. -/
def StagesStart (x : Stages) : Prop := (∀ i, (x.table i).commandId = unknown) ∧ x.log = []

/-- What a slot holds: an entry that was called so many times, or nothing. -/
def SlotNow (st : CommandState) : Option (Entry × ℕ) → Prop
  | some ((c, fn), n) => c ≠ unknown ∧ st.commandId = c ∧ st.commandFunction = some fn ∧
      st.nextTickCount = n + 1
  | none => st.commandId = unknown

section
variable {env : Env} {s s' : Server} {fn : CommandFunction} {c : Command} {tick : ℤ}

/-! ## One call -/

/-- What `process_command` makes of the table, and what it records. -/
inductive Recorded (c : Command) (before after : ℕ → CommandState) : StageLog → Prop
  | nothing : after = before → Recorded c before after []
  | entry {i : ℕ} {time : ℤ} : (before i).commandId = unknown → c < maxCommands →
      staged (functionOf c) = true →
      after = Function.update before i ⟨c, some (functionOf c), 1, time⟩ →
      Recorded c before after [(i, .put (c, functionOf c))]

theorem process_records {done : Bool} (hreset : functionOf c ≠ .commandReset)
    (hr : processCommand env c s = .ok (done, s')) :
    Recorded c s.commandStates s'.commandStates (recordsOf env c s) := by
  have hcalls := call_effect env s 0 hreset
  unfold recordsOf
  cases process_step hr with
  | noSpace hR hsp =>
    rw [hR.space] at hsp
    rw [if_neg fun h => Bool.eq_false_iff.1 hsp h.1]
    exact .nothing rfl
  | complete hR hsp hcall =>
    have hstates := (hcalls.result hcall).table
    rw [hcall, ite_self]
    exact .nothing hstates
  | retried hR _ hret hcall =>
    have hstates := (hcalls.result hcall).table
    have hagain : isRetried c = true := hR.retried.trans hret
    rw [if_neg fun h => Bool.eq_false_iff.1 h.2 hagain]
    exact .nothing hstates
  | @scheduled space s₁ _ hR hsp hret hcall hsched =>
    have hstates : s₁.commandStates = s.commandStates := (hcalls.result hcall).table
    rw [if_pos ⟨hR.space ▸ hsp, hR.retried.trans hret⟩, hcall]
    dsimp only
    cases hslot : getEmptyCommandState s₁.commandStates with
    | some i =>
      rw [scheduleCommand, hslot] at hsched
      obtain ⟨time, -, hsched⟩ := bind_eq_ok.1 hsched
      cases hsched
      have hempty := (emptyCommandState_some hslot).2
      rw [hstates] at hempty
      exact .entry hempty hR.lt (staged_of_scheduled hret hcall) (by rw [hstates])
    | none =>
      rw [scheduleCommand, hslot] at hsched
      cases hsched
      exact .nothing hstates

/-- What `tick_command` makes of the table, and which handler it calls. -/
inductive HandlerCalled (before after : ℕ → CommandState) : StageLog → Prop
  | nothing : after = before → HandlerCalled before after []
  | handler {i : ℕ} {fn : CommandFunction} {complete : Bool} {time : ℤ} :
      (before i).commandId ≠ unknown → (before i).commandFunction = some fn →
      after = Function.update before i (slotAfter (before i) complete time) →
      HandlerCalled before after
        [(i, .called ((before i).commandId, fn) (before i).nextTickCount complete)]

/-- The loop calls the handler of the first slot that is due. -/
theorem handlerCalls_eq (env : Env) (s : Server) (slots : List ℕ) :
    handlerCalls env s slots = match slots.find? fun i => (s.commandStates i).commandId ≠ unknown ∧
        (s.commandStates i).nextExecTime < getCurrentExecTime env.timeOfDay with
      | some i => handlerCalls env s [i]
      | none => [] := by
  induction slots with
  | nil => rfl
  | cons i slots ih =>
    rw [List.find?_cons]
    by_cases hdue : (s.commandStates i).commandId ≠ unknown ∧
        (s.commandStates i).nextExecTime < getCurrentExecTime env.timeOfDay
    · rw [decide_eq_true hdue]
      simp only [handlerCalls, if_pos hdue]
    · rw [decide_eq_false hdue, handlerCalls, if_neg hdue]
      exact ih

theorem handlerCalls_length (env : Env) (s : Server) (slots : List ℕ) :
    (handlerCalls env s slots).length ≤ 1 := by
  induction slots with
  | nil => exact Nat.zero_le 1
  | cons i slots ih =>
    rw [handlerCalls]
    split
    · split
      · exact Nat.zero_le 1
      · split
        · exact le_rfl
        · exact Nat.zero_le 1
    · exact ih

theorem tick_calls (hr : TickRun env s s') : HandlerCalled s.commandStates s'.commandStates
    (handlerCalls env s (List.range maxCommandStates)) := by
  have hcalls : handlerCalls env s (List.range maxCommandStates) =
      match dueCommandState s.commandStates (getCurrentExecTime env.timeOfDay) with
      | some i => handlerCalls env s [i]
      | none => [] := handlerCalls_eq env s _
  rw [hcalls]
  cases hr with
  | idle hdue =>
    rw [hdue]
    exact .nothing rfl
  | @run i fn done s₁ time hdue hfn hcall =>
    obtain ⟨-, hid, htime⟩ := dueCommandState_some hdue
    have hhandler : handlerCalls env s [i] =
        [(i, .called ((s.commandStates i).commandId, fn) (s.commandStates i).nextTickCount done)] := by
      simp only [handlerCalls, if_pos (And.intro hid htime), hfn, hcall]
    rw [hdue]
    dsimp only
    rw [hhandler]
    exact .handler hid hfn rfl

/-! ## Every state reached -/

/-- The events of each slot are sessions, whose last is what the slot holds. -/
structure InOrder (x : Stages) : Prop where
  sessions : ∀ i, ∃ now, Sessions (eventsAt i x.log) now ∧ SlotNow (x.table i) now
  fits : ∀ i, (x.table i).commandId ≠ unknown → SlotFits (x.table i)

variable {table after : ℕ → CommandState} {log events : StageLog} {i : ℕ}

theorem inOrder_start {x : Stages} (h : StagesStart x) : InOrder x := by
  refine ⟨fun i => ⟨none, ?_, h.1 i⟩, fun i hid => absurd (h.1 i) hid⟩
  rw [h.2]
  exact sessions_nil

theorem SlotNow.empty {st : CommandState} {now : Option (Entry × ℕ)} (h : SlotNow st now)
    (hid : st.commandId = unknown) : now = none := by
  cases now with
  | none => rfl
  | some p =>
    obtain ⟨⟨c, fn⟩, n⟩ := p
    obtain ⟨hc, hc', -⟩ := h
    exact absurd (hc'.symm.trans hid) hc

theorem SlotNow.waits {st : CommandState} {now : Option (Entry × ℕ)} (h : SlotNow st now)
    {fn : CommandFunction} (hid : st.commandId ≠ unknown) (hfn : st.commandFunction = some fn) :
    ∃ n : ℕ, now = some ((st.commandId, fn), n) ∧ st.nextTickCount = n + 1 := by
  cases now with
  | none => exact absurd h hid
  | some p =>
    obtain ⟨⟨c, fn'⟩, n⟩ := p
    obtain ⟨-, rfl, hfn', htick⟩ := h
    cases hfn'.symm.trans hfn
    exact ⟨n, rfl, htick⟩

/-- What happens in one slot leaves the sessions of the others. -/
theorem InOrder.step (h : InOrder ⟨table, log⟩) {e : SessionEvent Entry} {st : CommandState}
    (hi : ∃ now, Sessions (eventsAt i log ++ [e]) now ∧ SlotNow st now)
    (hst : st.commandId ≠ unknown → SlotFits st) :
    InOrder ⟨Function.update table i st, log ++ [(i, e)]⟩ := by
  refine ⟨fun j => ?_, fun j => ?_⟩ <;> dsimp only <;> by_cases hj : j = i
  · subst hj
    rw [eventsAt_snoc_self, Function.update_self]
    exact hi
  · rw [eventsAt_snoc_other (Ne.symm hj), Function.update_of_ne hj]
    exact h.sessions j
  · subst hj
    rw [Function.update_self]
    exact hst
  · rw [Function.update_of_ne hj]
    exact h.fits j

theorem InOrder.record (h : InOrder ⟨table, log⟩) (hr : Recorded c table after events) :
    InOrder ⟨after, log ++ events⟩ := by
  cases hr with
  | nothing hsame =>
    rw [hsame, List.append_nil]
    exact h
  | @entry i time hempty hc hst hafter =>
    have hknown : c ≠ unknown := by
      rintro rfl
      cases hst
    obtain ⟨now, hsessions, hnow⟩ := h.sessions i
    obtain rfl := hnow.empty hempty
    rw [hafter]
    refine h.step ⟨_, hsessions.put _, hknown, rfl, rfl, rfl⟩ fun _ => ?_
    exact .waiting hc hst le_rfl

theorem InOrder.call (h : InOrder ⟨table, log⟩) (hr : HandlerCalled table after events) :
    InOrder ⟨after, log ++ events⟩ := by
  cases hr with
  | nothing hsame =>
    rw [hsame, List.append_nil]
    exact h
  | @handler i fn complete time hid hfn hafter =>
    obtain ⟨now, hsessions, hnow⟩ := h.sessions i
    obtain ⟨n, rfl, htick⟩ := hnow.waits hid hfn
    dsimp only at htick
    rw [hafter, htick]
    refine h.step ?_ fun _ => (h.fits i hid).after hid _ _
    cases complete with
    | true => exact ⟨none, hsessions.complete, rfl⟩
    | false => exact ⟨_, hsessions.again, hid, rfl, hfn, by simp [slotAfter, htick]⟩

theorem StageStep.inOrder {x y : Stages} {call : StageCall} (hstep : StageStep x call y)
    (h : InOrder x) : InOrder y := by
  cases hstep with
  | process htable hreset hr =>
    have hrec := process_records hreset hr
    rw [htable] at hrec
    exact h.record hrec
  | @tick env s s' htable hr =>
    have hwaits : ∀ i, (s.commandStates i).commandId ≠ unknown → SlotFits (s.commandStates i) := by
      rw [htable]
      exact h.fits
    obtain ⟨s'', hr', hrun⟩ := tickCommand_waits env hwaits
    cases hr.symm.trans hr'
    have hcalled := tick_calls hrun
    rw [htable] at hcalled
    exact h.call hcalled

theorem reach_inOrder {x : Stages} (hr : Reach StagesStart StageStep (fun _ _ => True) x) :
    InOrder x :=
  hr.inv (fun _ => inOrder_start) fun _ _ _ h _ hstep => hstep.inOrder h

/-- The command is not complete, and is neither read again nor without space. -/
def Stores (env : Env) (c : Command) (s : Server) : Prop :=
  isQueueSpaceAvailable s.outQueue (spaceOf (functionOf c)) = true ∧ isRetried c = false ∧
    ∃ s', callFunction env s 0 (functionOf c) = .ok (false, s')

/-- Such a command is recorded if a slot is empty. -/
theorem Stores.recorded_iff (h : Stores env c s) :
    (∃ i, recordsOf env c s = [(i, .put (c, functionOf c))]) ↔
      ∃ i < maxCommandStates, (s.commandStates i).commandId = unknown := by
  obtain ⟨hsp, hretried, s', hcall⟩ := h
  have hreset : functionOf c ≠ .commandReset := by
    intro hf
    rw [hf] at hcall
    cases hcall
  have hstates : s'.commandStates = s.commandStates :=
    ((call_effect env s 0 hreset).result hcall).table
  unfold recordsOf
  rw [if_pos ⟨hsp, hretried⟩, hcall]
  dsimp only
  rw [hstates]
  cases hslot : getEmptyCommandState s.commandStates with
  | some i => exact iff_of_true ⟨i, rfl⟩ ⟨i, emptyCommandState_some hslot⟩
  | none =>
    refine iff_of_false ?_ ?_
    · rintro ⟨i, hi⟩
      cases hi
    · rintro ⟨i, hi, hempty⟩
      exact emptyCommandState_none.1 hslot i hi hempty

end

/-- **The stages are run in order, each once.**  In every run of `process_command`
    and `tick_command` without a `RESET` the events of a slot are sessions, and
    the table has the last.  A tick does not fault and calls one handler at most,
    and a command that has another stage is recorded if a slot is empty. -/
theorem stages_in_order {x : Stages} (hr : Reach StagesStart StageStep (fun _ _ => True) x) :
    (∀ i, ∃ now, Sessions (eventsAt i x.log) now ∧ SlotNow (x.table i) now) ∧
    ∀ env s, s.commandStates = x.table → (∃ s', tickCommand env s = .ok s') ∧
      (handlerCalls env s (List.range maxCommandStates)).length ≤ 1 ∧
      ∀ c, Stores env c s → ((∃ i, recordsOf env c s = [(i, .put (c, functionOf c))]) ↔
        ∃ i < maxCommandStates, (x.table i).commandId = unknown) := by
  have horder := reach_inOrder hr
  refine ⟨horder.sessions, fun env s htable => ⟨?_, handlerCalls_length env s _, fun c hc => ?_⟩⟩
  · obtain ⟨s', hs', -⟩ := tickCommand_waits (s := s) env (by rw [htable]; exact horder.fits)
    exact ⟨s', hs'⟩
  · rw [← htable]
    exact hc.recorded_iff

/-- Four seconds after the start. -/
def fourSeconds : Env := { calmEnv with timeOfDay := ⟨4, 0⟩ }

/-- A run: a shutdown is asked for, and four seconds later it is run. -/
theorem shutdown_run : ∃ x, Reach StagesStart StageStep (fun _ _ => True) x ∧
    x.log = [(19, .put (2, .commandShutdown)), (19, .called (2, .commandShutdown) 1 true)] := by
  obtain ⟨s₁, s₂, hprocess, htick, hrecords, hcalls⟩ : ∃ s₁ s₂,
      processCommand calmEnv 2 (serverOf []) = .ok (true, s₁) ∧
      tickCommand fourSeconds s₁ = .ok s₂ ∧
      recordsOf calmEnv 2 (serverOf []) = [(19, .put (2, .commandShutdown))] ∧
      handlerCalls fourSeconds s₁ (List.range maxCommandStates) =
        [(19, .called (2, .commandShutdown) 1 true)] := ⟨_, _, rfl, rfl, rfl, rfl⟩
  have h₁ : Reach StagesStart StageStep (fun _ _ => True)
      ⟨s₁.commandStates, [] ++ recordsOf calmEnv 2 (serverOf [])⟩ :=
    Reach.next (s := ⟨fun _ => .zero, []⟩) (.start ⟨fun _ => rfl, rfl⟩) trivial
      (.process rfl (by decide) hprocess)
  refine ⟨_, .next h₁ trivial (.tick rfl htick), ?_⟩
  rw [hrecords, hcalls]
  rfl

/-- An instance: the slot of the shutdown is empty again. -/
theorem stages_in_order_shutdown : ∃ x : Stages,
    x.log = [(19, .put (2, .commandShutdown)), (19, .called (2, .commandShutdown) 1 true)] ∧
    ∀ i, ∃ now, Sessions (eventsAt i x.log) now ∧ SlotNow (x.table i) now := by
  obtain ⟨x, hr, hlog⟩ := shutdown_run
  exact ⟨x, hlog, (stages_in_order hr).1⟩

end CpcLink
