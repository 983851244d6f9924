/-
  How early a command that waits can run (command_processor.c).

  A deadline is the clock in microseconds and the period of the command, in 32
  bits, and it is compared with the clock as a signed value.  It lies ahead until
  the period is over, unless it was wrapped: then it lies behind at once
  (`invoked_wrapped`).
-/
import CpcLink.Proof.Staged

namespace CpcLink

/-- The wall clock in microseconds. -/
def realTime (t : Timeval) : ℤ := t.tvSec * 1000000 + t.tvUsec

theorem execTime_eq (t : Timeval) : getCurrentExecTime t = wrap32 (realTime t) := by
  unfold getCurrentExecTime realTime wrap32
  rw [Int.add_bmod_bmod, Int.add_comm]

/-- `tick_command` runs the step of slot `i`. -/
def Invokes (env : Env) (s : Server) (i : ℕ) : Prop :=
  dueCommandState s.commandStates (getCurrentExecTime env.timeOfDay) = some i

/-- A call of `process_command` or of `tick_command` that stores the command `c`
    in slot `i`, to be run later. -/
inductive Schedules (env : Env) (s : Server) (i : ℕ) (c : Command) : Server → Prop
  | processed {fn : CommandFunction} {s₁ s' : Server} : getCommandFunction c = .ok fn →
      callFunction env s 0 fn = .ok (false, s₁) → getEmptyCommandState s₁.commandStates = some i →
      processCommand env c s = .ok (true, s') → Schedules env s i c s'
  | ticked {fn : CommandFunction} {s₁ s' : Server} : Invokes env s i →
      (s.commandStates i).commandFunction = some fn →
      callFunction env s (s.commandStates i).nextTickCount fn = .ok (false, s₁) →
      (s₁.commandStates i).commandId = c → c ≠ unknown → tickCommand env s = .ok s' →
      Schedules env s i c s'

/-- For `ms` milliseconds of real time after the clock was read, no call of
    `tick_command` runs the step that waits in slot `i` of `s'`, whatever else
    the table then holds. -/
def NeverWithin (env : Env) (s' : Server) (i : ℕ) (ms : ℤ) : Prop :=
  ∀ (later : Env) (t : Server), t.commandStates i = s'.commandStates i →
    realTime env.timeOfDayLater ≤ realTime later.timeOfDay →
    realTime later.timeOfDay < realTime env.timeOfDayLater + 1000 * ms → ¬ Invokes later t i

/-- The delay the answer to a command announces, in milliseconds: `SHUTDOWN IN 10
    SECONDS` and `Rebooting PI IN 3 SECONDS`. -/
def announcedDelay (c : Command) (period : ℤ) : ℤ :=
  match functionOf c with
  | .commandShutdown => 10000
  | .commandReboot => 3000
  | _ => period

/-! ## What is stored -/

section
variable {env : Env} {s s' : Server} {i : ℕ} {c : Command} {period : ℤ}

/-- What waits in a slot after it was filled. -/
structure Waits (env : Env) (s' : Server) (i : ℕ) (c : Command) : Prop where
  lt : i < maxCommandStates
  known : c ≠ unknown
  id : (s'.commandStates i).commandId = c
  time : getNextExecTime env c = .ok (s'.commandStates i).nextExecTime

theorem getCommandFunction_eq {fn : CommandFunction} (h : getCommandFunction c = .ok fn) :
    fn = functionOf c := by
  obtain ⟨row, hrow, h⟩ := bind_eq_ok.1 h
  cases h
  unfold commandDef at hrow
  split at hrow
  next row' hget =>
    cases hrow
    rw [functionOf, hget]
  · cases hrow

theorem Schedules.waits (h : Schedules env s i c s') : Waits env s' i c := by
  cases h with
  | @processed fn s₁ _ hfn hcall hslot hproc =>
    have hc : c ≠ unknown := by
      rintro rfl
      cases hfn
      cases hcall
    obtain rfl := getCommandFunction_eq hfn
    cases process_step hproc with
    | complete _ _ hcall' => cases hcall.symm.trans hcall'
    | scheduled _ _ _ hcall' hsched =>
      cases hcall.symm.trans hcall'
      rw [scheduleCommand, hslot] at hsched
      obtain ⟨time, htime, hsched⟩ := bind_eq_ok.1 hsched
      cases hsched
      refine ⟨(emptyCommandState_some hslot).1, hc, ?_, ?_⟩
      · dsimp only
        rw [Function.update_self]
      · dsimp only
        rw [Function.update_self]
        exact htime
  | @ticked fn s₁ _ hdue hfn hcall hid hc htick =>
    rw [tickCommand, hdue] at htick
    dsimp only at htick
    rw [tickSlot, hfn] at htick
    obtain ⟨r, hcall', htick⟩ := bind_eq_ok.1 htick
    cases hcall.symm.trans hcall'
    simp only [Bool.false_eq_true, if_false] at htick
    obtain ⟨time, htime, htick⟩ := bind_eq_ok.1 htick
    cases htick
    refine ⟨(dueCommandState_some hdue).1, hc, ?_, ?_⟩
    · dsimp only
      rw [Function.update_self]
      exact hid
    · dsimp only
      rw [Function.update_self]
      rw [← hid]
      exact htime

/-- The period is that of the row of the command. -/
theorem period_row (hp : getCommandTickPeriod c = .ok period) :
    ∃ row ∈ commandDefs, functionOf c = row.returnFunction ∧ period = row.tickTime := by
  obtain ⟨row, hrow, hp⟩ := bind_eq_ok.1 hp
  cases hp
  unfold commandDef at hrow
  split at hrow
  next row' hget =>
    cases hrow
    exact ⟨row, List.mem_of_getElem? hget, by rw [functionOf, hget], rfl⟩
  · cases hrow

/-- The periods of the table are 100 ms to 3 s. -/
theorem period_bounds (hp : getCommandTickPeriod c = .ok period) : 100 ≤ period ∧ period ≤ 3000 := by
  obtain ⟨row, hrow, -, rfl⟩ := period_row hp
  have hall : ∀ row ∈ commandDefs, 100 ≤ row.tickTime ∧ row.tickTime ≤ 3000 := by decide
  exact hall row hrow

/-- Every command but `SHUTDOWN` announces its period. -/
theorem announcedDelay_eq (hp : getCommandTickPeriod c = .ok period)
    (hshut : functionOf c ≠ .commandShutdown) : announcedDelay c period = period := by
  obtain ⟨row, hrow, hf, rfl⟩ := period_row hp
  unfold announcedDelay
  split
  next h => exact absurd h hshut
  next h =>
    have hall : ∀ row ∈ commandDefs, row.returnFunction = .commandReboot → 3000 = row.tickTime := by
      decide
    exact hall row hrow (hf.symm.trans h)
  · rfl

theorem Waits.deadline (h : Waits env s' i c) (hp : getCommandTickPeriod c = .ok period) :
    (s'.commandStates i).nextExecTime =
      wrap32 (getCurrentExecTime env.timeOfDayLater + period * 1000) := by
  have htime := h.time
  unfold getNextExecTime at htime
  rw [hp] at htime
  exact (Except.ok.inj htime).symm

end

/-! ## The clock -/

section
variable {clock wait : ℤ}

/-- A deadline that is not wrapped lies ahead until the wait is over. -/
theorem ahead_of_fits (h0 : -2 ^ 31 ≤ clock) (hfit : clock + wait < 2 ^ 31)
    {passed : ℤ} (hp0 : 0 ≤ passed) (hp : passed < wait) :
    ¬ wrap32 (clock + wait) < wrap32 (clock + passed) := by
  rw [wrap32_id (by omega) hfit, wrap32_id (by omega) (by omega)]
  omega

/-- A deadline that is wrapped lies behind at once. -/
theorem behind_of_wraps (h1 : clock < 2 ^ 31) (hw0 : 0 < wait) (hw : wait ≤ 3000000)
    (hwrap : 2 ^ 31 ≤ clock + wait) : wrap32 (clock + wait) < wrap32 (clock + 0) := by
  rw [wrap32_sub hwrap (by omega), wrap32_id (by omega) (by omega)]
  omega

/-- Behind the wait the deadline has passed, unless it is the last value of the
    clock. -/
theorem behind_of_over (h0 : -2 ^ 31 ≤ clock) (hw0 : 0 < wait) (hfit : clock + wait < 2 ^ 31 - 1) :
    wrap32 (clock + wait) < wrap32 (clock + (wait + 1)) := by
  rw [wrap32_id (by omega) (by omega), wrap32_id (by omega) (by omega)]
  omega

/-- No value of the clock is above the last one. -/
theorem ahead_of_last (hlast : clock + wait = 2 ^ 31 - 1) (passed : ℤ) :
    ¬ wrap32 (clock + wait) < wrap32 (clock + passed) := by
  have hlt := (wrap32_range (clock + passed)).2
  rw [hlast, wrap32_id (by omega) (by omega)]
  omega

end

/-! ## The step that waits -/

section
variable {env : Env} {s' : Server} {i : ℕ} {c : Command} {period : ℤ}

theorem execTime_passed (env later : Env) : getCurrentExecTime later.timeOfDay =
    wrap32 (getCurrentExecTime env.timeOfDayLater +
      (realTime later.timeOfDay - realTime env.timeOfDayLater)) := by
  rw [execTime_eq, execTime_eq]
  unfold wrap32
  rw [Int.bmod_add_bmod]
  congr 1
  omega

/-- A deadline that lies ahead is not due. -/
theorem Waits.not_invoked (h : Waits env s' i c) (hp : getCommandTickPeriod c = .ok period)
    {later : Env} {t : Server} (ht : t.commandStates i = s'.commandStates i)
    (hahead : ¬ wrap32 (getCurrentExecTime env.timeOfDayLater + period * 1000) <
      wrap32 (getCurrentExecTime env.timeOfDayLater +
        (realTime later.timeOfDay - realTime env.timeOfDayLater))) : ¬ Invokes later t i := by
  intro hinv
  obtain ⟨-, -, hdue⟩ := dueCommandState_some hinv
  rw [ht, h.deadline hp, execTime_passed env later] at hdue
  exact hahead hdue

/-- A slot is run if it is due and the others are empty. -/
theorem due_alone {st : CommandState} {time : ℤ} (hi : i < maxCommandStates)
    (hid : st.commandId ≠ unknown) (hdue : st.nextExecTime < time) :
    dueCommandState (Function.update (fun _ => .zero) i st) time = some i := by
  refine List.find?_range_eq_some.2 ⟨?_, List.mem_range.2 hi, fun j hj => ?_⟩
  · rw [decide_eq_true_iff, Function.update_self]
    exact ⟨hid, hdue⟩
  · rw [Bool.not_eq_true', decide_eq_false_iff_not, Function.update_of_ne (by omega)]
    exact fun hj => hj.1 rfl

/-- A deadline that lies behind is due in a table that holds nothing else. -/
theorem Waits.invoked (h : Waits env s' i c) (hp : getCommandTickPeriod c = .ok period) (passed : ℤ)
    (hbehind : wrap32 (getCurrentExecTime env.timeOfDayLater + period * 1000) <
      wrap32 (getCurrentExecTime env.timeOfDayLater + passed)) :
    ∃ (later : Env) (t : Server), t.commandStates i = s'.commandStates i ∧
      realTime later.timeOfDay = realTime env.timeOfDayLater + passed ∧ Invokes later t i := by
  refine ⟨{ env with timeOfDay := ⟨0, realTime env.timeOfDayLater + passed⟩ },
    { s' with commandStates := Function.update (fun _ => .zero) i (s'.commandStates i) },
    by dsimp only; rw [Function.update_self], by simp [realTime], ?_⟩
  have htime : getCurrentExecTime ⟨0, realTime env.timeOfDayLater + passed⟩ =
      wrap32 (getCurrentExecTime env.timeOfDayLater + passed) := by
    rw [execTime_passed env { env with timeOfDay := ⟨0, realTime env.timeOfDayLater + passed⟩ }]
    congr 2
    simp [realTime]
  refine due_alone h.lt (by rw [h.id]; exact h.known) ?_
  rw [h.deadline hp]
  dsimp only
  rw [htime]
  exact hbehind

/-- A step that waits is not run within its period exactly if its deadline is
    not wrapped. -/
theorem Waits.neverWithin_iff (h : Waits env s' i c) (hp : getCommandTickPeriod c = .ok period) :
    NeverWithin env s' i period ↔
      getCurrentExecTime env.timeOfDayLater + 1000 * period < 2 ^ 31 := by
  obtain ⟨hlow, hhigh⟩ := period_bounds hp
  have hclock : -2 ^ 31 ≤ getCurrentExecTime env.timeOfDayLater ∧
      getCurrentExecTime env.timeOfDayLater < 2 ^ 31 := wrap32_range _
  constructor
  · intro hnever
    by_contra hwrap
    obtain ⟨later, t, ht, htime, hinv⟩ := h.invoked hp 0
      (behind_of_wraps hclock.2 (by omega) (by omega) (by omega))
    exact hnever later t ht (by omega) (by omega) hinv
  · intro hfit later t ht hfrom hto
    exact h.not_invoked hp ht
      (ahead_of_fits hclock.1 (by omega) (by omega) (by omega))

/-- A delay longer than the period is kept only by the last value of the clock. -/
theorem Waits.neverWithin_longer (h : Waits env s' i c) (hp : getCommandTickPeriod c = .ok period)
    {ms : ℤ} (hms : period < ms) : NeverWithin env s' i ms ↔
      getCurrentExecTime env.timeOfDayLater + 1000 * period = 2 ^ 31 - 1 := by
  obtain ⟨hlow, hhigh⟩ := period_bounds hp
  have hclock : -2 ^ 31 ≤ getCurrentExecTime env.timeOfDayLater ∧
      getCurrentExecTime env.timeOfDayLater < 2 ^ 31 := wrap32_range _
  constructor
  · intro hnever
    have hshort : NeverWithin env s' i period := fun later t ht hfrom hto =>
      hnever later t ht hfrom (by omega)
    have hfit := (h.neverWithin_iff hp).1 hshort
    by_contra hlast
    obtain ⟨later, t, ht, htime, hinv⟩ := h.invoked hp (period * 1000 + 1)
      (behind_of_over hclock.1 (by omega) (by omega))
    exact hnever later t ht (by omega) (by omega) hinv
  · intro hlast later t ht _ _
    exact h.not_invoked hp ht (ahead_of_last (by omega) _)

end

/-- **A step that waits is never run early** exactly if the microsecond clock, as
    a signed value of 32 bits, does not reach `2^31` within the period.  The
    delay that was announced is kept under the same condition, but for
    `SHUTDOWN`, which announces more than its period: there only the last value
    of the clock keeps it. -/
theorem neverEarly_iff (env : Env) (s s' : Server) (i : ℕ) (c : Command) (period : ℤ)
    (hs : Schedules env s i c s') (hp : getCommandTickPeriod c = .ok period) :
    (NeverWithin env s' i period ↔
      wrap32 (realTime env.timeOfDayLater) + 1000 * period < 2 ^ 31) ∧
    (NeverWithin env s' i (announcedDelay c period) ↔
      if functionOf c = .commandShutdown then
        wrap32 (realTime env.timeOfDayLater) + 1000 * period = 2 ^ 31 - 1
      else wrap32 (realTime env.timeOfDayLater) + 1000 * period < 2 ^ 31) := by
  have hw := hs.waits
  obtain ⟨hlow, hhigh⟩ := period_bounds hp
  rw [← execTime_eq]
  refine ⟨hw.neverWithin_iff hp, ?_⟩
  split_ifs with hshut
  · have hdelay : announcedDelay c period = 10000 := by rw [announcedDelay, hshut]
    rw [hdelay]
    exact hw.neverWithin_longer hp (by omega)
  · rw [announcedDelay_eq hp hshut]
    exact hw.neverWithin_iff hp

/-- The outside world at a time. -/
def atTime (t : Timeval) : Env := { calmEnv with timeOfDay := t, timeOfDayLater := t }

/-- A `REBOOT` is stored in the last slot. -/
theorem schedules_reboot (t : Timeval) : ∃ s', Schedules (atTime t) (serverOf []) 19 7 s' :=
  ⟨_, .processed rfl rfl rfl rfl⟩

/-- An instance: a reboot asked for some hours after the start of the clock. -/
theorem neverEarly_reboot : ∃ s', Schedules (atTime ⟨20000, 5⟩) (serverOf []) 19 7 s' ∧
    NeverWithin (atTime ⟨20000, 5⟩) s' 19 3000 ∧
    NeverWithin (atTime ⟨20000, 5⟩) s' 19 (announcedDelay 7 3000) := by
  obtain ⟨s', hs⟩ := schedules_reboot ⟨20000, 5⟩
  obtain ⟨hperiod, hannounced⟩ := neverEarly_iff _ _ s' 19 7 3000 hs rfl
  exact ⟨s', hs, hperiod.2 (by decide), hannounced.2 (by decide)⟩

/-- The last microsecond before the clock wraps: the shutdown just announced is run
    by a tick at the same time. -/
theorem shutdown_early : let t : Timeval := ⟨1717989065, 883647⟩
    ∃ s₁ s₂, processCommand (atTime t) 2 (serverOf []) = .ok (true, s₁) ∧
      tickCommand (atTime t) s₁ = .ok s₂ ∧
      s₂.world.commands = [bytes "sudo /sbin/shutdown -h now"] ∧
      Schedules (atTime t) (serverOf []) 19 2 s₁ ∧ ¬ NeverWithin (atTime t) s₁ 19 3000 := by
  intro t
  have hs : Schedules (atTime t) (serverOf []) 19 2 _ := .processed rfl rfl rfl rfl
  refine ⟨_, _, rfl, rfl, rfl, hs, fun hnever => ?_⟩
  have hfit := (hs.waits.neverWithin_iff rfl).1 hnever
  exact absurd hfit (by decide)

end CpcLink
