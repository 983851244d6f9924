/-
  The command processor (command_processor.c): run a command, keep the ones
  that have another step to run, and run those steps when their time has come.
-/
import CpcLink.General
import CpcLink.Memory

namespace CpcLink

/-- `command_function(in_queue, out_queue, tick)` -/
def callFunction (env : Env) (s : Server) (tick : ℤ) :
    CommandFunction → Except Fault (Bool × Server)
  | .commandUnknown => .ok (commandUnknown s)
  | .commandPing => .ok (commandPing s)
  | .commandShutdown => .ok (commandShutdown env s tick)
  | .commandTime => .ok (commandTime env s)
  | .commandDate => .ok (commandDate env s)
  | .commandReset => .ok (commandReset s)
  | .commandHelp => .ok (commandHelp s)
  | .commandReboot => .ok (commandReboot env s tick)
  | .commandTron => .ok (commandTron s)
  | .commandTroff => .ok (commandTroff s)
  | .commandVersion => .ok (commandVersion s)
  | .commandWifiIp => commandWifiIp env s
  | .commandShellexec => commandShellexec env s
  | .commandCreateAlloc => .ok (commandCreateAlloc env s)
  | .commandFreeAlloc => .ok (commandFreeAlloc s)
  | .commandRetrieveAlloc => commandRetrieveAlloc s
  | .commandStoreAlloc => commandStoreAlloc env s
  | .commandInsertAlloc => commandInsertAlloc env s
  | .commandCutAlloc => commandCutAlloc s
  | .commandLoadAlloc => commandLoadAlloc env s
  | .commandSaveAlloc => commandSaveAlloc env s
  | .commandGetFile => .ok (commandGetFile s)
  | .commandPutFile => .ok (commandPutFile s)
  | .commandGetMemFile => .ok (commandGetMemFile s)
  | .commandPutMemFile => .ok (commandPutMemFile s)

/-! ## Time -/

/-- Microseconds in a `long` of 32 bits. -/
def getCurrentExecTime (current : Timeval) : ℤ :=
  wrap32 (current.tvUsec + wrap32 (current.tvSec * 1000000))

def getNextExecTime (env : Env) (commandId : Command) : Except Fault ℤ := do
  let commandTickTime := (← getCommandTickPeriod commandId) * 1000
  return wrap32 (getCurrentExecTime env.timeOfDayLater + commandTickTime)

/-! ## Running a command -/

/-- The search does not stop at the first empty slot, so it ends with the last. -/
def getEmptyCommandState (commandStates : ℕ → CommandState) : Option ℕ :=
  ((List.range maxCommandStates).filter fun i => (commandStates i).commandId = unknown).getLast?

/-- The commands that are read and run again from the in queue when they do not
    complete. -/
def isRetried (commandId : Command) : Bool :=
  commandId = retrieveAlloc ∨ commandId = shellExec ∨ commandId = storeAlloc ∨
    commandId = insertAlloc

/-- Any other command that does not complete waits for its tick; when the table
    is full it is dropped. -/
def scheduleCommand (env : Env) (s : Server) (commandId : Command)
    (returnFunction : CommandFunction) : Except Fault Server :=
  match getEmptyCommandState s.commandStates with
  | some i => do
    let nextExecTime ← getNextExecTime env commandId
    return { s with commandStates :=
      Function.update s.commandStates i ⟨commandId, some returnFunction, 1, nextExecTime⟩ }
  | none => return s

/-- Whether the command was processed; if not, the caller rewinds the in queue.
    No row of the table lacks a function. -/
def processCommand (env : Env) (commandId : Command) (s : Server) :
    Except Fault (Bool × Server) := do
  let returnFunction ← getCommandFunction commandId
  let outputSpaceRequired ← getCommandOutQueueSpaceRequired commandId
  if isQueueSpaceAvailable s.outQueue outputSpaceRequired = false then return (false, s)
  else
    let (functionCompleteState, s) ← callFunction env s 0 returnFunction
    if functionCompleteState then return (true, s)
    else if isRetried commandId then return (false, s)
    else return (true, ← scheduleCommand env s commandId returnFunction)

/-! ## Running a step later -/

/-- The first slot with a command whose time has come. -/
def dueCommandState (commandStates : ℕ → CommandState) (currentExecTime : ℤ) : Option ℕ :=
  (List.range maxCommandStates).find? fun i =>
    (commandStates i).commandId ≠ unknown ∧ (commandStates i).nextExecTime < currentExecTime

/-- Run the step of slot `i`, and free the slot or set its next time.  The slot
    is read again after the call. -/
def tickSlot (env : Env) (s : Server) (i : ℕ) : Except Fault Server :=
  match (s.commandStates i).commandFunction with
  | none => .error .commandTable
  | some commandFunction => do
    let (commandComplete, s) ← callFunction env s (s.commandStates i).nextTickCount commandFunction
    if commandComplete then
      return { s with commandStates := Function.update s.commandStates i .zero }
    else
      let current := s.commandStates i
      let nextExecTime ← getNextExecTime env current.commandId
      let waiting := { current with
        nextTickCount := current.nextTickCount + 1, nextExecTime := nextExecTime }
      return { s with commandStates := Function.update s.commandStates i waiting }

/-- At most one step is run. -/
def tickCommand (env : Env) (s : Server) : Except Fault Server :=
  match dueCommandState s.commandStates (getCurrentExecTime env.timeOfDay) with
  | some i => tickSlot env s i
  | none => .ok s

end CpcLink
