/-
  The command table and the readers of command names and parameters
  (command.h, command.c).

  Function pointers are named by `CommandFunction` and `HelpFunction`; what they
  run is `callFunction` and `callHelpFunction`, defined with the handlers.
-/
import CpcLink.Packet

namespace CpcLink

/-! ## The command table -/

/-- A command id: 0 to 32 for the commands of the table, and any other byte of
    a binary command. -/
abbrev Command := ℕ

/-- `Unknown` -/
@[simp] def unknown : Command := 0
/-- `Reset` -/
@[simp] def reset : Command := 5
/-- `Help` -/
@[simp] def help : Command := 6
/-- `ShellExec` -/
@[simp] def shellExec : Command := 12
/-- `CALLOC` -/
@[simp] def createAlloc : Command := 21
/-- `FALLOC` -/
@[simp] def freeAlloc : Command := 22
/-- `RALLOC` -/
@[simp] def retrieveAlloc : Command := 23
/-- `SALLOC` -/
@[simp] def storeAlloc : Command := 24
/-- `IALLOC` -/
@[simp] def insertAlloc : Command := 25
/-- `XALLOC` -/
@[simp] def cutAlloc : Command := 26
/-- `PILALLOC` -/
@[simp] def loadAlloc : Command := 27
/-- `PISALLOC` -/
@[simp] def saveAlloc : Command := 28
/-- `MaxCommands` -/
@[simp] def maxCommands : Command := 33

/-- `MAX_COMMAND_NAME_LENGTH` -/
@[simp] def maxCommandNameLength : ℕ := 30
/-- `MAX_WIFI_LINE_LENGTH` -/
@[simp] def maxWifiLineLength : ℕ := 100
/-- `MAX_SHELL_LINE_LENGTH` -/
@[simp] def maxShellLineLength : ℕ := 256
/-- `MAX_PATH_SIZE_TEXT` -/
@[simp] def maxPathSizeText : ℕ := 512

/-- The functions that run the commands. -/
inductive CommandFunction where
  | commandUnknown | commandPing | commandShutdown | commandTime | commandDate | commandReset
  | commandHelp | commandReboot | commandTron | commandTroff | commandVersion | commandWifiIp
  | commandShellexec
  | commandCreateAlloc | commandFreeAlloc | commandRetrieveAlloc | commandStoreAlloc
  | commandInsertAlloc | commandCutAlloc | commandLoadAlloc | commandSaveAlloc
  | commandGetFile | commandPutFile | commandGetMemFile | commandPutMemFile
  deriving DecidableEq, Repr

/-- The functions that send the help texts. -/
inductive HelpFunction where
  | commandUnknownHelp | commandPingHelp | commandShutdownHelp | commandTimeHelp | commandDateHelp
  | commandResetHelp | commandHelpHelp | commandRebootHelp | commandTronHelp | commandTroffHelp
  | commandVersionHelp | commandWifiIpHelp | commandShellexecHelp
  | commandCreateAllocHelp | commandFreeAllocHelp | commandRetrieveAllocHelp
  | commandStoreAllocHelp | commandInsertAllocHelp | commandCutAllocHelp | commandLoadAllocHelp
  | commandSaveAllocHelp
  | commandGetFileHelp | commandPutFileHelp | commandGetMemFileHelp | commandPutMemFileHelp
  deriving DecidableEq, Repr

/-- A row of `command_defs`: the out queue space is what the answer is said to need. -/
structure CommandDef where
  commandID : Command
  commandText : List BYTE
  returnFunction : CommandFunction
  helpFunction : HelpFunction
  /-- in milliseconds -/
  tickTime : ℤ
  outQueueSpace : ℤ

open CommandFunction HelpFunction in
/-- `command_defs` -/
def commandDefs : List CommandDef := [
  ⟨0, bytes "UNKNOWN", commandUnknown, commandUnknownHelp, 100, 30⟩,
  ⟨1, bytes "PING", commandPing, commandPingHelp, 100, 30⟩,
  ⟨2, bytes "SHUTDOWN", commandShutdown, commandShutdownHelp, 3000, 30⟩,
  ⟨3, bytes "TIME", commandTime, commandTimeHelp, 100, 30⟩,
  ⟨4, bytes "DATE", commandDate, commandDateHelp, 100, 30⟩,
  ⟨5, bytes "RESET", commandReset, commandResetHelp, 100, 30⟩,
  ⟨6, bytes "HELP", commandHelp, commandHelpHelp, 100, 1024⟩,
  ⟨7, bytes "REBOOT", commandReboot, commandRebootHelp, 3000, 30⟩,
  ⟨8, bytes "TRON", commandTron, commandTronHelp, 100, 30⟩,
  ⟨9, bytes "TROFF", commandTroff, commandTroffHelp, 100, 30⟩,
  ⟨10, bytes "VERSION", commandVersion, commandVersionHelp, 100, 30⟩,
  ⟨11, bytes "WIFIIP", commandWifiIp, commandWifiIpHelp, 100, maxWifiLineLength⟩,
  ⟨12, bytes "SHELLEXEC", commandShellexec, commandShellexecHelp, 100, 2048⟩,
  ⟨13, bytes "SPARE2", commandUnknown, commandUnknownHelp, 100, 30⟩,
  ⟨14, bytes "SPARE3", commandUnknown, commandUnknownHelp, 100, 30⟩,
  ⟨15, bytes "SPARE4", commandUnknown, commandUnknownHelp, 100, 30⟩,
  ⟨16, bytes "SPARE5", commandUnknown, commandUnknownHelp, 100, 30⟩,
  ⟨17, bytes "SPARE6", commandUnknown, commandUnknownHelp, 100, 30⟩,
  ⟨18, bytes "SPARE7", commandUnknown, commandUnknownHelp, 100, 30⟩,
  ⟨19, bytes "SPARE8", commandUnknown, commandUnknownHelp, 100, 30⟩,
  ⟨20, bytes "SPARE9", commandUnknown, commandUnknownHelp, 100, 30⟩,
  ⟨21, bytes "CALLOC", commandCreateAlloc, commandCreateAllocHelp, 100, 30⟩,
  ⟨22, bytes "FALLOC", commandFreeAlloc, commandFreeAllocHelp, 100, 30⟩,
  ⟨23, bytes "RALLOC", commandRetrieveAlloc, commandRetrieveAllocHelp, 500, 30⟩,
  ⟨24, bytes "SALLOC", commandStoreAlloc, commandStoreAllocHelp, 100, 30⟩,
  ⟨25, bytes "IALLOC", commandInsertAlloc, commandInsertAllocHelp, 100, 30⟩,
  ⟨26, bytes "XALLOC", commandCutAlloc, commandCutAllocHelp, 100, 30⟩,
  ⟨27, bytes "PILALLOC", commandLoadAlloc, commandLoadAllocHelp, 100, 30⟩,
  ⟨28, bytes "PISALLOC", commandSaveAlloc, commandSaveAllocHelp, 100, 30⟩,
  ⟨29, bytes "GETFILE", commandGetFile, commandGetFileHelp, 100, 30⟩,
  ⟨30, bytes "PUTFILE", commandPutFile, commandPutFileHelp, 100, 30⟩,
  ⟨31, bytes "GETMEMFILE", commandGetMemFile, commandGetMemFileHelp, 100, 30⟩,
  ⟨32, bytes "PUTMEMFILE", commandPutMemFile, commandPutMemFileHelp, 100, 30⟩]

/-- A row of the table; an id past its end reads whatever lies behind it. -/
def commandDef (commandId : Command) : Except Fault CommandDef :=
  match commandDefs[commandId]? with
  | some row => .ok row
  | none => .error .commandTable

/-- What runs a command. -/
def getCommandFunction (commandId : Command) : Except Fault CommandFunction := do
  return (← commandDef commandId).returnFunction

/-- The time between two steps of a command, in milliseconds. -/
def getCommandTickPeriod (commandId : Command) : Except Fault ℤ := do
  return (← commandDef commandId).tickTime

/-- The space that a command needs before it is run. -/
def getCommandOutQueueSpaceRequired (commandId : Command) : Except Fault ℤ := do
  return (← commandDef commandId).outQueueSpace

/-- The name of a command. -/
def getCommandNameFromId (commandId : Command) : Except Fault (List BYTE) := do
  return (← commandDef commandId).commandText

/-- The first row with this name, compared by `strcmp`. -/
def getCommandIDFromString (commandString : List BYTE) : Command :=
  match commandDefs.find? fun row => row.commandText = cString commandString with
  | some row => row.commandID
  | none => unknown

/-! ## Text commands -/

/-- A blank. -/
def isSpace (b : BYTE) : Bool := b = 32
/-- The end of a line. -/
def isNewline (b : BYTE) : Bool := b = 10

/-- The loop of `get_command_text`, `n` rounds before the name is full and
    `index` rounds after its start: whether the name was complete, the bytes
    copied, and the queue. -/
def commandNameLoop (packetBodySize : ℤ) : ℕ → ℕ → Queue → Bool × List BYTE × Queue
  | 0, _, q => (false, [], q)
  | n + 1, index, q =>
    if (index : ℤ) ≤ packetBodySize then
      let b := getCurrentReadByte q
      let q := incrementReadNextIndex q 1
      if (isSpace b ∨ isNewline b) ∧ index > 0 then (true, [], q)
      else
        let r := commandNameLoop packetBodySize n (index + 1) q
        (r.1, b :: r.2.1, r.2.2)
    else (false, [], q)

/-- Success, the command string, and the queue after the name and the byte that
    ends it. -/
def getCommandText (q : Queue) : Bool × List BYTE × Queue :=
  let q := incrementReadNextIndex q frontDelimiterOverhead
  let low := (getCurrentReadByte q).toNat
  let q := incrementReadNextIndex q 1
  let packetBodySize := ((getCurrentReadByte q).toNat * 256 + low : ℤ) - frontPacketOverhead
  let q := incrementReadNextIndex q 1
  let q := incrementReadNextIndex q 1
  if isNewline (getCurrentReadByte q) ∨ packetBodySize = 1 then
    (false, List.replicate maxCommandNameLength 0, incrementReadNextIndex q 1)
  else if packetBodySize = 0 then (false, List.replicate maxCommandNameLength 0, q)
  else
    let r := commandNameLoop packetBodySize maxCommandNameLength 0 q
    let index := r.2.1.length
    let commandString := r.2.1 ++ List.replicate (maxCommandNameLength - index) 0
    -- a name that is too long is skipped to the end of the body
    if index = maxCommandNameLength ∧ r.1 = false then
      (r.1, commandString, incrementReadNextIndex r.2.2 (packetBodySize - index))
    else (r.1, commandString, r.2.2)

/-- Copy the bytes before the first one that ends a parameter, at most `n`. -/
def paramLoop (ends : BYTE → Bool) : ℕ → Queue → List BYTE × Queue
  | 0, q => ([], q)
  | n + 1, q =>
    if ends (getCurrentReadByte q) then ([], q)
    else
      let r := paramLoop ends n (incrementReadNextIndex q 1)
      (getCurrentReadByte q :: r.1, r.2)

/-- Success, the bytes put in front of the zeros of the parameter's buffer, and
    the queue. -/
def getCommandNextParamText (q : Queue) (maxSizeOfParam : ℕ) (nlTerminated : Bool) :
    Bool × List BYTE × Queue :=
  let r := paramLoop (fun b => isSpace b || isNewline b) maxSizeOfParam q
  let index := r.1.length
  let b := getCurrentReadByte r.2
  if index = maxSizeOfParam ∧ ¬ isSpace b ∧ ¬ isNewline b then (false, [], r.2)
  else if isSpace b ∧ nlTerminated = false then (true, r.1, incrementReadNextIndex r.2 1)
  else if isNewline b ∧ nlTerminated = true then (true, r.1, incrementReadNextIndex r.2 1)
  else (false, [], r.2)

/-- The same for the rest of the line; a line that ends early is no error. -/
def getAllCommandParamsText (q : Queue) (maxSizeOfParam : ℕ) : Bool × List BYTE × Queue :=
  let r := paramLoop isNewline maxSizeOfParam q
  let b := getCurrentReadByte r.2
  if r.1.length = maxSizeOfParam ∧ ¬ isNewline b then (false, [], r.2)
  else if isNewline b then (true, r.1, incrementReadNextIndex r.2 1)
  else (true, r.1, r.2)

/-- The string in a buffer of `size` bytes that starts with `text` and is zero
    behind it; a full buffer need not hold a NUL. -/
def bufferString (size : ℕ) (text : List BYTE) : Except Fault (List BYTE) :=
  if text.length < size ∨ (0 : BYTE) ∈ text then .ok (cString text) else .error .buffer

/-! ## Binary commands -/

/-- The id behind the header, and the queue behind it. -/
def getCommandBin (q : Queue) : Command × Queue :=
  let q := incrementReadNextIndex q (frontDelimiterOverhead + frontPacketOverhead)
  ((getCurrentReadByte q).toNat, incrementReadNextIndex q 1)

/-- A byte. -/
def getCommandNext8bitParamBin (q : Queue) : ℤ × Queue :=
  ((getCurrentReadByte q).toNat, incrementReadNextIndex q 1)

/-- Two bytes, the low one first. -/
def getCommandNext16bitParamBin (q : Queue) : ℤ × Queue :=
  let b0 := (getCurrentReadByte q).toNat
  let q := incrementReadNextIndex q 1
  let b1 := (getCurrentReadByte q).toNat
  (b1 * 256 + b0, incrementReadNextIndex q 1)

/-- High half first, each half low byte first; the `unsigned` sum is cast to `int`. -/
def getCommandNext32bitParamBin (q : Queue) : ℤ × Queue :=
  let b0 := (getCurrentReadByte q).toNat
  let q := incrementReadNextIndex q 1
  let b1 := (getCurrentReadByte q).toNat
  let q := incrementReadNextIndex q 1
  let b2 := (getCurrentReadByte q).toNat
  let q := incrementReadNextIndex q 1
  let b3 := (getCurrentReadByte q).toNat
  (wrap32 (b3 * 256 + (b2 + (b1 * 256 + b0) * 2 ^ 16)), incrementReadNextIndex q 1)

end CpcLink
