/-
  The general commands and the file commands (command_general.c,
  command_file.c).

  A command returns whether it is complete, and the server.  The in queue is
  read past the name of the command.  `tick` counts the runs of a command that
  works in several steps.
-/
import CpcLink.Help

namespace CpcLink

/-- `VERSION` -/
def version : List BYTE := bytes "0.3"

/-! ## Commands of one answer -/

/-- `UNKNOWN`, and every id without a command of its own. -/
def commandUnknown (s : Server) : Bool × Server := (true, respond s (bytes "Unknown Command\n"))

/-- `PING` -/
def commandPing (s : Server) : Bool × Server := (true, respond s (bytes "PONG!\n"))

/-- `TIME`: `%02d:%02d:%02d` -/
def commandTime (env : Env) (s : Server) : Bool × Server :=
  let timeinfo := env.localtime
  (true, respond s (padded 2 timeinfo.tmHour ++ bytes ":" ++ padded 2 timeinfo.tmMin ++ bytes ":"
    ++ padded 2 timeinfo.tmSec ++ bytes "\n"))

/-- `DATE`: `%02d:%02d:%04d` -/
def commandDate (env : Env) (s : Server) : Bool × Server :=
  let timeinfo := env.localtime
  (true, respond s (padded 2 timeinfo.tmMday ++ bytes ":" ++ padded 2 (timeinfo.tmMon + 1)
    ++ bytes ":" ++ padded 4 (timeinfo.tmYear + 1900) ++ bytes "\n"))

/-- `queues_reset`, `memstore_reset` and `command_processor_init`; the transfer
    locks are left as they are. -/
def commandReset (s : Server) : Bool × Server :=
  let r := memstoreReset s.memstore s.world
  let s := { s with
    inQueue := initQueue s.inQueue, outQueue := initQueue s.outQueue
    memstore := r.1, world := r.2 }
  (true, respond (commandProcessorInit s) (bytes "OK\n"))

/-- `TRON`: debugging output on -/
def commandTron (s : Server) : Bool × Server := (true, respond { s with tron := true } (bytes "OK\n"))

/-- `TROFF`: and off again -/
def commandTroff (s : Server) : Bool × Server :=
  (true, respond { s with tron := false } (bytes "OK\n"))

/-- `VERSION` -/
def commandVersion (s : Server) : Bool × Server :=
  (true, respond s (bytes "MCP v" ++ version ++ bytes "\n"))

/-! ## Commands of two steps -/

/-- The answer goes out in the first step, the shutdown is run in the second. -/
def commandShutdown (env : Env) (s : Server) (tick : ℤ) : Bool × Server :=
  if tick = 0 then (false, respond s (bytes "SHUTDOWN IN 10 SECONDS\n"))
  else (true, { s with world := (system env s.world (bytes "sudo /sbin/shutdown -h now")).2 })

/-- `REBOOT`: the same -/
def commandReboot (env : Env) (s : Server) (tick : ℤ) : Bool × Server :=
  if tick = 0 then (false, respond s (bytes "Rebooting PI IN 3 SECONDS\n"))
  else (true, { s with world := (system env s.world (bytes "sudo /sbin/reboot")).2 })

/-! ## Help -/

/-- What a help function does to the server. -/
def sendHelp (s : Server) (helpFunction : HelpFunction) : Bool × Server :=
  let r := callHelpFunction helpFunction s.outQueue
  (r.1, { s with outQueue := r.2 })

/-- The help function of a table row. -/
def helpFunctionOf (commandId : Command) : HelpFunction :=
  match commandDefs[commandId]? with
  | some row => row.helpFunction
  | none => .commandUnknownHelp

/-- Whether there is a parameter is told from the byte before the read index. -/
def commandHelp (s : Server) : Bool × Server :=
  if isNewline (getPreviousReadByte s.inQueue) then sendHelp s (helpFunctionOf help)
  else
    let r := getCommandNextParamText s.inQueue maxCommandNameLength true
    let s := { s with inQueue := r.2.2 }
    if r.1 then
      let commandID := getCommandIDFromString r.2.1
      if commandID = unknown then sendHelp s (helpFunctionOf help)
      else sendHelp s (helpFunctionOf commandID)
    else sendHelp s (helpFunctionOf help)

/-! ## Commands of the shell -/

/-- The bytes that `fgetc` delivers for a file of this length, read after a seek
    to its start that may fail; past the end it delivers `EOF`, -1. -/
def fgetcAll (env : Env) (w : World) (file : File) : List BYTE :=
  if env.fseekSet then w.content file else List.replicate (w.content file).length 255

/-- The shell command whose output is the address. -/
def wifiCommand : List BYTE :=
  bytes "(ifconfig wlan0 | awk '/inet /\x7bprint substr($2,0)\x7d') > /tmp/wifi.tmp 2> /tmp/wifi.tmp"

/-- The file goes into a buffer of `MAX_WIFI_LINE_LENGTH` bytes without its newlines. -/
def commandWifiIp (env : Env) (s : Server) : Except Fault (Bool × Server) :=
  let r := system env s.world wifiCommand
  let s := { s with world := r.2 }
  if r.1 ≠ 0 then return (true, respond s (bytes "WIFI Unable to execute command.\n"))
  else
    match fopenRead env s.world (bytes "/tmp/wifi.tmp") with
    | (none, w) =>
      return (true, respond { s with world := w } (bytes "WIFI Unable to retrieve result.\n"))
    | (some file, w) =>
      let s := { s with world := fclose w file }
      if ¬ env.fseekEnd then
        return (true, respond s (bytes "WIFI Unable to retrieve result.\n"))
      else
        let fileBuffer := (fgetcAll env w file).filter fun ch => ¬ isNewline ch
        if fileBuffer.length < maxWifiLineLength then
          return (true, respond s (bytes "WIFI IP " ++ cString fileBuffer ++ bytes "\n"))
        else .error .buffer

/-- The loop over the result file of a shell command: `line` is what is in the
    result buffer.  `strlen` cuts a line at a NUL. -/
def shellResultLoop : List BYTE → List BYTE → Queue → Except Fault Queue
  | [], line, q =>
    if line.length > 0 then
      if line.length < maxShellLineLength then .ok (addDataToPacket q (cString line))
      else .error .buffer
    else .ok q
  | ch :: rest, line, q =>
    if isNewline ch ∨ ch = 13 then
      if line.length + 1 < maxShellLineLength then
        shellResultLoop rest [] (addDataToPacket q (cString (line ++ [13])))
      else .error .buffer
    else if line.length < maxShellLineLength then shellResultLoop rest (line ++ [ch]) q
    else .error .buffer

/-- The start of the answer. -/
def resultHeaderText : List BYTE := bytes "SHELLEXEC Shell Result\r\r"

/-- Send the result file.  The space is checked for the payload alone; the start
    of the packet, which needs space for its overhead too, may then fail and its
    result is not looked at. -/
def sendShellResult (q : Queue) (result : List BYTE) : Except Fault Queue := do
  let q := (startBuildDataPacket q (result.length + resultHeaderText.length + 1) textCommand).2
  let q := addDataToPacket q resultHeaderText
  let q ← shellResultLoop result [] q
  let q := addDataToPacket q (bytes "\n")
  return finishBuildDataPacketAndSend q

/-- `SHELLEXEC`: the result file goes out as it is; without space the command is run again later. -/
def commandShellexec (env : Env) (s : Server) : Except Fault (Bool × Server) :=
  let p := getAllCommandParamsText s.inQueue maxShellLineLength
  let s := { s with inQueue := p.2.2 }
  if p.1 = false then
    return (true, respond s (bytes "SHELLEXEC No shell command specified to run.\n"))
  else do
    let buffer ← bufferString maxShellLineLength p.2.1
    let shellCommand := buffer ++ bytes " > /tmp/shellexec.tmp 2> /tmp/shellexec.tmp"
    let r := system env s.world shellCommand
    let s := { s with world := r.2 }
    if r.1 ≠ 0 then return (true, respond s (bytes "SHELLEXEC Unable to execute command.\n"))
    else
      match fopenRead env s.world (bytes "/tmp/shellexec.tmp") with
      | (none, w) =>
        return (true,
          respond { s with world := w } (bytes "SHELLEXEC Unable to retrieve result.\n"))
      | (some file, w) =>
        let closed := { s with world := fclose w file }
        if ¬ env.fseekEnd then
          return (true, respond closed (bytes "SHELLEXEC Unable to retrieve result.\n"))
        else
          let fileSize := (w.content file).length
          if fileSize > queueSize / 4 then
            return (true, respond closed (bytes "SHELLEXEC Result to large to return.\n"))
          else if isQueueSpaceAvailable s.outQueue (fileSize + resultHeaderText.length + 1) then do
            let q ← sendShellResult s.outQueue (fgetcAll env w file)
            return (true, { closed with outQueue := q })
          else
            -- the file stays open
            return (false, { s with world := w })

/-! ## File commands, still to be written -/

/-- `GETFILE` -/
def commandGetFile (s : Server) : Bool × Server := (false, s)
/-- `PUTFILE` -/
def commandPutFile (s : Server) : Bool × Server := (false, s)
/-- `GETMEMFILE` -/
def commandGetMemFile (s : Server) : Bool × Server := (false, s)
/-- `PUTMEMFILE` -/
def commandPutMemFile (s : Server) : Bool × Server := (false, s)

end CpcLink
