/-
  The state of the server (the globals of mcp_pi.c, command_processor.c and
  memstore_manager.c) and what the commands share: the two transfer locks and
  the ways a command answers.
-/
import CpcLink.Command
import CpcLink.Memstore

namespace CpcLink

/-- `Command_State`: a command with another step to run. -/
structure CommandState where
  commandId : Command
  /-- `none` is NULL -/
  commandFunction : Option CommandFunction
  /-- an `int`, here without a bound: no entry is called 2^31 times -/
  nextTickCount : ℤ
  /-- in microseconds -/
  nextExecTime : ℤ

/-- A slot after `memset` to 0. -/
def CommandState.zero : CommandState := ⟨unknown, none, 0, 0⟩

/-- `MAX_COMMAND_STATES` -/
@[simp] def maxCommandStates : ℕ := 20

structure Server where
  inQueue : Queue
  outQueue : Queue
  tron : Bool
  /-- the receive lock: bytes still to arrive before packets are looked at -/
  binaryDataReceiveMode : ℤ
  /-- the send lock: bytes still to leave before packets are looked at -/
  binaryDataSendMode : ℤ
  memstore : Memstore
  commandStates : ℕ → CommandState
  world : World

/-- `memset` of the table; it has no more slots. -/
def commandProcessorInit (s : Server) : Server := { s with commandStates := fun _ => .zero }

/-! ## The transfer locks (built with `OPTIMISE_IO`) -/

def setBinaryDataReceiveLockMode (s : Server) (bytesToReceive : ℤ) : Server :=
  { s with binaryDataReceiveMode :=
      wrap32 (bytesToReceive - numberBytesInQueueToRead s.inQueue) }

/-- The bytes that wait in the *in*queue are added. -/
def setBinaryDataSendLockMode (s : Server) (bytesToSend : ℤ) : Server :=
  { s with binaryDataSendMode := wrap32 (bytesToSend + numberBytesInQueueToRead s.inQueue) }

/-! ## Answers -/

/-- Write a text answer to the client; without space for it nothing is written. -/
def respond (s : Server) (response : List BYTE) : Server :=
  { s with outQueue := (writeDataToPacket s.outQueue response textCommand).2 }

/-- Build a binary answer byte by byte.  The result of the start is not looked at. -/
def buildResponse (q : Queue) (payload : List BYTE) : Queue :=
  finishBuildDataPacketAndSend
    (addBytesOfDataToPacket (startBuildDataPacket q payload.length binaryCommand).2 payload)

/-- An answer of single bytes: the command id, then `params`. -/
def respondBytes (s : Server) (commandId : Command) (params : List ℤ) : Server :=
  { s with outQueue := buildResponse s.outQueue (byte commandId :: params.map byte) }

/-- `size_of_string_array`; the sum is an `int`. -/
def sizeOfStringArray (textArray : List (List BYTE)) : ℤ :=
  textArray.foldl (fun sizeOfArray text => wrap32 (sizeOfArray + (text.length : ℤ))) 0

/-- `write_out_help_text_array` -/
def writeOutHelpTextArray (q : Queue) (helpTextArray : List (List BYTE)) : Bool × Queue :=
  let responseSize := sizeOfStringArray helpTextArray
  let r := startBuildDataPacket q responseSize textCommand
  if r.1 then (true, finishBuildDataPacketAndSend (helpTextArray.foldl addDataToPacket r.2))
  else (false, r.2)

end CpcLink
