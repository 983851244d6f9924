/-
  The main loop (mcp_pi.c).  One round takes a byte from the interface, puts a
  byte on it, looks for a packet to dispatch, and runs one step of a command
  that waits.
-/
import CpcLink.Processor

namespace CpcLink

/-- `MAX_COMMAND_WAIT` -/
@[simp] def maxCommandWait : ℕ := 20
/-- `MAX_TICK_WAIT` -/
@[simp] def maxTickWait : ℕ := 100

/-- The server and the main loop around it. -/
structure Mcp where
  server : Server
  /-- an `int`, here without a bound, as the next: no 2^31 rounds pass without a look -/
  packetCheckCounter : ℕ
  tickCheckCounter : ℕ
  /-- the bytes written to the interface so far -/
  written : List BYTE

/-- What the outside does in one round. -/
structure Input where
  /-- the byte at the interface, if `GET_DOR` -/
  dor : Option BYTE
  /-- `GET_DIR`: the interface takes a byte -/
  dir : Bool
  env : Env

/-! ## Bytes in and out -/

/-- The byte of the interface goes to `in_queue`, if there is one and a place for it. -/
def receiveByte (m : Mcp) (dor : Option BYTE) : Mcp :=
  match dor with
  | none => m
  | some b =>
    let s := m.server
    if numberFreeBytesInQueueToWriteToo s.inQueue > 0 then
      { m with server := { s with
          inQueue := storeByte s.inQueue b
          binaryDataReceiveMode := if s.binaryDataReceiveMode > 0 then s.binaryDataReceiveMode - 1
            else s.binaryDataReceiveMode } }
    else m

/-- A byte of `out_queue` goes to the interface, if it takes one. -/
def sendByte (m : Mcp) (dir : Bool) : Mcp :=
  let s := m.server
  if numberBytesInQueueToRead s.outQueue > 0 ∧ dir then
    { m with
      written := m.written ++ [getCurrentReadByte s.outQueue]
      server := { s with
        outQueue := incrementReadNextIndex s.outQueue 1
        binaryDataSendMode := if s.binaryDataSendMode > 0 then s.binaryDataSendMode - 1
          else s.binaryDataSendMode } }
  else m

/-! ## Dispatch -/

/-- How the dispatch of a packet ends. -/
inductive Outcome where
  /-- the command was processed -/
  | processed
  /-- a text command had no name -/
  | badText
  /-- the in queue was rewound to the packet -/
  | rewound
  /-- the packet is not of a command -/
  | ignored
  deriving DecidableEq, Repr

/-- After `process_command`: skip the end of the packet, or rewind to its start. -/
def finishDispatch (holdReadPointer : ℤ) (r : Bool × Server) : Outcome × Server :=
  if r.1 then
    (.processed, { r.2 with inQueue := queueSkipTerminatorOfPacket r.2.inQueue })
  else (.rewound, { r.2 with inQueue := { r.2.inQueue with readNextByte := holdReadPointer } })

def dispatchText (env : Env) (s : Server) : Except Fault (Outcome × Server) :=
  let holdReadPointer := s.inQueue.readNextByte
  let r := getCommandText s.inQueue
  let s := { s with inQueue := r.2.2 }
  if r.1 then do
    let p ← processCommand env (getCommandIDFromString r.2.1) s
    return finishDispatch holdReadPointer p
  else
    let s := respond s (bytes "Bad Text Command\n")
    return (.badText, { s with inQueue := queueSkipTerminatorOfPacket s.inQueue })

def dispatchBinary (env : Env) (s : Server) : Except Fault (Outcome × Server) :=
  let holdReadPointer := s.inQueue.readNextByte
  let r := getCommandBin s.inQueue
  do
    let p ← processCommand env r.1 { s with inQueue := r.2 }
    return finishDispatch holdReadPointer p

/-- The `switch` on the packet type. -/
def dispatch (env : Env) (s : Server) : Except Fault (Outcome × Server) :=
  if getPacketType s.inQueue = textCommand then dispatchText env s
  else if getPacketType s.inQueue = binaryCommand then dispatchBinary env s
  -- BinaryData, GraphicDirectives
  else return (.ignored, s)

/-- Poll the in queue and dispatch the packet found. -/
def pollAndDispatch (env : Env) (s : Server) : Except Fault Server := do
  let r := isCompletePacketAvailable s.inQueue
  let s := { s with inQueue := r.2 }
  if r.1 then return (← dispatch env s).2 else return s

/-! ## The loop -/

/-- No transfer of a data packet is under way. -/
def Unlocked (s : Server) : Prop := s.binaryDataReceiveMode = 0 ∧ s.binaryDataSendMode = 0

instance (s : Server) : Decidable (Unlocked s) := inferInstanceAs (Decidable (_ ∧ _))

/-- Every so many rounds a packet is looked for, unless a transfer is under way. -/
def checkPackets (env : Env) (m : Mcp) : Except Fault Mcp :=
  if m.packetCheckCounter ≥ maxCommandWait ∧ Unlocked m.server then do
    let s ← pollAndDispatch env m.server
    return { m with server := s, packetCheckCounter := 0 }
  else return { m with packetCheckCounter := m.packetCheckCounter + 1 }

/-- Every so many rounds the commands that wait are looked at, unless a transfer is under way. -/
def checkTicks (env : Env) (m : Mcp) : Except Fault Mcp :=
  if m.tickCheckCounter ≥ maxTickWait ∧ Unlocked m.server then do
    let s ← tickCommand env m.server
    return { m with server := s, tickCheckCounter := 0 }
  else return { m with tickCheckCounter := m.tickCheckCounter + 1 }

/-- One round of the main loop. -/
def mainLoop (input : Input) (m : Mcp) : Except Fault Mcp := do
  let m := sendByte (receiveByte m input.dor) input.dir
  let m ← checkPackets input.env m
  checkTicks input.env m

/-- The state the loop starts in.  Nothing is assumed of the memory next to the
    queues, of the files, and of the commands that were run before. -/
def initialMcp (inQueue outQueue : Queue) (memstore : Memstore) (world : World) : Mcp where
  server := {
    inQueue := initQueue inQueue
    outQueue := initQueue outQueue
    tron := true
    binaryDataReceiveMode := 0
    binaryDataSendMode := 0
    memstore := memstoreInit memstore
    commandStates := fun _ => .zero
    world := world }
  packetCheckCounter := 0
  tickCheckCounter := 0
  written := []

end CpcLink
