/-
  The main loop on the pins (mcp_pi.c): `GET_DOR`, `GET_DIR`, `read_fifo_byte` and
  `write_fifo_byte` in the place of the bytes and flags that `mainLoop` is given.
-/
import CpcLink.Gpio
import CpcLink.Main

namespace CpcLink

/-- The program, and the pins. -/
structure Station where
  mcp : Mcp
  pi : PiSide

namespace Station

/-- `if((number_free_bytes_in_queue_to_write_too(&in_queue) > 0) && GET_DOR)` -/
def receive (sched : Schedule) (s : Station) : Station :=
  if numberFreeBytesInQueueToWriteToo s.mcp.server.inQueue > 0 then
    let dor := s.pi.access sched (.digitalRead pinDor)
    if dor.1 then
      let r := readFifoByte sched dor.2
      ⟨receiveByte s.mcp (some (UInt8.ofNat r.1)), r.2⟩
    else ⟨s.mcp, dor.2⟩
  else s

/-- `if((number_bytes_in_queue_to_read(&out_queue) > 0) && GET_DIR)` -/
def send (sched : Schedule) (s : Station) : Station :=
  if numberBytesInQueueToRead s.mcp.server.outQueue > 0 then
    let dir := s.pi.access sched (.digitalRead pinDir)
    if dir.1 then
      ⟨sendByte s.mcp true,
        dir.2.accesses sched (writeFifoByte (getCurrentReadByte s.mcp.server.outQueue))⟩
    else ⟨s.mcp, dir.2⟩
  else s

/-- One round of the loop. -/
def round (sched : Schedule) (env : Env) (s : Station) : Except Fault Station := do
  let s := (s.receive sched).send sched
  let m ← checkPackets env s.mcp
  let m ← checkTicks env m
  return ⟨m, s.pi⟩

/-- Where the loop starts. -/
def start (sched : Schedule) (gpio : Gpio) (m : Mcp) : Station :=
  ⟨m, PiSide.accesses sched ⟨gpio, 0⟩ setupPins⟩

/-- The state after some rounds. -/
def rounds (sched : Schedule) : List Env → Station → Except Fault Station
  | [], s => .ok s
  | env :: envs, s => do
    let s ← s.round sched env
    rounds sched envs s

end Station

end CpcLink
