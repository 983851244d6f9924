/-
  A program on the CPC, the two FIFOs of the board, and the server on the Pi.

  The program is given by its calls of `fifo_out_byte` and `get_byte_from_pi`.  As in the
  model of the client, a call of `fifo_out_byte` looks at the FIFO and writes later.  A call
  of `get_byte_from_pi` asks `fifo_in_byte` for a byte until there is one.

  The server is in its main loop: it receives, sends, and looks for something to do, in
  turn.  Between these the program acts as often as it likes.
-/
import CpcLink.Client
import CpcLink.Lib.Dialogue
import CpcLink.Main

namespace CpcLink

/-- The part of the main loop that comes next. -/
inductive LoopPart where
  | receive
  | send
  | check
  deriving DecidableEq

structure Line (ρ : Type) where
  talk : Talk BYTE ρ
  /-- what the call of `fifo_out_byte` that is under way has left to write -/
  pending : List BYTE
  toPi : Fifo
  toCpc : Fifo
  mcp : Mcp
  part : LoopPart

inductive LineEvent where
  /-- a call of `fifo_out_byte` reads the flag -/
  | look
  /-- it writes -/
  | write
  /-- a call of `get_byte_from_pi` asks for a byte -/
  | read
  /-- the server goes on to the next part of its loop -/
  | serve (env : Env)

namespace Line

variable {ρ : Type}

/-! ## The program -/

def look (s : Line ρ) : Line ρ :=
  match s.pending, s.talk with
  | [], .say b next => { s with talk := next, pending := (fifoOutByte s.toPi.dir b).2 }
  | _, _ => s

def write (s : Line ρ) : Line ρ :=
  match s.pending with
  | b :: pending => { s with pending := pending, toPi := s.toPi.write b }
  | [] => s

def read (s : Line ρ) : Line ρ :=
  match s.pending, s.talk, s.toCpc.bytes with
  | [], .hear next, b :: _ => { s with talk := next b, toCpc := s.toCpc.rest }
  | _, _, _ => s

/-! ## The server -/

/-- `if((number_free_bytes_in_queue_to_write_too(&in_queue) > 0) && GET_DOR)` -/
def receive (s : Line ρ) : Line ρ :=
  match s.toPi.bytes with
  | b :: _ =>
    if numberFreeBytesInQueueToWriteToo s.mcp.server.inQueue > 0 then
      { s with toPi := s.toPi.rest, mcp := receiveByte s.mcp (some b) }
    else s
  | [] => s

/-- `if((number_bytes_in_queue_to_read(&out_queue) > 0) && GET_DIR)` -/
def send (s : Line ρ) : Line ρ :=
  if numberBytesInQueueToRead s.mcp.server.outQueue > 0 ∧ s.toCpc.dir then
    { s with
      toCpc := s.toCpc.write (getCurrentReadByte s.mcp.server.outQueue)
      mcp := sendByte s.mcp true }
  else s

/-- The rest of the loop. -/
def checks (env : Env) (m : Mcp) : Except Fault Mcp := do
  let m ← checkPackets env m
  checkTicks env m

def serve (env : Env) (s : Line ρ) : Except Fault (Line ρ) :=
  match s.part with
  | .receive => .ok { s.receive with part := .send }
  | .send => .ok { s.send with part := .check }
  | .check => do return { s with mcp := ← checks env s.mcp, part := .receive }

def step (s : Line ρ) : LineEvent → Except Fault (Line ρ)
  | .look => .ok s.look
  | .write => .ok s.write
  | .read => .ok s.read
  | .serve env => s.serve env

/-- The program begins, with nothing in the FIFOs. -/
def start (talk : Talk BYTE ρ) (m : Mcp) : Line ρ := ⟨talk, [], .empty, .empty, m, .receive⟩

/-- A call looks at the FIFO, and it is full. -/
def FindsFull (s : Line ρ) : LineEvent → Prop
  | .look => s.pending = [] ∧ (∃ b next, s.talk = .say b next) ∧ s.toPi.dir = false
  | _ => False

end Line

end CpcLink
