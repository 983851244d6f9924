/-
  How the C programs on the CPC read an answer (main.c of ping, alloctest and helptest).

  The three functions get a byte, store it, and go on with the next one.  They share the
  header and the trailing delimiter, and differ in the type they expect, in the width of
  their index, and in what they make of the message.

  A buffer is the memory from its address on, so a byte that is stored behind its end is
  still seen.
-/
import CpcLink.Packet

namespace CpcLink

/-- Where a function is when it waits for the next byte. -/
inductive ReadStage where
  /-- the bytes of `packet_header` so far -/
  | header (packetHeader : List BYTE)
  | message (index numberBytes : ℕ)
  | trailer (index : ℕ)
  /-- it has returned, after a complaint or without one -/
  | returned (wellFormed : Bool)
  deriving DecidableEq

/-- `packet_header[3] + (packet_header[4] * 256) - 3`, as a `uint16_t` -/
def headerSize (packetHeader : List BYTE) : UInt16 :=
  UInt16.ofNat ((packetHeader.getD 3 0).toNat + (packetHeader.getD 4 0).toNat * 256) - 3

/-- The loop over the message, at its head. -/
def messageLoop (index numberBytes : ℕ) : ReadStage :=
  if index < numberBytes then .message index numberBytes else .trailer 0

/-- The loop over the header, and the check behind it. -/
def headerLoop (packetType : PacketType) (numberBytes : UInt16 → UInt16) (packetHeader : List BYTE) :
    ReadStage :=
  if packetHeader.length < 6 then .header packetHeader
  else if packetHeader.take 3 = plusPlusPlus ∧ packetHeader.getD 5 0 = packetType then
    messageLoop 0 (numberBytes (headerSize packetHeader)).toNat
  else .returned false

/-- The loop over the trailing delimiter. -/
def trailerLoop (index : ℕ) : ReadStage := if index < 3 then .trailer index else .returned true

/-! ## One packet into a buffer -/

/-- A function that reads a packet into a buffer. -/
structure Reader where
  packetType : PacketType
  /-- how many values its index has -/
  indexes : ℕ
  /-- the bytes of the message that it reads, by those that there are -/
  numberBytes : UInt16 → UInt16

/-- `read_response_from_pi` of ping, and of the programs that differ from it by their command -/
def readResponseFromPi : Reader := ⟨textCommand, 2 ^ 8, id⟩

/-- `read_response_from_pi` of alloctest -/
def allocReadResponseFromPi : Reader := ⟨binaryCommand, 2 ^ 16, id⟩

/-- `read_binary_data_from_pi` -/
def readBinaryDataFromPi (numberBytesToRead : UInt16) : Reader :=
  ⟨binaryData, 2 ^ 16, fun _ => numberBytesToRead⟩

structure ReadState where
  stage : ReadStage
  response : ℕ → BYTE

/-- A call of the function. -/
def ReadState.call (response : ℕ → BYTE) : ReadState := ⟨.header [], response⟩

namespace Reader

/-- `get_byte_from_pi` has returned `b`. -/
def take (r : Reader) (s : ReadState) (b : BYTE) : ReadState :=
  match s.stage with
  | .header packetHeader =>
    { s with stage := headerLoop r.packetType r.numberBytes (packetHeader ++ [b]) }
  | .message index numberBytes =>
    { stage := messageLoop ((index + 1) % r.indexes) numberBytes
      response := Function.update s.response index b }
  | .trailer index => { s with stage := trailerLoop (index + 1) }
  | .returned _ => s

/-- The function on a stream: its state, and the bytes that it has left there. -/
def readFrom (r : Reader) (s : ReadState) : List BYTE → ReadState × List BYTE
  | [] => (s, [])
  | b :: rest =>
    match s.stage with
    | .returned _ => (s, b :: rest)
    | _ => readFrom r (r.take s b) rest

end Reader

/-- Calls one after the other, into one buffer. -/
def readAll : List Reader → (ℕ → BYTE) → List BYTE → List Bool × (ℕ → BYTE) × List BYTE
  | [], response, rest => ([], response, rest)
  | r :: rs, response, u =>
    let (s, rest) := r.readFrom (.call response) u
    match s.stage with
    | .returned wellFormed =>
      let (returns, response, rest) := readAll rs s.response rest
      (wellFormed :: returns, response, rest)
    | _ => ([], s.response, rest)

/-! ## Lines on the screen -/

/-- `BUFFER_LENGTH` of helptest -/
@[simp] def helptestBufferLength : ℕ := 127

def clearBuffer (response : ℕ → BYTE) : ℕ → BYTE := fun i => if i < helptestBufferLength then 0 else response i

/-- What `printf("%s")` writes. -/
def stringAt (response : ℕ → BYTE) : List BYTE :=
  ((List.range (2 ^ 16)).map response).takeWhile (· ≠ 0)

structure DisplayState where
  stage : ReadStage
  response : ℕ → BYTE
  /-- the lines on the screen -/
  printed : List (List BYTE)

/-- `read_and_display_response_from_pi`, when `get_byte_from_pi` has returned `b` -/
def displayTake (s : DisplayState) (b : BYTE) : DisplayState :=
  match s.stage with
  | .header packetHeader => { s with stage := headerLoop textCommand id (packetHeader ++ [b]) }
  | .message index numberBytes =>
    let response := Function.update s.response index b
    if b = 13 then
      { stage := messageLoop 0 (numberBytes - index - 1)
        response := clearBuffer response
        printed := s.printed ++ [stringAt response] }
    else { s with stage := messageLoop ((index + 1) % 2 ^ 8) numberBytes, response := response }
  | .trailer index => { s with stage := trailerLoop (index + 1) }
  | .returned _ => s

def displayFrom (s : DisplayState) : List BYTE → DisplayState × List BYTE
  | [] => (s, [])
  | b :: rest =>
    match s.stage with
    | .returned _ => (s, b :: rest)
    | _ => displayFrom (displayTake s b) rest

/-- The loop of helptest: answers one after the other. -/
def displayAll : ℕ → DisplayState → List BYTE → DisplayState × List BYTE
  | 0, s, u => (s, u)
  | calls + 1, s, u =>
    let (s, rest) := displayFrom { s with stage := .header [] } u
    match s.stage with
    | .returned _ => displayAll calls s rest
    | _ => (s, rest)

end CpcLink
