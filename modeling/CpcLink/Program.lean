/-
  Programs on the CPC that are made of the functions of alloctest.

  They send a request, read the answer into their buffer, and go on.  alloctest itself creates
  an allocation, retrieves and stores its first page, and frees it, among other things.
-/
import CpcLink.Lib.Dialogue
import CpcLink.Client
import CpcLink.Reader

namespace CpcLink

variable {ρ : Type}

/-! ## The functions -/

/-- `send_bytes_to_pi` -/
def sendBytes (data : List BYTE) (next : Talk BYTE ρ) : Talk BYTE ρ :=
  .sayAll (sendBytesToPi (fun k => data.getD k 0) (UInt8.ofNat data.length)) next

/-- `send_binary_data_to_pi` -/
def sendBinaryData (data : List BYTE) (next : Talk BYTE ρ) : Talk BYTE ρ :=
  .sayAll (sendBinaryDataToPi (fun k => data.getD k 0) (UInt16.ofNat data.length)) next

/-- No call gets more bytes than these: a header, a message and a trailing delimiter. -/
def readFuel : ℕ := 6 + 2 ^ 16 + 3

/-- A function that reads gets bytes until it returns. -/
def Reader.talk (r : Reader) (next : (ℕ → BYTE) → Talk BYTE ρ) : ℕ → ReadState → Talk BYTE ρ
  | 0, s => next s.response
  | fuel + 1, s =>
    match s.stage with
    | .returned _ => next s.response
    | _ => .hear fun b => r.talk next fuel (r.take s b)

/-- A call of it, with the buffer. -/
def Reader.reads (r : Reader) (response : ℕ → BYTE) (next : (ℕ → BYTE) → Talk BYTE ρ) : Talk BYTE ρ :=
  r.talk next readFuel (.call response)

/-! ## Programs -/

/-- A program that works on allocations and their pages, and goes on as it likes. -/
inductive PageProgram (ρ : Type) where
  | done (result : ρ)
  /-- `CALLOC`; the id is in the answer -/
  | create (numberPages pageSizeInKb : ℤ) (next : ℤ → PageProgram ρ)
  /-- `SALLOC` -/
  | store (allocationId pageNumber : ℤ) (page : List BYTE) (next : PageProgram ρ)
  /-- `RALLOC` -/
  | retrieve (allocationId pageNumber : ℤ) (pageSize : ℕ) (next : List BYTE → PageProgram ρ)
  /-- `FALLOC` -/
  | free (allocationId : ℤ) (next : PageProgram ρ)

/-- Its calls, with the `response_buffer`; what it sends is in `output_buffer`. -/
def PageProgram.talk : PageProgram ρ → (ℕ → BYTE) → Talk BYTE ρ
  | .done result, _ => .done result
  | .create n kb next, response =>
    sendBytes [21, byte (n % 256), byte (n / 256), byte kb] <|
      allocReadResponseFromPi.reads response fun response => (next (response 1).toNat).talk response
  | .store i p page next, response =>
    sendBytes [24, byte i, byte (p % 256), byte (p / 256)] <| sendBinaryData page <|
      allocReadResponseFromPi.reads response fun response => next.talk response
  | .retrieve i p pageSize next, response =>
    sendBytes [23, byte i, byte (p % 256), byte (p / 256)] <|
      allocReadResponseFromPi.reads response fun response =>
        (readBinaryDataFromPi (UInt16.ofNat pageSize)).reads response fun response =>
          (next ((List.range pageSize).map response)).talk response
  | .free i next, response =>
    sendBytes [22, byte i] <|
      allocReadResponseFromPi.reads response fun response => next.talk response

end CpcLink
