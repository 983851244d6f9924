/-
  What the client of the memory store sends (alloctest/src/main.c), and the FIFO
  through which it goes.

  Both functions call `fifo_out_byte` and do not look at its result, so they are
  given by the bytes of their calls, one after the other.  Messages to the console
  are left out.
-/
import CpcLink.Packet

namespace CpcLink

/-! ## The FIFO -/

/-- The bytes that it has room for. -/
def fifoSize : ℕ := 16

/-- The bytes on the way to the server. -/
structure Fifo where
  bytes : List BYTE
  fits : bytes.length ≤ fifoSize

namespace Fifo

def empty : Fifo := ⟨[], Nat.zero_le _⟩

/-- The flag of the FIFO: it takes a byte. -/
def dir (f : Fifo) : Bool := decide (f.bytes.length < fifoSize)

/-- A byte that is written to a full FIFO is lost. -/
def write (f : Fifo) (b : BYTE) : Fifo :=
  if h : f.bytes.length < fifoSize then ⟨f.bytes ++ [b], by rw [List.length_append]; exact h⟩ else f

/-- Without the first byte. -/
def rest (f : Fifo) : Fifo :=
  ⟨f.bytes.tail, by rw [List.length_tail]; exact (Nat.sub_le _ _).trans f.fits⟩

end Fifo

/-- What `fifo_out_byte` returns, by the flag that it finds, and the bytes that it
    writes. -/
def fifoOutByte (dir : Bool) (b : BYTE) : BYTE × List BYTE := if dir then (1, [b]) else (0, [])

/-! ## `send_bytes_to_pi` -/

/-- The loop, whose index is a `uint8_t`. -/
def sendBytesLoop (data : ℕ → BYTE) (sizeToSend index : UInt8) : List BYTE :=
  if index < sizeToSend then data index.toNat :: sendBytesLoop data sizeToSend (index + 1) else []
termination_by sizeToSend.toNat - index.toNat
decreasing_by
  have hlt : index.toNat < sizeToSend.toNat := UInt8.lt_iff_toNat_lt.1 ‹_›
  have := sizeToSend.toNat_lt
  rw [UInt8.toNat_add, show (1 : UInt8).toNat = 1 from rfl, Nat.mod_eq_of_lt (by omega)]
  omega

/-- A command, with its first byte at `data 0`. -/
def sendBytesToPi (data : ℕ → BYTE) (sizeToSend : UInt8) : List BYTE :=
  [43, 43, 43, UInt8.ofNat ((sizeToSend.toNat + 3) % 256), UInt8.ofNat ((sizeToSend.toNat + 3) / 256),
    2] ++ sendBytesLoop data sizeToSend 0 ++ [45, 45, 45]

/-! ## `send_binary_data_to_pi` -/

/-- The loop, whose index is a `uint16_t`. -/
def sendBinaryDataLoop (responseBuffer : ℕ → BYTE) (numberBytesToWrite index : UInt16) : List BYTE :=
  if index < numberBytesToWrite then
    responseBuffer index.toNat :: sendBinaryDataLoop responseBuffer numberBytesToWrite (index + 1)
  else []
termination_by numberBytesToWrite.toNat - index.toNat
decreasing_by
  have hlt : index.toNat < numberBytesToWrite.toNat := UInt16.lt_iff_toNat_lt.1 ‹_›
  have := numberBytesToWrite.toNat_lt
  rw [UInt16.toNat_add, show (1 : UInt16).toNat = 1 from rfl, Nat.mod_eq_of_lt (by omega)]
  omega

/-- A block of data. -/
def sendBinaryDataToPi (responseBuffer : ℕ → BYTE) (numberBytesToWrite : UInt16) : List BYTE :=
  let totalBytesToSend := numberBytesToWrite + 3
  [43, 43, 43, UInt8.ofNat (totalBytesToSend.toNat % 256), UInt8.ofNat (totalBytesToSend.toNat / 256),
    3] ++ sendBinaryDataLoop responseBuffer numberBytesToWrite 0 ++ [45, 45, 45]

end CpcLink
