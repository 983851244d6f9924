/-
  Packets in a queue (packet.h, packet.c): recognising, reading and building
  them.  A packet is `+++`, two size bytes (low, high), a type byte, the
  payload and `---`; the size counts the two size bytes, the type and the
  payload.

  A function that works on a queue returns its result and the queue after it.
  Messages to the console are left out.
-/
import CpcLink.Queue

namespace CpcLink

/-! ## Sizes and types (mcp_pi.h) -/

/-- `PACKET_OVERHEAD` -/
@[simp] def packetOverhead : ℤ := 9
/-- `FRONT_PACKET_OVERHEAD` -/
@[simp] def frontPacketOverhead : ℤ := 3
/-- `FRONT_DELIMITER_OVERHEAD` -/
@[simp] def frontDelimiterOverhead : ℤ := 3
/-- `REAR_DELIMITER_OVERHEAD` -/
@[simp] def rearDelimiterOverhead : ℤ := 3
/-- `PACKET_DELIMITER_OVERHEAD` -/
@[simp] def packetDelimiterOverhead : ℤ := 6

/-- A packet type is whatever its byte says; the enumeration names five values. -/
abbrev PacketType := BYTE

/-- `UnknownPacket` -/
@[simp] def unknownPacket : PacketType := 0
/-- `TextCommand` -/
@[simp] def textCommand : PacketType := 1
/-- `BinaryCommand` -/
@[simp] def binaryCommand : PacketType := 2
/-- `BinaryData` -/
@[simp] def binaryData : PacketType := 3
/-- `GraphicDirectives` -/
@[simp] def graphicDirectives : PacketType := 4
/-- `MaxPacketType` -/
@[simp] def maxPacketType : PacketType := 5

/-- `"+++"` -/
def plusPlusPlus : List BYTE := [43, 43, 43]
/-- `"---"` -/
def minusMinusMinus : List BYTE := [45, 45, 45]

/-! ## Recognising a packet -/

def getPacketType (q : Queue) : PacketType := queueReadAheadByte q 5

def getPacketSize (q : Queue) : ℤ :=
  ((queueReadAheadByte q 3).toNat : ℤ) + (queueReadAheadByte q 4).toNat * 256

/-- The loop of `queue_skip_to_next_packet`; every round takes a byte off the
    queue, so the bytes to read bound the rounds. -/
def skipLoop : ℕ → Queue → List BYTE → Bool × Queue
  | 0, q, _ => (false, q)
  | n + 1, q, nextThreeBytes =>
    if nextThreeBytes = plusPlusPlus then (true, q)
    else
      match getNextThreeBytesFromQueue (incrementReadNextIndex q 1) with
      | none => (false, incrementReadNextIndex q 1)
      | some nextThreeBytes => skipLoop n (incrementReadNextIndex q 1) nextThreeBytes

def queueSkipToNextPacket (q : Queue) : Bool × Queue :=
  match getNextThreeBytesFromQueue q with
  | none => (false, q)
  | some nextThreeBytes => skipLoop (numberBytesInQueueToRead q).toNat q nextThreeBytes

def queueSkipTerminatorOfPacket (q : Queue) : Queue :=
  match getNextThreeBytesFromQueue q with
  | none => q
  | some nextThreeBytes =>
    if nextThreeBytes = minusMinusMinus then incrementReadNextIndex q rearDelimiterOverhead else q

def checkPacketForTerminator (q : Queue) (packetSize : ℤ) : Bool :=
  queueReadAheadByte q (frontDelimiterOverhead + packetSize) = 45 ∧
    queueReadAheadByte q (frontDelimiterOverhead + packetSize + 1) = 45 ∧
    queueReadAheadByte q (frontDelimiterOverhead + packetSize + 2) = 45

/-- A packet with a bad type or no terminator is discarded whole, once it has
    arrived; an incomplete one is left where it is. -/
def isCompletePacketAvailable (q : Queue) : Bool × Queue :=
  let r := queueSkipToNextPacket q
  if r.1 then
    let q := r.2
    if numberBytesInQueueToRead q ≥ frontDelimiterOverhead + frontPacketOverhead then
      if numberBytesInQueueToRead q ≥ getPacketSize q + packetDelimiterOverhead then
        if getPacketType q = unknownPacket ∨ getPacketType q ≥ maxPacketType then
          (false, incrementReadNextIndex q (getPacketSize q + packetDelimiterOverhead))
        else if checkPacketForTerminator q (getPacketSize q) = false then
          (false, incrementReadNextIndex q (getPacketSize q + packetDelimiterOverhead))
        else (true, q)
      else (false, q)
    else (false, q)
  else (false, r.2)

/-- Read `pageSize` payload bytes of the packet at the read index: success, the
    bytes, and the queue after them. -/
def getDataFromPacket (q : Queue) (pageSize : ℤ) : Bool × List BYTE × Queue :=
  let packetBodySize := getPacketSize q - frontPacketOverhead
  if packetBodySize ≥ pageSize then
    let r := readBytes pageSize.toNat
      (incrementReadNextIndex q (frontDelimiterOverhead + frontPacketOverhead))
    (true, r.1, r.2)
  else (false, [], q)

/-! ## Writing a packet -/

/-- `start_build_data_packet`; nothing is written if there is no space. -/
def startBuildDataPacket (q : Queue) (payloadSize : ℤ) (packetType : PacketType) : Bool × Queue :=
  if isQueueSpaceAvailable q (payloadSize + packetOverhead) then
    let packetSize := payloadSize + frontPacketOverhead
    let q := (writeDataToQueue q plusPlusPlus).2
    let q := (writeDataToQueue q [byte packetSize]).2
    let q := (writeDataToQueue q [byte (packetSize / 256)]).2
    let q := (writeDataToQueue q [packetType]).2
    (true, q)
  else (false, q)

def addDataToPacket (q : Queue) (data : List BYTE) : Queue := (writeDataToQueue q data).2

def addByteOfDataToPacket (q : Queue) (dataByte : BYTE) : Queue :=
  (writeByteOfDataToQueue q dataByte).2

/-- `add_3_bytes_of_data_to_packet`, `add_4_bytes_of_data_to_packet` and
    `add_5_bytes_of_data_to_packet` write their bytes one after the other. -/
def addBytesOfDataToPacket (q : Queue) (dataBytes : List BYTE) : Queue :=
  dataBytes.foldl addByteOfDataToPacket q

/-- The bytes of an `int`: high half (low byte, high byte), then low half. -/
def intBytes (value : ℤ) : List BYTE :=
  [byte (value / 2 ^ 16), byte (value / 2 ^ 24), byte value, byte (value / 2 ^ 8)]

def addIntToPacket (q : Queue) (value : ℤ) : Queue := addBytesOfDataToPacket q (intBytes value)

def finishBuildDataPacketAndSend (q : Queue) : Queue := (writeDataToQueue q minusMinusMinus).2

def writeDataToPacket (q : Queue) (data : List BYTE) (packetType : PacketType) : Bool × Queue :=
  if isQueueSpaceAvailable q (data.length + packetOverhead) then
    let packetSize := (data.length : ℤ) + frontPacketOverhead
    let q := (writeDataToQueue q plusPlusPlus).2
    let q := (writeDataToQueue q [byte packetSize]).2
    let q := (writeDataToQueue q [byte (packetSize / 256)]).2
    let q := (writeDataToQueue q [packetType]).2
    let q := (writeDataToQueue q data).2
    let q := (writeDataToQueue q minusMinusMinus).2
    (true, q)
  else (false, q)

end CpcLink
