/-
  The queues between the interface and the commands (queue.h, queue.c).
-/
import CpcLink.Machine

namespace CpcLink

/-- `QUEUE_SIZE` -/
def queueSize : ℤ := 131070

/-- A queue.  `data` has a cell for every `int`: the array is the cells `0` to
    `queueSize - 1`, and an index outside of them reads the memory next to it. -/
structure Queue where
  data : ℤ → BYTE
  storeNextByte : ℤ
  readNextByte : ℤ

/-- `init_queue` clears the array and both indices. -/
def initQueue (q : Queue) : Queue where
  data := fun i => if 0 ≤ i ∧ i < queueSize then 0 else q.data i
  storeNextByte := 0
  readNextByte := 0

/-! ## Indices -/

def getCurrentReadByte (q : Queue) : BYTE := q.data q.readNextByte

/-- `queue_read_ahead_byte` -/
def queueReadAheadByte (q : Queue) (bytesAheadToRead : ℤ) : BYTE :=
  q.data ((q.readNextByte + bytesAheadToRead).tmod queueSize)

def storeToCurrentWriteByte (q : Queue) (valueToStore : BYTE) : Queue :=
  { q with data := Function.update q.data q.storeNextByte valueToStore }

def getPreviousReadByte (q : Queue) : BYTE :=
  if q.readNextByte = 0 then q.data (queueSize - 1) else q.data (q.readNextByte - 1)

/-- The `%` of C keeps the sign of the sum. -/
def incrementReadNextIndex (q : Queue) (numberBytes : ℤ) : Queue :=
  { q with readNextByte := (q.readNextByte + numberBytes).tmod queueSize }

def incrementStoreNextIndex (q : Queue) (numberBytes : ℤ) : Queue :=
  { q with storeNextByte := (q.storeNextByte + numberBytes).tmod queueSize }

def numberBytesInQueueToRead (q : Queue) : ℤ :=
  (queueSize + q.storeNextByte - q.readNextByte).tmod queueSize

def numberFreeBytesInQueueToWriteToo (q : Queue) : ℤ :=
  if q.storeNextByte = q.readNextByte then queueSize
  else (queueSize - q.storeNextByte + q.readNextByte).tmod queueSize

def isQueueSpaceAvailable (q : Queue) (spaceRequired : ℤ) : Bool :=
  if q.storeNextByte = q.readNextByte ∧ queueSize > spaceRequired then true
  else decide ((queueSize - q.storeNextByte + q.readNextByte).tmod queueSize ≥ spaceRequired)

/-! ## Reading and writing -/

/-- Read `n` bytes and step over them, the loop of `get_data_from_queue` and
    `get_data_from_packet`. -/
def readBytes : ℕ → Queue → List BYTE × Queue
  | 0, q => ([], q)
  | n + 1, q =>
    let r := readBytes n (incrementReadNextIndex q 1)
    (getCurrentReadByte q :: r.1, r.2)

/-- Store one byte and step over its cell. -/
def storeByte (q : Queue) (b : BYTE) : Queue :=
  incrementStoreNextIndex (storeToCurrentWriteByte q b) 1

/-- `get_data_from_queue`: success, the bytes read, and the queue after it. -/
def getDataFromQueue (q : Queue) (numberOfBytesRequired : ℤ) : Bool × List BYTE × Queue :=
  if numberBytesInQueueToRead q ≥ numberOfBytesRequired then
    let r := readBytes numberOfBytesRequired.toNat q
    (true, r.1, r.2)
  else (false, [], q)

def writeDataToQueue (q : Queue) (data : List BYTE) : Bool × Queue :=
  if numberFreeBytesInQueueToWriteToo q ≥ data.length then (true, data.foldl storeByte q)
  else (false, q)

def writeByteOfDataToQueue (q : Queue) (dataByte : BYTE) : Bool × Queue :=
  if numberFreeBytesInQueueToWriteToo q ≥ 1 then (true, storeByte q dataByte) else (false, q)

/-- `get_next_three_bytes_from_queue` reads ahead and leaves the queue as it is. -/
def getNextThreeBytesFromQueue (q : Queue) : Option (List BYTE) :=
  if numberBytesInQueueToRead q ≥ 3 then some (readBytes 3 q).1 else none

end CpcLink
