/-
  The memory commands (command_memory.c): binary commands that work on the
  allocations of the memory store.

  Every answer is built byte by byte: the command id, the allocation id or 0,
  what the command returns, and an error number.
-/
import CpcLink.Server

namespace CpcLink

/-! ## Allocations -/

/-- `CALLOC`: 1 to 9999 pages of 1 to 32 KB; error 1 for other parameters, 2 without memory. -/
def commandCreateAlloc (env : Env) (s : Server) : Bool × Server :=
  let p := getCommandNext16bitParamBin s.inQueue
  let allocPageNumber := p.1
  let p := getCommandNext8bitParamBin p.2
  let allocSizeInKb := p.1
  let s := { s with inQueue := p.2 }
  if allocSizeInKb = 0 ∨ allocSizeInKb > 32 then (true, respondBytes s createAlloc [0, 1])
  else if allocPageNumber = 0 ∨ allocPageNumber > 9999 then
    (true, respondBytes s createAlloc [0, 1])
  else
    let r := memstoreCreateAllocationId env s.memstore allocPageNumber allocSizeInKb
    let allocationId := r.1
    let s := { s with memstore := r.2 }
    if allocationId = 0 then (true, respondBytes s createAlloc [0, 2])
    else (true, respondBytes s createAlloc [allocationId, 0])

/-- `FALLOC` -/
def commandFreeAlloc (s : Server) : Bool × Server :=
  let p := getCommandNext8bitParamBin s.inQueue
  let allocationId := p.1
  let r := memstoreFreeAllocationId s.memstore allocationId
  let s := { s with inQueue := p.2, memstore := r.2 }
  if r.1 then (true, respondBytes s freeAlloc [allocationId, 0])
  else (true, respondBytes s freeAlloc [0, 1])

/-- A page goes out as a packet of its own behind the answer; when there is no
    space for both the command is not complete. -/
def commandRetrieveAlloc (s : Server) : Except Fault (Bool × Server) :=
  let p := getCommandNext8bitParamBin s.inQueue
  let allocationId := p.1
  let p := getCommandNext16bitParamBin p.2
  let allocPageNumber := p.1
  let s := { s with inQueue := p.2 }
  let answer (s : Server) (allocationId errorId : ℤ) :=
    respondBytes s retrieveAlloc [allocationId, allocPageNumber % 256, allocPageNumber / 256, errorId]
  if allocPageNumber > 9999 then return (true, answer s 0 1)
  else
    match memstoreRetrievePageOfData s.memstore allocationId allocPageNumber with
    | some (offset, bytesToRetrieve) =>
      if bytesToRetrieve > 0 then
        if isQueueSpaceAvailable s.outQueue
            (5 + packetOverhead + bytesToRetrieve + packetOverhead) then do
          let pageData ← memRead (s.memstore allocationId).data offset bytesToRetrieve
          let s := answer s allocationId 0
          let s := { s with outQueue := (writeDataToPacket s.outQueue pageData binaryData).2 }
          return (true, setBinaryDataSendLockMode s (bytesToRetrieve + packetOverhead))
        else return (false, s)
      else return (true, answer s 0 1)
    | none => return (true, answer s 0 1)

/-! ## Data from the client

The data comes in a packet behind the command.  While it is not complete the
command asks to be run again. -/

/-- A rejected command steps over the next byte and looks for a packet behind
    it, to skip the data packet that was meant for it. -/
def skipNextBinaryPacket (s : Server) : Server :=
  { s with inQueue := (queueSkipToNextPacket (incrementReadNextIndex s.inQueue 1)).2 }

/-- `SALLOC`: a page is stored, once its data packet is there. -/
def commandStoreAlloc (env : Env) (s : Server) : Except Fault (Bool × Server) :=
  let p := getCommandNext8bitParamBin s.inQueue
  let allocationId := p.1
  let p := getCommandNext16bitParamBin p.2
  let allocPageNumber := p.1
  let pageSize := memstoreGetPageSizeBytes s.memstore allocationId
  let s := { s with inQueue := queueSkipTerminatorOfPacket p.2 }
  let answer (s : Server) (allocationId errorId : ℤ) :=
    respondBytes s storeAlloc [allocationId, allocPageNumber % 256, allocPageNumber / 256, errorId]
  if env.calloc (pageSize + 1) = false then return (true, skipNextBinaryPacket (answer s 0 2))
  else if pageSize = 0 then return (true, skipNextBinaryPacket (answer s 0 1))
  else if allocPageNumber > 9999 then return (true, skipNextBinaryPacket (answer s 0 1))
  else
    let r := isCompletePacketAvailable s.inQueue
    let s := { s with inQueue := r.2 }
    if r.1 = false then
      return (false, setBinaryDataReceiveLockMode s (pageSize + packetOverhead))
    else
      let d := getDataFromPacket s.inQueue pageSize
      let s := { s with inQueue := d.2.2 }
      -- the packet is too short for a page: no answer is sent
      if d.1 = false then return (true, s)
      else do
        let w ← memstoreStorePageOfData s.memstore allocationId allocPageNumber d.2.1
        let s := { s with memstore := w.2 }
        if w.1 then return (true, answer s allocationId 0)
        else return (true, answer s 0 1)

/-- `IALLOC`: bytes are put in at a place, once their data packet is there. -/
def commandInsertAlloc (env : Env) (s : Server) : Except Fault (Bool × Server) :=
  let p := getCommandNext8bitParamBin s.inQueue
  let allocationId := p.1
  let p := getCommandNext32bitParamBin p.2
  let allocInsertAt := p.1
  let p := getCommandNext32bitParamBin p.2
  let allocInsertLength := p.1
  let s := { s with inQueue := queueSkipTerminatorOfPacket p.2 }
  let answer (s : Server) (allocationId errorId : ℤ) :=
    respondBytes s insertAlloc [allocationId, errorId]
  if env.calloc (wrap32 (allocInsertLength + 1)) = false then
    return (true, skipNextBinaryPacket (answer s 0 2))
  else if wrap32 (allocInsertAt + allocInsertLength) >
      memstoreGetAllocSizeBytes s.memstore allocationId then
    return (true, skipNextBinaryPacket (answer s 0 3))
  else
    let r := isCompletePacketAvailable s.inQueue
    let s := { s with inQueue := r.2 }
    if r.1 = false then
      return (false,
        setBinaryDataReceiveLockMode s (wrap32 (allocInsertLength + packetOverhead)))
    else
      let d := getDataFromPacket s.inQueue allocInsertLength
      let s := { s with inQueue := d.2.2 }
      -- the packet is too short for the insertion: no answer is sent
      if d.1 = false then return (true, s)
      else do
        let w ← memstoreInsertData s.memstore allocationId allocInsertAt allocInsertLength d.2.1
        let s := { s with memstore := w.2 }
        if w.1 then return (true, answer s allocationId 0)
        else return (true, answer s 0 1)

/-- `XALLOC`: bytes are cut out, and zeros come in at the end. -/
def commandCutAlloc (s : Server) : Except Fault (Bool × Server) :=
  let p := getCommandNext8bitParamBin s.inQueue
  let allocationId := p.1
  let p := getCommandNext32bitParamBin p.2
  let allocCutFrom := p.1
  let p := getCommandNext32bitParamBin p.2
  let allocCutLength := p.1
  let s := { s with inQueue := p.2 }
  if wrap32 (allocCutFrom + allocCutLength) >
      memstoreGetAllocSizeBytes s.memstore allocationId then
    return (true, respondBytes s cutAlloc [0, 2])
  else do
    let r ← memstoreCutData s.memstore allocationId allocCutFrom allocCutLength
    let s := { s with memstore := r.2 }
    if r.1 then return (true, respondBytes s cutAlloc [allocationId, 0])
    else return (true, respondBytes s cutAlloc [0, 1])

/-! ## Files -/

/-- The answer of `PILALLOC` has the file size between the allocation id and the
    error number. -/
def loadResponse (s : Server) (allocationId fileSize errorId : ℤ) : Server :=
  let q := (startBuildDataPacket s.outQueue 7 binaryCommand).2
  let q := addByteOfDataToPacket q (byte loadAlloc)
  let q := addByteOfDataToPacket q (byte allocationId)
  let q := addIntToPacket q fileSize
  let q := addByteOfDataToPacket q (byte errorId)
  { s with outQueue := finishBuildDataPacketAndSend q }

/-- `PILALLOC`: a file of the Pi is loaded; error 1 without a name, 3 when it is too large. -/
def commandLoadAlloc (env : Env) (s : Server) : Except Fault (Bool × Server) :=
  let p := getCommandNext8bitParamBin s.inQueue
  let allocationId := p.1
  let p := getAllCommandParamsText p.2 maxPathSizeText
  let s := { s with inQueue := p.2.2 }
  if p.1 = false then return (true, loadResponse s 0 0 1)
  else do
    let fileNameToLoad ← bufferString maxPathSizeText p.2.1
    let r ← memstoreLoadData env s.memstore s.world allocationId fileNameToLoad
    let s := { s with memstore := r.memstore, world := r.world }
    if r.readFileOk then return (true, loadResponse s allocationId r.fileSize 0)
    else if r.fileToLarge then return (true, loadResponse s 0 0 3)
    else return (true, loadResponse s 0 0 2)

/-- `PISALLOC`: a file of the Pi is written. -/
def commandSaveAlloc (env : Env) (s : Server) : Except Fault (Bool × Server) :=
  let p := getCommandNext8bitParamBin s.inQueue
  let allocationId := p.1
  let p := getCommandNext32bitParamBin p.2
  let fileSize := p.1
  let p := getAllCommandParamsText p.2 maxPathSizeText
  let s := { s with inQueue := p.2.2 }
  if p.1 = false then return (true, respondBytes s saveAlloc [0, 1])
  else do
    let fileNameToSave ← bufferString maxPathSizeText p.2.1
    let r ← memstoreSaveData env s.memstore s.world allocationId fileNameToSave fileSize
    let s := { s with memstore := r.2.1, world := r.2.2 }
    if r.1 then return (true, respondBytes s saveAlloc [allocationId, 0])
    else return (true, respondBytes s saveAlloc [0, 2])

end CpcLink
