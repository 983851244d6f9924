/-
  The memory store (memstore_manager.h, memstore_manager.c): up to twenty
  allocations of pages, addressed by their slot number.

  Slot 0 is never given out.  A slot is live when it holds its own number.
-/
import CpcLink.World

namespace CpcLink

/-- `MAX_MEMORY_ALLOCATIONS` -/
@[simp] def maxMemoryAllocations : ℤ := 21

/-- A slot of `memstore`. -/
structure MemoryAllocation where
  allocationId : ℤ
  numberPages : ℤ
  pageSize : ℤ
  fileId : Option File
  fileSize : ℤ
  /-- `none` is NULL -/
  data : Option (List BYTE)

/-- A slot after `memset` to 0. -/
def MemoryAllocation.zero : MemoryAllocation := ⟨0, 0, 0, none, 0, none⟩

/-- `memstore`, the slots 0 to 20. -/
abbrev Memstore := ℤ → MemoryAllocation

/-- All slots are cleared. -/
def memstoreInit (m : Memstore) : Memstore :=
  fun i => if 0 ≤ i ∧ i < maxMemoryAllocations then .zero else m i

/-- `memstore_reset` closes the files of the live slots and clears all slots. -/
def memstoreReset (m : Memstore) (w : World) : Memstore × World :=
  (memstoreInit m, (List.range 21).foldl (fun w (i : ℕ) =>
    if (m i).allocationId ≠ 0 then
      match (m i).fileId with
      | some file => fclose w file
      | none => w
    else w) w)

/-- The slot of an allocation id that is live. -/
def isAllocated (m : Memstore) (allocationId : ℤ) : Prop :=
  0 < allocationId ∧ allocationId < maxMemoryAllocations ∧
    (m allocationId).allocationId = allocationId

instance (m : Memstore) (allocationId : ℤ) : Decidable (isAllocated m allocationId) :=
  inferInstanceAs (Decidable (_ ∧ _ ∧ _))

/-- The size of a page in bytes, 0 without an allocation. -/
def memstoreGetPageSizeBytes (m : Memstore) (allocationId : ℤ) : ℤ :=
  if isAllocated m allocationId then (m allocationId).pageSize else 0

/-- The size of an allocation in bytes, 0 without one. -/
def memstoreGetAllocSizeBytes (m : Memstore) (allocationId : ℤ) : ℤ :=
  if isAllocated m allocationId then (m allocationId).pageSize * (m allocationId).numberPages
  else 0

/-- The first id that is not in use, or 0. -/
def getFreeMemoryAllocation (m : Memstore) : ℤ :=
  match (List.range 21).find? fun (i : ℕ) => 1 ≤ i ∧ (m i).allocationId = 0 with
  | some i => i
  | none => 0

/-- The id of the new allocation, or 0. -/
def memstoreCreateAllocationId (env : Env) (m : Memstore) (numberPages pageSizeInKb : ℤ) :
    ℤ × Memstore :=
  let allocationId := getFreeMemoryAllocation m
  if 0 < allocationId ∧ allocationId < maxMemoryAllocations then
    if env.calloc (numberPages * pageSizeInKb * 1024) then
      (allocationId, Function.update m allocationId
        { m allocationId with
          allocationId := allocationId
          numberPages := numberPages
          pageSize := pageSizeInKb * 1024
          data := some (List.replicate (numberPages * pageSizeInKb * 1024).toNat 0) })
    else (0, Function.update m allocationId .zero)
  else (allocationId, m)

/-- The lower bound of the id is not checked here, so id 0 finds the empty slot 0. -/
def memstoreFreeAllocationId (m : Memstore) (allocationId : ℤ) : Bool × Memstore :=
  if allocationId < maxMemoryAllocations then
    if (m allocationId).allocationId = allocationId then
      (true, Function.update m allocationId .zero)
    else (false, m)
  else (false, m)

/-- The offset of the page in the data and its size, or `none` when no bytes
    are returned. -/
def memstoreRetrievePageOfData (m : Memstore) (allocationId pageNumber : ℤ) :
    Option (ℤ × ℤ) :=
  if isAllocated m allocationId ∧ 0 ≤ pageNumber ∧ pageNumber < (m allocationId).numberPages then
    some (pageNumber * (m allocationId).pageSize, (m allocationId).pageSize)
  else none

/-- A page is stored, if there is one of this number. -/
def memstoreStorePageOfData (m : Memstore) (allocationId pageNumber : ℤ)
    (pageDataBuffer : List BYTE) : Except Fault (Bool × Memstore) :=
  if isAllocated m allocationId ∧ 0 ≤ pageNumber ∧ pageNumber < (m allocationId).numberPages then
    do
      let data ← memWrite (m allocationId).data (pageNumber * (m allocationId).pageSize)
        pageDataBuffer
      return (true, Function.update m allocationId { m allocationId with data := data })
  else return (false, m)

/-- The move copies up from the insertion point, then the new bytes go in. -/
def memstoreInsertData (m : Memstore) (allocationId insertAtIndex insertLength : ℤ)
    (insertData : List BYTE) : Except Fault (Bool × Memstore) :=
  let a := m allocationId
  if isAllocated m allocationId ∧ 0 ≤ insertAtIndex ∧ 0 < insertLength ∧
      wrap32 (insertAtIndex + insertLength) < a.numberPages * a.pageSize then
    do
      let bytesInAllocationToMove :=
        wrap32 (wrap32 (a.numberPages * a.pageSize - insertAtIndex) - insertLength)
      let moved ← memRead a.data insertAtIndex bytesInAllocationToMove
      let data ← memWrite a.data (wrap32 (insertAtIndex + insertLength)) moved
      let data ← memWrite data insertAtIndex insertData
      return (true, Function.update m allocationId { a with data := data })
  else return (false, m)

/-- The move copies down over the cut, then the top is cleared. -/
def memstoreCutData (m : Memstore) (allocationId cutAtIndex cutLength : ℤ) :
    Except Fault (Bool × Memstore) :=
  let a := m allocationId
  if isAllocated m allocationId ∧ 0 ≤ cutAtIndex ∧ 0 < cutLength ∧
      wrap32 (cutAtIndex + cutLength) < a.numberPages * a.pageSize then
    do
      let bytesInAllocationToMoveDown :=
        wrap32 (wrap32 (a.numberPages * a.pageSize - cutAtIndex) - cutLength)
      let byteIndexInAllocationToClear := wrap32 (a.numberPages * a.pageSize - cutLength)
      let moved ← memRead a.data (wrap32 (cutAtIndex + cutLength)) bytesInAllocationToMoveDown
      let data ← memWrite a.data cutAtIndex moved
      let data ← memWrite data byteIndexInAllocationToClear (List.replicate cutLength.toNat 0)
      return (true, Function.update m allocationId { a with data := data })
  else return (false, m)

/-- What `memstore_load_data` returns and sets. -/
structure LoadResult where
  readFileOk : Bool
  fileSize : ℤ
  fileToLarge : Bool
  memstore : Memstore
  world : World

/-- `memset(allocation->data, 0, number_pages * page_size)` -/
def clearData (a : MemoryAllocation) : Except Fault MemoryAllocation := do
  let data ← memWrite a.data 0 (List.replicate (a.numberPages * a.pageSize).toNat 0)
  return { a with data := data }

/-- The load itself, once the file is open: the slot and whether it succeeded,
    the file size, and whether the file was too large. -/
def readFile (env : Env) (w : World) (a : MemoryAllocation) (file : File) :
    Except Fault (Bool × ℤ × Bool × MemoryAllocation) :=
  if env.fseekEnd then
    let fileLength := (w.content file).length
    if fileLength ≤ a.numberPages * a.pageSize then
      if env.fseekSet then do
        let got := fread env w file fileLength
        let data ← memWrite a.data 0 got
        if got.length ≠ 0 then
          return (true, fileLength, false, { a with data := data, fileSize := fileLength })
        else return (false, 0, false, { a with data := data })
      else return (false, 0, false, a)
    else return (false, 0, true, a)
  else return (false, 0, false, a)

/-- A file left open by an earlier load is closed, and its data cleared. -/
def closeFile (a : MemoryAllocation) (w : World) : Except Fault (MemoryAllocation × World) :=
  match a.fileId with
  | some file => do
    let a ← clearData { a with fileId := none }
    return (a, fclose w file)
  | none => return (a, w)

/-- After a failure the file is closed and the data cleared; after a success
    the file stays open. -/
def memstoreLoadData (env : Env) (m : Memstore) (w : World) (allocationId : ℤ)
    (fileName : FileName) : Except Fault LoadResult :=
  if isAllocated m allocationId then do
    let (a, w) ← closeFile (m allocationId) w
    match fopenRead env w fileName with
    | (none, w) =>
      return ⟨false, 0, false, Function.update m allocationId { a with fileId := none }, w⟩
    | (some file, w) => do
      let (readFileOk, fileSize, fileToLarge, a) ←
        readFile env w { a with fileId := some file } file
      if readFileOk then
        return ⟨true, fileSize, false, Function.update m allocationId a, w⟩
      else do
        let a ← clearData { a with fileId := none }
        return ⟨false, fileSize, fileToLarge, Function.update m allocationId a, fclose w file⟩
  else return ⟨false, 0, false, m, w⟩

/-- The file is opened for writing, which empties it, before its size is
    checked against the allocation. -/
def memstoreSaveData (env : Env) (m : Memstore) (w : World) (allocationId : ℤ)
    (fileName : FileName) (fileSize : ℤ) : Except Fault (Bool × Memstore × World) :=
  if isAllocated m allocationId ∧ 0 < fileSize then
    let a := m allocationId
    let w := match a.fileId with
      | some file => fclose w file
      | none => w
    let closed := Function.update m allocationId { a with fileId := none }
    match fopenWrite env w fileName with
    | (none, w) => return (false, closed, w)
    | (some file, w) =>
      if fileSize ≤ a.numberPages * a.pageSize then do
        let data ← memRead a.data 0 fileSize
        let r := fwrite env w file data
        return (decide (r.1 ≠ 0), closed, fclose r.2 file)
      else return (false, closed, fclose w file)
  else return (false, m, w)

end CpcLink
