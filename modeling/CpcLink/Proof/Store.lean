/-
  The invariant of the memory store: a live slot holds its own number, between
  1 and 9999 pages of at most 32 KB, and as much data as its pages take.
-/
import Mathlib.Algebra.Order.Ring.Int
import CpcLink.Memstore

namespace CpcLink

/-- A slot that was given out. -/
structure Live (i : ℤ) (a : MemoryAllocation) : Prop where
  id : a.allocationId = i
  pages : 1 ≤ a.numberPages ∧ a.numberPages ≤ 9999
  size : 1024 ≤ a.pageSize ∧ a.pageSize ≤ 32768
  data : ∃ d, a.data = some d ∧ (d.length : ℤ) = a.numberPages * a.pageSize

def SlotValid (i : ℤ) (a : MemoryAllocation) : Prop := a.allocationId = 0 ∨ Live i a

def StoreValid (m : Memstore) : Prop := ∀ i, 0 ≤ i → i < maxMemoryAllocations → SlotValid i (m i)

/-- The end of an insertion is past the numbers of 32 bits, so it passes for a
    place in front of the allocation. -/
def InsertWraps (m : Memstore) (i insertAtIndex insertLength : ℤ) : Prop :=
  isAllocated m i ∧ 0 ≤ insertAtIndex ∧ 0 < insertLength ∧ 2 ^ 31 ≤ insertAtIndex + insertLength

section
variable {m : Memstore} {i : ℤ} {a : MemoryAllocation}

theorem slotValid_zero (i : ℤ) : SlotValid i .zero := .inl rfl

theorem storeValid_init (m : Memstore) : StoreValid (memstoreInit m) := by
  intro i h0 h1
  rw [memstoreInit, if_pos ⟨h0, h1⟩]; exact slotValid_zero i

theorem StoreValid.live (hm : StoreValid m) (h : isAllocated m i) : Live i (m i) := by
  obtain ⟨h0, h1, hid⟩ := h
  exact (hm i h0.le h1).resolve_left (by omega)

theorem StoreValid.update (hm : StoreValid m) (ha : SlotValid i a) :
    StoreValid (Function.update m i a) := by
  intro j h0 h1
  by_cases hj : j = i
  · subst hj; rwa [Function.update_self]
  · rw [Function.update_of_ne hj]; exact hm j h0 h1

/-! ## Data of a slot -/

theorem memWrite_length {data data' : Option (List BYTE)} {off : ℤ} {src d : List BYTE}
    (h : memWrite data off src = .ok data') (hd : data = some d) :
    ∃ d', data' = some d' ∧ d'.length = d.length := by
  subst hd
  simp only [memWrite] at h
  split at h
  next hb =>
    cases h
    refine ⟨_, rfl, ?_⟩
    simp only [List.length_append, List.length_take, List.length_drop]; omega
  · cases h

/-- Writing into the data of a slot keeps it live. -/
theorem Live.write (ha : Live i a) {off : ℤ} {src : List BYTE} {data : Option (List BYTE)}
    (h : memWrite a.data off src = .ok data) : Live i { a with data := data } := by
  obtain ⟨d, hd, hl⟩ := ha.data
  obtain ⟨d', hd', hl'⟩ := memWrite_length h hd
  exact ⟨ha.id, ha.pages, ha.size, d', hd', by rw [hl', hl]⟩

theorem Live.withFile (ha : Live i a) (f : Option File) (n : ℤ) :
    Live i { a with fileId := f, fileSize := n } := ⟨ha.id, ha.pages, ha.size, ha.data⟩

theorem Live.clearData (ha : Live i a) {a' : MemoryAllocation} (h : clearData a = .ok a') :
    Live i a' := by
  obtain ⟨data, hd, h⟩ := bind_eq_ok.1 h
  cases h
  exact ha.write hd

/-- A page of a live slot lies in its data. -/
theorem Live.page (ha : Live i a) {p : ℤ} (h0 : 0 ≤ p) (hp : p < a.numberPages) :
    p * a.pageSize + a.pageSize ≤ a.numberPages * a.pageSize ∧ 0 ≤ p * a.pageSize := by
  have hs := ha.size
  refine ⟨?_, Int.mul_nonneg h0 (by omega)⟩
  calc p * a.pageSize + a.pageSize = (p + 1) * a.pageSize := by rw [Int.add_mul, Int.one_mul]
    _ ≤ a.numberPages * a.pageSize := Int.mul_le_mul_of_nonneg_right (by omega) (by omega)

/-- Cells that lie in the data of a live slot are read and written. -/
theorem Live.memRead_ok (ha : Live i a) {off n : ℤ} (h0 : 0 ≤ off) (hn : 0 ≤ n)
    (hle : off + n ≤ a.numberPages * a.pageSize) :
    ∃ d, memRead a.data off n = .ok d ∧ (d.length : ℤ) = n := by
  obtain ⟨d, hd, hl⟩ := ha.data
  rw [hd, memRead, if_pos ⟨h0, hn, by omega⟩]
  refine ⟨_, rfl, ?_⟩
  rw [List.length_take, List.length_drop]; omega

theorem Live.memWrite_ok (ha : Live i a) {off : ℤ} {src : List BYTE} (h0 : 0 ≤ off)
    (hle : off + src.length ≤ a.numberPages * a.pageSize) :
    ∃ data, memWrite a.data off src = .ok data := by
  obtain ⟨d, hd, hl⟩ := ha.data
  rw [hd, memWrite, if_pos ⟨h0, by omega⟩]
  exact ⟨_, rfl⟩

theorem Live.size_le (ha : Live i a) :
    0 ≤ a.numberPages * a.pageSize ∧ a.numberPages * a.pageSize < 2 ^ 30 := by
  have hp := ha.pages
  have hs := ha.size
  constructor
  · exact Int.mul_nonneg (by omega) (by omega)
  · have := Int.mul_le_mul hp.2 hs.2 (by omega) (by omega)
    omega

/-- The move of an insertion whose end wraps leaves the allocation. -/
theorem Live.memRead_wraps (ha : Live i a) {at_ n : ℤ} (hat : at_ < 2 ^ 31) (hn : n < 2 ^ 31)
    (hw : 2 ^ 31 ≤ at_ + n) :
    ∃ e, memRead a.data at_ (wrap32 (a.numberPages * a.pageSize - at_ - n)) = .error e := by
  obtain ⟨d, hd, hl⟩ := ha.data
  have hsize := ha.size_le
  refine ⟨.allocation, ?_⟩
  rw [hd, memRead, if_neg]
  rintro ⟨-, hlen, hle⟩
  rw [hl] at hle
  rcases le_or_gt (-2 ^ 31) (a.numberPages * a.pageSize - at_ - n) with hge | hlt
  · rw [wrap32_id hge (by omega)] at hlen; omega
  · rw [wrap32_add (by omega) hlt] at hle; omega

/-- A page that is found can be read. -/
theorem StoreValid.retrieve (hm : StoreValid m) {p off n : ℤ}
    (h : memstoreRetrievePageOfData m i p = some (off, n)) :
    1024 ≤ n ∧ n ≤ 32768 ∧ ∃ d, memRead (m i).data off n = .ok d ∧ (d.length : ℤ) = n := by
  unfold memstoreRetrievePageOfData at h
  split at h
  swap
  · cases h
  next ha =>
    obtain ⟨hi, h0, hp⟩ := ha
    obtain ⟨rfl, rfl⟩ : p * (m i).pageSize = off ∧ (m i).pageSize = n := by simpa using h
    have hl := hm.live hi
    obtain ⟨hend, hoff⟩ := hl.page h0 hp
    have hs := hl.size
    exact ⟨hs.1, hs.2, hl.memRead_ok hoff (by omega) (by omega)⟩

/-! ## The file of a slot -/

theorem clearData_frame {a' : MemoryAllocation} (h : clearData a = .ok a') :
    a'.allocationId = a.allocationId ∧ a'.fileId = a.fileId := by
  obtain ⟨data, -, h⟩ := bind_eq_ok.1 h
  cases h
  exact ⟨rfl, rfl⟩

theorem readFile_frame {env : Env} {w : World} {file : File} {ok large : Bool} {size : ℤ}
    {a' : MemoryAllocation} (h : readFile env w a file = .ok (ok, size, large, a')) :
    a'.allocationId = a.allocationId ∧ a'.fileId = a.fileId := by
  unfold readFile at h
  dsimp only at h
  split at h
  · split at h
    · split at h
      · obtain ⟨data, -, h⟩ := bind_eq_ok.1 h
        split at h <;> cases h <;> exact ⟨rfl, rfl⟩
      · cases h; exact ⟨rfl, rfl⟩
    · cases h; exact ⟨rfl, rfl⟩
  · cases h; exact ⟨rfl, rfl⟩

/-- The world after the file of a slot was closed, if it had one. -/
def closeIfOpen (w : World) : Option File → World
  | some file => fclose w file
  | none => w

@[simp] theorem closeIfOpen_some (w : World) (file : File) :
    closeIfOpen w (some file) = fclose w file := rfl

@[simp] theorem closeIfOpen_none (w : World) : closeIfOpen w none = w := rfl

theorem closeFile_spec {w w' : World} (h : closeFile (m i) w = .ok (a, w')) :
    a.allocationId = (m i).allocationId ∧ a.fileId = none ∧ w' = closeIfOpen w (m i).fileId := by
  unfold closeFile at h
  split at h
  next file hf =>
    obtain ⟨a', hc, h⟩ := bind_eq_ok.1 h
    cases h
    obtain ⟨hid, hfile⟩ := clearData_frame hc
    exact ⟨hid, hfile, by rw [hf, closeIfOpen_some]⟩
  next hf =>
    cases h
    exact ⟨rfl, hf, by rw [hf, closeIfOpen_none]⟩

/-! ## The operations -/

theorem memstoreCreate_valid (env : Env) (hm : StoreValid m) {pages kb : ℤ} (hp : 1 ≤ pages)
    (hp' : pages ≤ 9999) (hk : 1 ≤ kb) (hk' : kb ≤ 32) :
    StoreValid (memstoreCreateAllocationId env m pages kb).2 := by
  unfold memstoreCreateAllocationId
  dsimp only
  split_ifs with h1 h2
  · refine hm.update (.inr ⟨rfl, ⟨hp, hp'⟩, ⟨?_, ?_⟩, _, rfl, ?_⟩)
    · simp only; omega
    · simp only; omega
    · have : 0 ≤ pages * kb * 1024 := Int.mul_nonneg (Int.mul_nonneg (by omega) (by omega)) (by omega)
      rw [List.length_replicate, Int.toNat_of_nonneg this, Int.mul_assoc]
  · exact hm.update (slotValid_zero _)
  · exact hm

theorem memstoreFree_valid (hm : StoreValid m) (i : ℤ) :
    StoreValid (memstoreFreeAllocationId m i).2 := by
  unfold memstoreFreeAllocationId
  split_ifs
  · exact hm.update (slotValid_zero _)
  · exact hm
  · exact hm

theorem memstoreStore_valid (hm : StoreValid m) {p : ℤ} {data : List BYTE} {r : Bool × Memstore}
    (h : memstoreStorePageOfData m i p data = .ok r) : StoreValid r.2 := by
  unfold memstoreStorePageOfData at h
  split at h
  next ha =>
    obtain ⟨data, hd, h⟩ := bind_eq_ok.1 h
    cases h
    exact hm.update (.inr ((hm.live ha.1).write hd))
  · cases h; exact hm

theorem memstoreInsert_valid (hm : StoreValid m) {at_ n : ℤ} {data : List BYTE} {r : Bool × Memstore}
    (h : memstoreInsertData m i at_ n data = .ok r) : StoreValid r.2 := by
  unfold memstoreInsertData at h
  dsimp only at h
  split at h
  next ha =>
    obtain ⟨moved, _, h⟩ := bind_eq_ok.1 h
    obtain ⟨data, hd, h⟩ := bind_eq_ok.1 h
    obtain ⟨data', hd', h⟩ := bind_eq_ok.1 h
    cases h
    exact hm.update (.inr (((hm.live ha.1).write hd).write hd'))
  · cases h; exact hm

theorem memstoreCut_valid (hm : StoreValid m) {at_ n : ℤ} {r : Bool × Memstore}
    (h : memstoreCutData m i at_ n = .ok r) : StoreValid r.2 := by
  unfold memstoreCutData at h
  dsimp only at h
  split at h
  next ha =>
    obtain ⟨moved, _, h⟩ := bind_eq_ok.1 h
    obtain ⟨data, hd, h⟩ := bind_eq_ok.1 h
    obtain ⟨data', hd', h⟩ := bind_eq_ok.1 h
    cases h
    exact hm.update (.inr (((hm.live ha.1).write hd).write hd'))
  · cases h; exact hm

theorem readFile_live (ha : Live i a) {env : Env} {w : World} {file : File}
    {r : Bool × ℤ × Bool × MemoryAllocation} (h : readFile env w a file = .ok r) :
    Live i r.2.2.2 := by
  unfold readFile at h
  dsimp only at h
  split at h
  · split at h
    · split at h
      · obtain ⟨data, hd, h⟩ := bind_eq_ok.1 h
        split at h <;> cases h
        · exact (ha.write hd).withFile _ _
        · exact ha.write hd
      · cases h; exact ha
    · cases h; exact ha
  · cases h; exact ha

theorem memstoreLoad_valid (hm : StoreValid m) {env : Env} {w : World} {name : FileName}
    {r : LoadResult} (h : memstoreLoadData env m w i name = .ok r) : StoreValid r.memstore := by
  unfold memstoreLoadData at h
  split at h
  swap
  · cases h; exact hm
  next ha =>
  have hl := hm.live ha
  obtain ⟨⟨a, w'⟩, h1, h⟩ := bind_eq_ok.1 h
  -- the slot after the file of an earlier load was closed
  have hl' : Live i a := by
    unfold closeFile at h1
    split at h1
    · obtain ⟨a', ha', h1⟩ := bind_eq_ok.1 h1
      cases h1
      exact (hl.withFile none _).clearData ha'
    · cases h1; exact hl
  dsimp only at h
  split at h
  · cases h; exact hm.update (.inr (hl'.withFile none _))
  · obtain ⟨⟨ok, size, large, a'⟩, hr, h⟩ := bind_eq_ok.1 h
    have hl'' := readFile_live (hl'.withFile _ _) hr
    dsimp only at h
    split at h
    · cases h; exact hm.update (.inr hl'')
    · obtain ⟨a'', hc, h⟩ := bind_eq_ok.1 h
      cases h
      exact hm.update (.inr ((hl''.withFile none _).clearData hc))

theorem memstoreSave_valid (hm : StoreValid m) {env : Env} {w : World} {name : FileName} {n : ℤ}
    {r : Bool × Memstore × World} (h : memstoreSaveData env m w i name n = .ok r) :
    StoreValid r.2.1 := by
  unfold memstoreSaveData at h
  split at h
  swap
  · cases h; exact hm
  next ha =>
  have hu : StoreValid (Function.update m i { m i with fileId := none }) :=
    hm.update (.inr ((hm.live ha.1).withFile none _))
  dsimp only at h
  split at h
  · cases h; exact hu
  · split at h
    · obtain ⟨data, _, h⟩ := bind_eq_ok.1 h
      cases h; exact hu
    · cases h; exact hu

/-! ## Writing outside an allocation -/

/-- A page of data for a page of the store. -/
theorem memstoreStore_ok (hm : StoreValid m) {p : ℤ} {data : List BYTE}
    (hl : (data.length : ℤ) = memstoreGetPageSizeBytes m i) :
    ∃ r, memstoreStorePageOfData m i p data = .ok r := by
  unfold memstoreStorePageOfData
  split
  next h =>
    obtain ⟨hi, h0, hp⟩ := h
    have ha := hm.live hi
    rw [memstoreGetPageSizeBytes, if_pos hi] at hl
    obtain ⟨hle, hoff⟩ := ha.page h0 hp
    obtain ⟨d, hd⟩ : ∃ d, memWrite (m i).data (p * (m i).pageSize) data = .ok d :=
      ha.memWrite_ok hoff (by omega)
    rw [hd]
    exact ⟨_, rfl⟩
  · exact ⟨_, rfl⟩

/-- An insertion leaves the allocation exactly if its end wraps. -/
theorem memstoreInsert_faults (hm : StoreValid m) {at_ n : ℤ} {data : List BYTE} (hat : at_ < 2 ^ 31)
    (hn : n < 2 ^ 31) (hl : (data.length : ℤ) = max n 0) :
    (∃ e, memstoreInsertData m i at_ n data = .error e) ↔ InsertWraps m i at_ n := by
  unfold memstoreInsertData InsertWraps
  dsimp only
  constructor
  · rintro ⟨e, he⟩
    split at he
    swap
    · cases he
    next h =>
    obtain ⟨hi, h0, hpos, hlt⟩ := h
    refine ⟨hi, h0, hpos, ?_⟩
    by_contra hno
    -- without the wrap every cell lies in the allocation
    have ha := hm.live hi
    have hsize := ha.size_le
    rw [wrap32_id (x := at_ + n) (by omega) (by omega)] at hlt he
    rw [wrap32_sub_left, wrap32_id (by omega) (by omega)] at he
    obtain ⟨moved, hmoved, hlen⟩ := ha.memRead_ok h0
      (n := (m i).numberPages * (m i).pageSize - at_ - n) (by omega) (by omega)
    obtain ⟨data₁, hd₁⟩ : ∃ d, memWrite (m i).data (at_ + n) moved = .ok d :=
      ha.memWrite_ok (by omega) (by omega)
    obtain ⟨data₂, hd₂⟩ : ∃ d, memWrite data₁ at_ data = .ok d :=
      (ha.write hd₁).memWrite_ok h0 (by simp only; omega)
    simp only [hmoved, hd₁, hd₂, bind, Except.bind] at he
    cases he
  · rintro ⟨hi, h0, hpos, hw⟩
    have ha := hm.live hi
    have hsize := ha.size_le
    obtain ⟨e, he⟩ := ha.memRead_wraps hat hn hw
    refine ⟨e, ?_⟩
    rw [if_pos ⟨hi, h0, hpos, by rw [wrap32_sub hw (by omega)]; omega⟩, wrap32_sub_left, he]
    rfl

/-- The page size of a slot that is not live is 0. -/
theorem StoreValid.pageSize (hm : StoreValid m) (i : ℤ) : memstoreGetPageSizeBytes m i = 0 ∨
    1024 ≤ memstoreGetPageSizeBytes m i ∧ memstoreGetPageSizeBytes m i ≤ 32768 := by
  unfold memstoreGetPageSizeBytes
  split
  next h => exact .inr (hm.live h).size
  · exact .inl rfl

end

end CpcLink
