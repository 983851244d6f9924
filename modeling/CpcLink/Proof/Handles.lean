/-
  Who owns the files that are open (memstore_manager.c).

  The slots of the store are the places of a ledger: a load or a save closes what
  the slot owns, may open a file into it and may close that again, and a reset
  closes what all the slots own.  Freeing an allocation wipes its slot without a
  look at the file, so the ledger stays sound only while no allocation with an
  open file is freed (`handles_reach`).
-/
import CpcLink.Lib.Ownership
import CpcLink.Lib.Reach
import CpcLink.Proof.StoreMap

namespace CpcLink

/-! ## Runs of the store -/

/-- The calls that open a file, close one or wipe a slot. -/
inductive FileOp where
  | create (numberPages pageSizeInKb : ℤ)
  | load (allocationId : ℤ) (fileName : FileName)
  | save (allocationId : ℤ) (fileName : FileName) (fileSize : ℤ)
  | free (allocationId : ℤ)
  | reset

/-- A call, in the environment that answers its calls of the library. -/
inductive FileStep : Memstore × World → Env × FileOp → Memstore × World → Prop
  | create (m : Memstore) (w : World) (env : Env) (pages kb : ℤ) :
      FileStep (m, w) (env, .create pages kb) ((memstoreCreateAllocationId env m pages kb).2, w)
  | load {m : Memstore} {w : World} {env : Env} {i : ℤ} {name : FileName} {r : LoadResult} :
      memstoreLoadData env m w i name = .ok r →
      FileStep (m, w) (env, .load i name) (r.memstore, r.world)
  | save {m : Memstore} {w : World} {env : Env} {i n : ℤ} {name : FileName} {ok : Bool}
      {m' : Memstore} {w' : World} : memstoreSaveData env m w i name n = .ok (ok, m', w') →
      FileStep (m, w) (env, .save i name n) (m', w')
  | free (m : Memstore) (w : World) (env : Env) (i : ℤ) :
      FileStep (m, w) (env, .free i) ((memstoreFreeAllocationId m i).2, w)
  | reset (m : Memstore) (w : World) (env : Env) :
      FileStep (m, w) (env, .reset) (memstoreReset m w)

/-- After `memstore_init`, with no file opened yet. -/
def FileStart (p : Memstore × World) : Prop :=
  (∃ m, p.1 = memstoreInit m) ∧ p.2.opened = 0 ∧ p.2.closed = []

/-- No allocation whose file is open is freed. -/
def FreesClosed (p : Memstore × World) : Env × FileOp → Prop
  | (_, .free i) => isAllocated p.1 i → (p.1 i).fileId = none
  | _ => True

/-- The open files are those of the slots, none was closed twice, and a reset
    closes them all. -/
structure HandlesOwned (m : Memstore) (w : World) : Prop where
  owned : ∀ h, (h < w.opened ∧ h ∉ w.closed) ↔
    ∃ i file, 0 ≤ i ∧ i < maxMemoryAllocations ∧ (m i).fileId = some file ∧ file.handle = h
  once : w.closed.Nodup
  reset : ∀ h, ¬ (h < (memstoreReset m w).2.opened ∧ h ∉ (memstoreReset m w).2.closed)

/-! ## The ledger -/

/-- The handle in a slot. -/
def slotHandle (a : MemoryAllocation) : Option ℕ := a.fileId.map File.handle

def ledger (m : Memstore) (w : World) : Ledger ℤ where
  owner i := if 0 ≤ i ∧ i < maxMemoryAllocations then slotHandle (m i) else none
  opened := w.opened
  closed := w.closed

/-- The slots of the store. -/
def slots : List ℤ := (List.range 21).map fun (i : ℕ) => (i : ℤ)

/-- A slot without an allocation has no file. -/
def EmptyClosed (m : Memstore) : Prop := ∀ i, 0 ≤ i → i < maxMemoryAllocations →
  (m i).allocationId = 0 → (m i).fileId = none

section
variable {m : Memstore} {w : World} {i : ℤ} {a : MemoryAllocation}

theorem isAllocated.slot (h : isAllocated m i) : 0 ≤ i ∧ i < maxMemoryAllocations :=
  ⟨h.1.le, h.2.1⟩

theorem ledger_owner (hi : 0 ≤ i ∧ i < maxMemoryAllocations) :
    (ledger m w).owner i = slotHandle (m i) := if_pos hi

theorem ledger_owner_some {h : ℕ} : (ledger m w).owner i = some h ↔
    0 ≤ i ∧ i < maxMemoryAllocations ∧ ∃ file, (m i).fileId = some file ∧ file.handle = h := by
  unfold ledger slotHandle
  dsimp only
  split_ifs with hi
  · rw [Option.map_eq_some_iff]
    exact ⟨fun hf => ⟨hi.1, hi.2, hf⟩, fun hf => hf.2.2⟩
  · refine iff_of_false (by simp) ?_
    rintro ⟨h0, h1, -⟩
    exact hi ⟨h0, h1⟩

/-- A slot that gets the file it had. -/
theorem ledger_same (ha : slotHandle a = slotHandle (m i)) :
    ledger (Function.update m i a) w = ledger m w := by
  unfold ledger
  congr 1
  funext j
  by_cases hj : j = i
  · subst hj
    rw [Function.update_self, ha]
  · rw [Function.update_of_ne hj]

theorem ledger_update (hi : 0 ≤ i ∧ i < maxMemoryAllocations) (owner : Option ℕ)
    (ha : slotHandle a = owner) : (ledger (Function.update m i a) w).owner =
      Function.update (ledger m w).owner i owner := by
  funext j
  by_cases hj : j = i
  · subst hj
    rw [ledger_owner hi, Function.update_self, Function.update_self, ha]
  · rw [Function.update_of_ne hj]
    unfold ledger
    dsimp only
    rw [Function.update_of_ne hj]

theorem mem_slots : i ∈ slots ↔ 0 ≤ i ∧ i < maxMemoryAllocations := by
  unfold slots
  rw [List.mem_map]
  constructor
  · rintro ⟨k, hk, rfl⟩
    rw [List.mem_range] at hk
    simp only [maxMemoryAllocations]
    omega
  · rintro ⟨h0, h1⟩
    simp only [maxMemoryAllocations] at h1
    exact ⟨i.toNat, List.mem_range.2 (by omega), by omega⟩

theorem EmptyClosed.update (h : EmptyClosed m) (ha : a.allocationId = 0 → a.fileId = none) :
    EmptyClosed (Function.update m i a) := by
  intro j h0 h1
  by_cases hj : j = i
  · subst hj
    rw [Function.update_self]
    exact ha
  · rw [Function.update_of_ne hj]
    exact h j h0 h1

/-! ## What the calls do to the ledger -/

theorem memstoreSave_eq (env : Env) (m : Memstore) (w : World) (i : ℤ) (name : FileName) (n : ℤ) :
    memstoreSaveData env m w i name n = if isAllocated m i ∧ 0 < n then
      let closed := Function.update m i { m i with fileId := none }
      match fopenWrite env (closeIfOpen w (m i).fileId) name with
      | (none, w) => return (false, closed, w)
      | (some file, w) =>
        if n ≤ (m i).numberPages * (m i).pageSize then do
          let data ← memRead (m i).data 0 n
          let r := fwrite env w file data
          return (decide (r.1 ≠ 0), closed, fclose r.2 file)
        else return (false, closed, fclose w file)
    else return (false, m, w) := by
  unfold memstoreSaveData
  dsimp only
  cases (m i).fileId <;> rfl

/-- Closing the file of a slot. -/
theorem ledger_closed (hi : 0 ≤ i ∧ i < maxMemoryAllocations) (ha : a.fileId = none) :
    ledger (Function.update m i a) (closeIfOpen w (m i).fileId) = (ledger m w).close i := by
  have howner : (ledger m w).owner i = slotHandle (m i) := ledger_owner hi
  have hnone : slotHandle a = none := by rw [slotHandle, ha]; rfl
  unfold Ledger.close
  rw [howner, ← ledger_update hi none hnone]
  unfold slotHandle
  cases (m i).fileId <;> rfl

/-- Opening a file into a slot. -/
theorem ledger_opened (hi : 0 ≤ i ∧ i < maxMemoryAllocations) {a' : MemoryAllocation} {w' : World}
    {file : File} (hfile : file.handle = w.opened) (ha : a'.fileId = some file)
    (hw : w'.opened = w.opened + 1) (hc : w'.closed = w.closed) :
    ledger (Function.update m i a') w' = (ledger (Function.update m i a) w).openAt i := by
  have howner := ledger_update (m := m) (w := w) hi (some w.opened) (a := a') (by
    rw [slotHandle, ha, Option.map_some, hfile])
  have hold := ledger_update (m := m) (w := w) hi _ (a := a) rfl
  rw [Ledger.openAt, hold, Function.update_idem]
  change (⟨(ledger (Function.update m i a') w).owner, w'.opened, w'.closed⟩ : Ledger ℤ) = _
  rw [howner, hw, hc]
  rfl

/-- What a load or a save can do to the ledger. -/
inductive Moves (l : Ledger ℤ) (i : ℤ) : Ledger ℤ → Prop
  | nothing : Moves l i l
  | close : Moves l i (l.close i)
  | reopen : Moves l i ((l.close i).openAt i)
  | retry : Moves l i (((l.close i).openAt i).close i)

theorem Moves.sound {l l' : Ledger ℤ} (h : Moves l i l') (hl : l.Sound) : l'.Sound := by
  have hopened := (hl.close i).openAt (l.owner_close_self i)
  cases h with
  | nothing => exact hl
  | close => exact hl.close i
  | reopen => exact hopened
  | retry => exact hopened.close i

theorem fopenRead_opened {env : Env} {w' : World} {name : FileName} {file : File}
    (h : fopenRead env w name = (some file, w')) :
    file.handle = w.opened ∧ w'.opened = w.opened + 1 ∧ w'.closed = w.closed := by
  unfold fopenRead at h
  split at h <;> cases h
  exact ⟨rfl, rfl, rfl⟩

theorem fopenRead_none {env : Env} {w' : World} {name : FileName}
    (h : fopenRead env w name = (none, w')) : w' = w := by
  unfold fopenRead at h
  split at h <;> cases h
  rfl

theorem fopenWrite_opened {env : Env} {w' : World} {name : FileName} {file : File}
    (h : fopenWrite env w name = (some file, w')) :
    file.handle = w.opened ∧ w'.opened = w.opened + 1 ∧ w'.closed = w.closed := by
  unfold fopenWrite at h
  split at h <;> cases h
  exact ⟨rfl, rfl, rfl⟩

theorem fopenWrite_none {env : Env} {w' : World} {name : FileName}
    (h : fopenWrite env w name = (none, w')) : w' = w := by
  unfold fopenWrite at h
  split at h <;> cases h
  rfl

theorem memstoreLoad_moves {env : Env} {name : FileName} {r : LoadResult}
    (h : memstoreLoadData env m w i name = .ok r) (hempty : EmptyClosed m) :
    Moves (ledger m w) i (ledger r.memstore r.world) ∧ EmptyClosed r.memstore := by
  unfold memstoreLoadData at h
  split at h
  swap
  · cases h
    exact ⟨.nothing, hempty⟩
  next hi =>
  obtain ⟨⟨a, w₁⟩, hclose, h⟩ := bind_eq_ok.1 h
  obtain ⟨hid, hfile, rfl⟩ := closeFile_spec hclose
  have hne : a.allocationId ≠ 0 := by
    rw [hid, hi.2.2]
    exact ne_of_gt hi.1
  have hclosed := ledger_closed (m := m) (w := w) hi.slot hfile
  dsimp only at h
  split at h
  next w₂ hopen =>
    cases h
    obtain rfl := fopenRead_none hopen
    have ha : { a with fileId := none } = a := by rw [← hfile]
    dsimp only
    rw [ha, hclosed]
    exact ⟨.close, hempty.update fun h0 => absurd h0 hne⟩
  next file w₂ hopen =>
    obtain ⟨hhandle, hopened, hsame⟩ := fopenRead_opened hopen
    obtain ⟨⟨ok, size, large, a'⟩, hread, h⟩ := bind_eq_ok.1 h
    obtain ⟨hid', hfile'⟩ := readFile_frame hread
    have hreopened : ledger (Function.update m i a') w₂ = ((ledger m w).close i).openAt i := by
      rw [ledger_opened hi.slot hhandle hfile' hopened hsame, hclosed]
    dsimp only at h
    split at h
    · cases h
      dsimp only
      rw [hreopened]
      exact ⟨.reopen, hempty.update fun h0 => absurd (hid'.symm.trans h0) hne⟩
    · obtain ⟨a'', hclear, h⟩ := bind_eq_ok.1 h
      cases h
      obtain ⟨hid'', hfile''⟩ := clearData_frame hclear
      have hlast := ledger_closed (m := Function.update m i a') (w := w₂) hi.slot hfile''
      rw [Function.update_idem, Function.update_self, hfile', hreopened, closeIfOpen_some] at hlast
      dsimp only
      rw [hlast]
      exact ⟨.retry, hempty.update fun h0 => absurd (hid'.symm.trans (hid''.symm.trans h0)) hne⟩

theorem memstoreSave_moves {env : Env} {name : FileName} {n : ℤ} {ok : Bool} {m' : Memstore}
    {w' : World} (h : memstoreSaveData env m w i name n = .ok (ok, m', w')) (hempty : EmptyClosed m) :
    Moves (ledger m w) i (ledger m' w') ∧ EmptyClosed m' := by
  rw [memstoreSave_eq] at h
  split at h
  swap
  · cases h
    exact ⟨.nothing, hempty⟩
  next hi =>
  have hne : (m i).allocationId ≠ 0 := by
    rw [hi.1.2.2]
    exact ne_of_gt hi.1.1
  have hclosed := ledger_closed (m := m) (w := w) (a := { m i with fileId := none }) hi.1.slot rfl
  have hempty' : EmptyClosed (Function.update m i { m i with fileId := none }) :=
    hempty.update fun h0 => absurd h0 hne
  dsimp only at h hclosed hempty'
  split at h
  next w₂ hopen =>
    cases h
    obtain rfl := fopenWrite_none hopen
    rw [hclosed]
    exact ⟨.close, hempty'⟩
  next file w₂ hopen =>
    obtain ⟨hhandle, hopened, hsame⟩ := fopenWrite_opened hopen
    -- the file is open in the slot, and closed again at once
    have hreopened : ledger (Function.update m i { m i with fileId := some file }) w₂ =
        ((ledger m w).close i).openAt i := by
      rw [ledger_opened hi.1.slot hhandle rfl hopened hsame, hclosed]
    have hlast : ∀ w₃ : World, w₃.opened = w₂.opened → w₃.closed = w₂.closed →
        ledger (Function.update m i { m i with fileId := none }) (fclose w₃ file) =
          (((ledger m w).close i).openAt i).close i := by
      intro w₃ ho hc
      have hthird := ledger_closed (m := Function.update m i { m i with fileId := some file })
        (w := w₂) (a := { m i with fileId := none }) hi.1.slot rfl
      rw [Function.update_idem, Function.update_self, hreopened, closeIfOpen_some] at hthird
      rw [← hthird]
      unfold ledger fclose
      dsimp only
      rw [ho, hc]
    dsimp only at hlast
    split at h
    · obtain ⟨data, -, h⟩ := bind_eq_ok.1 h
      cases h
      rw [hlast (fwrite env w₂ file data).2 rfl rfl]
      exact ⟨.retry, hempty'⟩
    · cases h
      rw [hlast w₂ rfl rfl]
      exact ⟨.retry, hempty'⟩

theorem slotHandle_none (ha : a.fileId = none) : slotHandle a = none := by rw [slotHandle, ha]; rfl

/-- A new allocation takes over the file of its slot, which had none. -/
theorem memstoreCreate_ledger (env : Env) (pages kb : ℤ) (hempty : EmptyClosed m) :
    ledger (memstoreCreateAllocationId env m pages kb).2 w = ledger m w ∧
      EmptyClosed (memstoreCreateAllocationId env m pages kb).2 := by
  unfold memstoreCreateAllocationId
  dsimp only
  split_ifs with hi
  · exact ⟨ledger_same rfl, hempty.update fun h0 => absurd h0 (ne_of_gt hi.1)⟩
  · have hfree : (m (getFreeMemoryAllocation m)).allocationId = 0 := by
      rcases getFree_spec m with ⟨-, -, h0⟩ | ⟨h0, -⟩
      · exact h0
      · omega
    have hnone := hempty _ hi.1.le hi.2 hfree
    exact ⟨ledger_same (slotHandle_none hnone).symm, hempty.update fun _ => rfl⟩
  · exact ⟨rfl, hempty⟩

theorem memstoreFree_ledger (hempty : EmptyClosed m) (hc : isAllocated m i → (m i).fileId = none) :
    ledger (memstoreFreeAllocationId m i).2 w = ledger m w ∧
      EmptyClosed (memstoreFreeAllocationId m i).2 := by
  unfold memstoreFreeAllocationId
  split_ifs with hlt hid
  · refine ⟨?_, hempty.update fun _ => rfl⟩
    by_cases h0 : 0 ≤ i
    · have hnone : (m i).fileId = none := by
        rcases h0.lt_or_eq with hpos | rfl
        · exact hc ⟨hpos, hlt, hid⟩
        · exact hempty 0 le_rfl hlt hid
      exact ledger_same (slotHandle_none hnone).symm
    · -- a slot in front of the array
      unfold ledger
      congr 1
      funext j
      by_cases hj : 0 ≤ j ∧ j < maxMemoryAllocations
      · have hne : j ≠ i := fun he => h0 (he ▸ hj.1)
        rw [if_pos hj, if_pos hj]
        dsimp only
        rw [Function.update_of_ne hne]
      · rw [if_neg hj, if_neg hj]
  · exact ⟨rfl, hempty⟩
  · exact ⟨rfl, hempty⟩

theorem resetFold_eq (l : List ℕ) (hempty : ∀ i ∈ l, (m (i : ℤ)).allocationId = 0 →
    (m (i : ℤ)).fileId = none) (w : World) : l.foldl (fun w (i : ℕ) =>
      if (m i).allocationId ≠ 0 then closeIfOpen w (m i).fileId else w) w =
    { w with closed := (l.filterMap fun (i : ℕ) => slotHandle (m i)).reverse ++ w.closed } := by
  induction l generalizing w with
  | nil => rfl
  | cons i l ih =>
    have hrest := ih fun j hj => hempty j (List.mem_cons_of_mem _ hj)
    have hfirst := hempty i List.mem_cons_self
    rw [List.foldl_cons, hrest, List.filterMap_cons]
    cases hf : (m i).fileId with
    | none =>
      rw [slotHandle_none hf, closeIfOpen_none, ite_self]
    | some file =>
      have hne : (m i).allocationId ≠ 0 := fun h0 => by
        rw [hfirst h0] at hf
        cases hf
      have hhandle : slotHandle (m i) = some file.handle := by rw [slotHandle, hf]; rfl
      rw [if_pos hne, hhandle, closeIfOpen_some]
      simp [fclose]

theorem memstoreInit_slot (hi : 0 ≤ i ∧ i < maxMemoryAllocations) : memstoreInit m i = .zero :=
  if_pos hi

theorem memstoreReset_eq (m : Memstore) (w : World) : memstoreReset m w =
    (memstoreInit m, (List.range 21).foldl (fun w (i : ℕ) =>
      if (m i).allocationId ≠ 0 then closeIfOpen w (m i).fileId else w) w) := by
  unfold memstoreReset
  congr 3

theorem memstoreReset_ledger (hempty : EmptyClosed m) :
    ledger (memstoreReset m w).1 (memstoreReset m w).2 = (ledger m w).closeAll slots ∧
      EmptyClosed (memstoreReset m w).1 := by
  have hworld := resetFold_eq (m := m) (List.range 21) (fun i hi => by
    rw [List.mem_range] at hi
    exact hempty i (by omega) (by simp only [maxMemoryAllocations]; omega)) w
  constructor
  · rw [memstoreReset_eq, hworld]
    have hslots : (List.range 21).filterMap (fun (i : ℕ) => slotHandle (m i)) =
        slots.filterMap (ledger m w).owner := by
      rw [slots, List.filterMap_map]
      refine List.filterMap_congr fun i hi => ?_
      rw [List.mem_range] at hi
      exact (ledger_owner ⟨by omega, by simp only [maxMemoryAllocations]; omega⟩).symm
    rw [Ledger.closeAll, ← hslots]
    unfold ledger
    congr 1
    funext j
    split_ifs with hj
    · exact slotHandle_none (by dsimp only; rw [memstoreInit_slot hj]; rfl)
    · rfl
  · intro j h0 h1 _
    rw [memstoreReset_eq]
    dsimp only
    rw [memstoreInit_slot ⟨h0, h1⟩]
    rfl

end

/-! ## Every state reached -/

/-- The ledger is sound, and a slot without an allocation has no file. -/
structure Accounted (p : Memstore × World) : Prop where
  sound : (ledger p.1 p.2).Sound
  empty : EmptyClosed p.1

theorem slots_nodup : slots.Nodup := by decide

theorem owner_mem_slots {m : Memstore} {w : World} (i : ℤ) (h : ℕ)
    (hi : (ledger m w).owner i = some h) : i ∈ slots := by
  obtain ⟨h0, h1, -⟩ := ledger_owner_some.1 hi
  exact mem_slots.2 ⟨h0, h1⟩

theorem accounted_start {p : Memstore × World} (h : FileStart p) : Accounted p := by
  obtain ⟨⟨m, hm⟩, hopened, hclosed⟩ := h
  have hzero : ∀ i, 0 ≤ i ∧ i < maxMemoryAllocations → p.1 i = .zero := fun i hi => by
    rw [hm, memstoreInit_slot hi]
  constructor
  · have hledger : ledger p.1 p.2 = .empty := by
      unfold ledger Ledger.empty
      rw [hopened, hclosed]
      congr 1
      funext i
      split_ifs with hi
      · rw [hzero i hi]
        rfl
      · rfl
    rw [hledger]
    exact Ledger.sound_empty
  · intro i h0 h1 _
    rw [hzero i ⟨h0, h1⟩]
    rfl

/-- One call keeps the account, if it frees no allocation with an open file. -/
theorem FileStep.accounted {p p' : Memstore × World} {c : Env × FileOp} (h : FileStep p c p')
    (ha : Accounted p) (hc : FreesClosed p c) : Accounted p' := by
  cases h with
  | create m w env pages kb =>
    obtain ⟨hl, he⟩ := memstoreCreate_ledger (w := w) env pages kb ha.empty
    exact ⟨by dsimp only; rw [hl]; exact ha.sound, he⟩
  | load hload =>
    obtain ⟨hl, he⟩ := memstoreLoad_moves hload ha.empty
    exact ⟨hl.sound ha.sound, he⟩
  | save hsave =>
    obtain ⟨hl, he⟩ := memstoreSave_moves hsave ha.empty
    exact ⟨hl.sound ha.sound, he⟩
  | free m w env i =>
    obtain ⟨hl, he⟩ := memstoreFree_ledger (w := w) ha.empty hc
    exact ⟨by dsimp only; rw [hl]; exact ha.sound, he⟩
  | reset m w env =>
    obtain ⟨hl, he⟩ := memstoreReset_ledger (w := w) ha.empty
    exact ⟨by rw [hl]; exact ha.sound.closeAll owner_mem_slots slots_nodup, he⟩

theorem Accounted.handlesOwned {p : Memstore × World} (h : Accounted p) : HandlesOwned p.1 p.2 := by
  refine ⟨fun n => ?_, h.sound.once, fun n => ?_⟩
  · refine (h.sound.owned n).trans (exists_congr fun i => ?_)
    rw [ledger_owner_some]
    simp only [exists_and_left]
  · have hreset := h.sound.notOpen_closeAll owner_mem_slots n
    rw [← (memstoreReset_ledger h.empty).1] at hreset
    exact hreset

/-- **No file handle is leaked or closed twice** in any run that frees no
    allocation whose file is open. -/
theorem handles_reach (p : Memstore × World) (hr : Reach FileStart FileStep FreesClosed p) :
    HandlesOwned p.1 p.2 := by
  have ha : Accounted p := hr.inv (fun _ h0 => accounted_start h0)
    fun _ _ _ ha hok hstep => hstep.accounted ha hok
  exact ha.handlesOwned

/-- The store at the start, beside the file `x` of one byte. -/
def freshStore : Memstore × World :=
  (memstoreInit fun _ => .zero, ⟨fun name => if name = [120] then some [7] else none, 0, [], []⟩)

theorem freshStore_start : FileStart freshStore := ⟨⟨_, rfl⟩, rfl, rfl⟩

/-- The store after an allocation of one page, with the file `x` loaded into it. -/
def loadedStore : Memstore × World :=
  let m := (memstoreCreateAllocationId calmEnv freshStore.1 1 1).2
  match memstoreLoadData calmEnv m freshStore.2 1 [120] with
  | .ok r => (r.memstore, r.world)
  | .error _ => (m, freshStore.2)

theorem loadedStore_reach {ok : Memstore × World → Env × FileOp → Prop}
    (h1 : ∀ p env pages kb, ok p (env, .create pages kb))
    (h2 : ∀ p env i name, ok p (env, .load i name)) : Reach FileStart FileStep ok loadedStore := by
  have hcreated : Reach FileStart FileStep ok
      ((memstoreCreateAllocationId calmEnv freshStore.1 1 1).2, freshStore.2) :=
    .next (.start freshStore_start) (h1 _ calmEnv 1 1) (.create freshStore.1 freshStore.2 calmEnv 1 1)
  unfold loadedStore
  dsimp only
  split
  next hload => exact .next hcreated (h2 _ calmEnv 1 [120]) (.load hload)
  · exact hcreated

/-- An instance: the file that was loaded is the one that is open. -/
theorem handles_loaded : HandlesOwned loadedStore.1 loadedStore.2 :=
  handles_reach loadedStore
    (loadedStore_reach (fun _ _ _ _ => trivial) fun _ _ _ _ => trivial)

theorem freed_reach {p : Memstore × World} (h : Reach FileStart FileStep (fun _ _ => True) p) :
    Reach FileStart FileStep (fun _ _ => True) ((memstoreFreeAllocationId p.1 1).2, p.2) := by
  obtain ⟨m, w⟩ := p
  exact .next h trivial (.free m w calmEnv 1)

theorem freed_noFile (k : ℕ) (hk : k < 21) :
    ((memstoreFreeAllocationId loadedStore.1 1).2 k).fileId = none := by
  have hall : ∀ k < 21, ((memstoreFreeAllocationId loadedStore.1 1).2 (k : ℕ)).fileId.isNone := by
    decide +kernel
  exact Option.isNone_iff_eq_none.1 (hall k hk)

/-- The allocation is freed: its file stays open, and no slot has it any more. -/
theorem handle_leaked : ∃ p, Reach FileStart FileStep (fun _ _ => True) p ∧
    ¬ HandlesOwned p.1 p.2 := by
  have hr : Reach FileStart FileStep (fun _ _ => True) loadedStore :=
    loadedStore_reach (fun _ _ _ _ => trivial) fun _ _ _ _ => trivial
  refine ⟨_, freed_reach hr, fun h => ?_⟩
  dsimp only at h
  have hopen : 0 < loadedStore.2.opened ∧ 0 ∉ loadedStore.2.closed :=
    ⟨by decide +kernel, by decide +kernel⟩
  obtain ⟨i, file, h0, h1, hfile, -⟩ := (h.owned 0).1 hopen
  lift i to ℕ using h0
  have hnone := freed_noFile i (Int.ofNat_lt.1 h1)
  rw [hnone] at hfile
  cases hfile

end CpcLink
