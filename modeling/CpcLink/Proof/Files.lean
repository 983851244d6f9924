/-
  Loading an allocation from a file and saving it to one (memstore_manager.c).

  Whatever the slot went through before, a load and a save stay inside of the
  allocation (`load_inside`, `save_inside`), and if the library makes no errors a
  load followed by a save copies the file (`load_then_save`).  A save that is
  refused because of its size has opened the file for writing before, so the file
  is lost (`refusedSave_iff`).
-/
import CpcLink.Proof.CallFrames
import CpcLink.Proof.Handles

namespace CpcLink

/-! ## What a load and a save leave -/

/-- The slot holds the allocation it held: as many pages, of the same size, and
    as much data. -/
structure SameBlock (i : ℤ) (a a' : MemoryAllocation) : Prop where
  live : Live i a'
  pages : a'.numberPages = a.numberPages
  pageSize : a'.pageSize = a.pageSize

/-- Nothing outside of the allocation `i` is written. -/
structure Inside (m : Memstore) (i : ℤ) (m' : Memstore) : Prop where
  others : OnlySlot m i m'
  block : SameBlock i (m i) (m' i)

section
variable {m : Memstore} {w : World} {i : ℤ} {a a' : MemoryAllocation}

theorem SameBlock.trans {a'' : MemoryAllocation} (h : SameBlock i a a') (h' : SameBlock i a' a'') :
    SameBlock i a a'' :=
  ⟨h'.live, h'.pages.trans h.pages, h'.pageSize.trans h.pageSize⟩

theorem SameBlock.withFile (h : SameBlock i a a') (file : Option File) :
    SameBlock i a { a' with fileId := file } :=
  ⟨h.live.withFile file _, h.pages, h.pageSize⟩

theorem Live.sameBlock (h : Live i a) : SameBlock i a a := ⟨h, rfl, rfl⟩

theorem Inside.update (h : SameBlock i (m i) a) : Inside m i (Function.update m i a) :=
  ⟨onlySlot_update m i a, by rw [Function.update_self]; exact h⟩

theorem Inside.live {m' : Memstore} (h : Inside m i m') (hi : isAllocated m i) : isAllocated m' i :=
  ⟨hi.1, hi.2.1, h.block.live.id⟩

theorem clearData_block (h : Live i a) : ∃ a', clearData a = .ok a' ∧ SameBlock i a a' ∧
    a'.fileId = a.fileId := by
  have hsize := h.size_le
  have hzeros : ((List.replicate (a.numberPages * a.pageSize).toNat (0 : BYTE)).length : ℤ) =
      a.numberPages * a.pageSize := by
    rw [List.length_replicate, Int.toNat_of_nonneg hsize.1]
  obtain ⟨data, hdata⟩ := h.memWrite_ok le_rfl (by rw [hzeros, Int.zero_add])
  refine ⟨{ a with data := data }, ?_, ⟨h.write hdata, rfl, rfl⟩, rfl⟩
  rw [clearData, hdata]
  rfl

theorem closeFile_block (h : Live i a) (w : World) : ∃ a',
    closeFile a w = .ok (a', closeIfOpen w a.fileId) ∧ SameBlock i a a' := by
  unfold closeFile
  cases hf : a.fileId with
  | none => exact ⟨a, rfl, h.sameBlock⟩
  | some file =>
    obtain ⟨a', hclear, hblock, -⟩ := clearData_block (h.withFile none a.fileSize)
    refine ⟨a', ?_, hblock.live, hblock.pages, hblock.pageSize⟩
    dsimp only at hclear ⊢
    rw [hclear]
    rfl

theorem fread_length_le (env : Env) (w : World) (file : File) (n : ℕ) :
    (fread env w file n).length ≤ n := by
  rw [fread, List.length_take]
  omega

theorem readFile_block (h : Live i a) (env : Env) (w : World) (file : File) :
    ∃ ok size large a', readFile env w a file = .ok (ok, size, large, a') ∧ SameBlock i a a' := by
  unfold readFile
  dsimp only
  split
  swap
  · exact ⟨_, _, _, _, rfl, h.sameBlock⟩
  split
  swap
  · exact ⟨_, _, _, _, rfl, h.sameBlock⟩
  split
  swap
  · exact ⟨_, _, _, _, rfl, h.sameBlock⟩
  next hle _ =>
  have hgot := fread_length_le env w file (w.content file).length
  obtain ⟨data, hdata⟩ : ∃ data, memWrite a.data 0 (fread env w file (w.content file).length) =
      .ok data := h.memWrite_ok le_rfl (by omega)
  rw [hdata]
  dsimp only [bind, Except.bind]
  split
  · exact ⟨_, _, _, _, rfl, (h.write hdata).withFile _ _, rfl, rfl⟩
  · exact ⟨_, _, _, _, rfl, h.write hdata, rfl, rfl⟩

theorem closeIfOpen_files (w : World) (file : Option File) :
    (closeIfOpen w file).files = w.files := by
  cases file <;> rfl

theorem fopenRead_files {env : Env} {w' : World} {name : FileName} {file : Option File}
    (h : fopenRead env w name = (file, w')) : w'.files = w.files := by
  unfold fopenRead at h
  split at h <;> cases h <;> rfl

/-- A load stays inside, whatever the library answers, and writes no file. -/
theorem load_inside (hm : StoreValid m) (hi : isAllocated m i) (env : Env) (w : World)
    (name : FileName) :
    ∃ r, memstoreLoadData env m w i name = .ok r ∧ Inside m i r.memstore ∧
      r.world.files = w.files := by
  obtain ⟨a, hclose, hclosed⟩ := closeFile_block (hm.live hi) w
  unfold memstoreLoadData
  rw [if_pos hi, hclose]
  dsimp only [bind, Except.bind]
  split
  next w' hopen =>
    have hfiles := (fopenRead_files hopen).trans (closeIfOpen_files w _)
    exact ⟨_, rfl, .update (hclosed.withFile none), hfiles⟩
  next file w' hopen =>
    have hfiles := (fopenRead_files hopen).trans (closeIfOpen_files w _)
    have hopened := hclosed.withFile (some file)
    obtain ⟨ok, size, large, a', hread, hfilled⟩ := readFile_block hopened.live env w' file
    rw [hread]
    dsimp only
    split
    · exact ⟨_, rfl, .update (hopened.trans hfilled), hfiles⟩
    · have hshut := (hopened.trans hfilled).withFile none
      obtain ⟨a'', hclear, hcleared, -⟩ := clearData_block hshut.live
      rw [hclear]
      exact ⟨_, rfl, .update (hshut.trans hcleared), hfiles⟩

/-- A save changes nothing of the store but the file of the slot. -/
theorem save_inside (hm : StoreValid m) (hi : isAllocated m i) (env : Env) (w : World)
    (name : FileName) (n : ℤ) :
    ∃ ok m' w', memstoreSaveData env m w i name n = .ok (ok, m', w') ∧ Inside m i m' := by
  have hlive := hm.live hi
  have hclosed : Inside m i (Function.update m i { m i with fileId := none }) :=
    .update (hlive.sameBlock.withFile none)
  rw [memstoreSave_eq]
  split
  swap
  · exact ⟨_, _, _, rfl, onlySlot_refl m i, hlive.sameBlock⟩
  next hok =>
  dsimp only at hclosed ⊢
  split
  · exact ⟨_, _, _, rfl, hclosed⟩
  · split
    next hle =>
      obtain ⟨data, hdata, -⟩ := hlive.memRead_ok le_rfl hok.2.le (by omega)
      rw [hdata]
      exact ⟨_, _, _, rfl, hclosed⟩
    next => exact ⟨_, _, _, rfl, hclosed⟩

/-! ## Files as a whole -/

/-- The library makes no errors and acts on whole files, whose lengths fit into
    a `long`. -/
structure WholeFiles (env : Env) (w : World) : Prop where
  fopenRead : ∀ name, env.fopenRead name = true
  fopenWrite : ∀ name, env.fopenWrite name = true
  fseekEnd : env.fseekEnd = true
  fseekSet : env.fseekSet = true
  fread : ∀ n, n ≤ env.fread n
  fwrite : ∀ n, n ≤ env.fwrite n
  lengths : ∀ name content, w.files name = some content → content.length < 2 ^ 31

section
variable {env : Env} {name : FileName} {c : List BYTE}

theorem fopenRead_whole (h : WholeFiles env w) (hc : w.files name = some c) {w' : World}
    (hw : w'.files = w.files) : ∃ file w'', fopenRead env w' name = (some file, w'') ∧
      w''.content file = c ∧ w''.files = w.files := by
  unfold CpcLink.fopenRead
  rw [if_pos ⟨h.fopenRead name, by rw [hw, hc]; rfl⟩]
  refine ⟨_, _, rfl, ?_, hw⟩
  unfold World.content
  dsimp only
  rw [hw, hc]
  rfl

theorem fread_whole (h : WholeFiles env w) {w' : World} {file : File}
    (hc : w'.content file = c) : CpcLink.fread env w' file c.length = c := by
  rw [CpcLink.fread, hc, min_eq_left (h.fread _), List.take_length]

theorem fwrite_whole (h : WholeFiles env w) (w' : World) (file : File) :
    CpcLink.fwrite env w' file c =
      (c.length, { w' with files := Function.update w'.files file.name (some c) }) := by
  have hall : c.take (env.fwrite c.length) = c := List.take_of_length_le (h.fwrite _)
  rw [CpcLink.fwrite, hall]

/-- What was written at the start of an allocation is read there. -/
theorem memRead_written {data data' : Option (List BYTE)} {src : List BYTE}
    (h : memWrite data 0 src = .ok data') : memRead data' 0 src.length = .ok src := by
  cases data with
  | none => cases h
  | some d =>
    unfold memWrite at h
    dsimp only at h
    split at h
    next hle =>
      cases h
      rw [memRead, if_pos ⟨le_rfl, Int.natCast_nonneg _, by simp⟩]
      simp
    · cases h

/-- The file is read into the allocation. -/
theorem readFile_whole (h : WholeFiles env w) (ha : Live i a) {w' : World} {file : File}
    (hc : w'.content file = c) (h1 : 1 ≤ c.length) (hle : c.length ≤ a.numberPages * a.pageSize) :
    ∃ data, readFile env w' a file =
        .ok (true, c.length, false, { a with data := data, fileSize := c.length }) ∧
      memRead data 0 c.length = .ok c := by
  obtain ⟨data, hdata⟩ : ∃ data, memWrite a.data 0 c = .ok data := ha.memWrite_ok le_rfl (by omega)
  refine ⟨data, ?_, memRead_written hdata⟩
  unfold readFile
  dsimp only
  rw [if_pos h.fseekEnd, hc, if_pos hle, if_pos h.fseekSet, fread_whole h hc, hdata]
  dsimp only [bind, Except.bind]
  rw [if_pos (by omega)]
  rfl

theorem readFile_large (h : WholeFiles env w) {w' : World} {file : File} (hc : w'.content file = c)
    (hlt : a.numberPages * a.pageSize < c.length) :
    readFile env w' a file = .ok (false, 0, true, a) := by
  unfold readFile
  dsimp only
  rw [if_pos h.fseekEnd, hc, if_neg (not_le.2 hlt)]
  rfl

/-! ## A load and a save -/

/-- What a load makes of a file that fits. -/
structure Loaded (m : Memstore) (i : ℤ) (c : List BYTE) (r : LoadResult) : Prop where
  ok : r.readFileOk = true
  size : r.fileSize = c.length
  content : memRead (r.memstore i).data 0 c.length = .ok c

theorem load_fits (hm : StoreValid m) (hi : isAllocated m i) (h : WholeFiles env w)
    (hc : w.files name = some c) (h1 : 1 ≤ c.length)
    (hle : c.length ≤ (m i).numberPages * (m i).pageSize) :
    ∃ r, memstoreLoadData env m w i name = .ok r ∧ Loaded m i c r := by
  obtain ⟨a, hclose, hclosed⟩ := closeFile_block (hm.live hi) w
  obtain ⟨file, w', hopen, hcontent, -⟩ := fopenRead_whole h hc (closeIfOpen_files w (m i).fileId)
  have hopened := hclosed.withFile (some file)
  have hfits : c.length ≤ a.numberPages * a.pageSize := by
    rw [hclosed.pages, hclosed.pageSize]
    exact hle
  obtain ⟨data, hread, hdata⟩ := readFile_whole h hopened.live hcontent h1 hfits
  unfold memstoreLoadData
  rw [if_pos hi, hclose]
  dsimp only [bind, Except.bind]
  rw [hopen]
  dsimp only
  rw [hread]
  refine ⟨_, rfl, rfl, rfl, ?_⟩
  dsimp only
  rw [Function.update_self]
  exact hdata

theorem load_large (hm : StoreValid m) (hi : isAllocated m i) (h : WholeFiles env w)
    (hc : w.files name = some c) (hlt : (m i).numberPages * (m i).pageSize < c.length) :
    ∃ r, memstoreLoadData env m w i name = .ok r ∧ r.readFileOk = false ∧
      r.fileToLarge = true := by
  obtain ⟨a, hclose, hclosed⟩ := closeFile_block (hm.live hi) w
  obtain ⟨file, w', hopen, hcontent, -⟩ := fopenRead_whole h hc (closeIfOpen_files w (m i).fileId)
  have hopened := hclosed.withFile (some file)
  have hlarge : a.numberPages * a.pageSize < c.length := by
    rw [hclosed.pages, hclosed.pageSize]
    exact hlt
  have hread := readFile_large (a := { a with fileId := some file }) h hcontent hlarge
  obtain ⟨a', hclear, -⟩ := clearData_block (hopened.withFile none).live
  unfold memstoreLoadData
  rw [if_pos hi, hclose]
  dsimp only [bind, Except.bind]
  rw [hopen]
  dsimp only
  rw [hread]
  dsimp only at hclear ⊢
  rw [if_neg Bool.false_ne_true, hclear]
  exact ⟨_, rfl, rfl, rfl⟩

/-- A save writes the start of the allocation. -/
theorem save_whole (hi : isAllocated m i) (h : WholeFiles env w) (h1 : 1 ≤ c.length)
    (hle : c.length ≤ (m i).numberPages * (m i).pageSize)
    (hdata : memRead (m i).data 0 c.length = .ok c) (name : FileName) :
    ∃ m' w', memstoreSaveData env m w i name c.length = .ok (true, m', w') ∧
      w'.files name = some c := by
  rw [memstoreSave_eq, if_pos ⟨hi, by omega⟩]
  dsimp only
  unfold fopenWrite
  rw [if_pos (h.fopenWrite name)]
  dsimp only
  rw [if_pos hle, hdata]
  dsimp only [bind, Except.bind]
  rw [fwrite_whole h]
  dsimp only
  rw [decide_eq_true (by omega)]
  exact ⟨_, _, rfl, Function.update_self ..⟩

/-- Loading and saving by the slot `i` copies every file that fits, and only
    those that do not fit are too large. -/
def CopiesFiles (m : Memstore) (w : World) (i : ℤ) : Prop :=
  ∀ env source c, WholeFiles env w → w.files source = some c →
    ∃ r, memstoreLoadData env m w i source = .ok r ∧
      (1 ≤ c.length → c.length ≤ (m i).numberPages * (m i).pageSize → Loaded m i c r ∧
        ∀ env' name, WholeFiles env' r.world →
          ∃ m' w', memstoreSaveData env' r.memstore r.world i name c.length = .ok (true, m', w') ∧
            w'.files name = some c) ∧
      ((m i).numberPages * (m i).pageSize < c.length →
        r.readFileOk = false ∧ r.fileToLarge = true)

end

theorem copiesFiles (hm : StoreValid m) (hi : isAllocated m i) (w : World) : CopiesFiles m w i := by
  intro env source c h hc
  obtain ⟨r, hload, hinside, -⟩ := load_inside hm hi env w source
  refine ⟨r, hload, fun h1 hle => ?_, fun hlt => ?_⟩
  · obtain ⟨r', hload', hloaded⟩ := load_fits hm hi h hc h1 hle
    obtain rfl : r = r' := Except.ok.inj (hload.symm.trans hload')
    refine ⟨hloaded, fun env' name h' => save_whole (hinside.live hi) h' h1 ?_ hloaded.content name⟩
    rw [hinside.block.pages, hinside.block.pageSize]
    exact hle
  · obtain ⟨r', hload', hlarge⟩ := load_large hm hi h hc hlt
    obtain rfl : r = r' := Except.ok.inj (hload.symm.trans hload')
    exact hlarge

/-! ## After a run of loads and saves -/

/-- The call loads into the slot `i` or saves from it. -/
def OfSlot (i : ℤ) (_ : Memstore × World) : Env × FileOp → Prop
  | (_, .load j _) | (_, .save j _ _) => j = i
  | _ => False

theorem Inside.trans {m' m'' : Memstore} (h : Inside m i m') (h' : Inside m' i m'') :
    Inside m i m'' :=
  ⟨fun j hj => (h'.others j hj).trans (h.others j hj), h.block.trans h'.block⟩

theorem Inside.valid {m' : Memstore} (h : Inside m i m') (hm : StoreValid m) : StoreValid m' := by
  intro j h0 h1
  by_cases hj : j = i
  · subst hj
    exact .inr h.block.live
  · rw [h.others j hj]
    exact hm j h0 h1

theorem FileStep.inside {p p' : Memstore × World} {c : Env × FileOp} (h : FileStep p c p')
    (hm : StoreValid p.1) (hi : isAllocated p.1 i) (hc : OfSlot i p c) : Inside p.1 i p'.1 := by
  cases h with
  | create | free | reset => cases hc
  | @load m w env j name r hload =>
    obtain rfl : j = i := hc
    obtain ⟨r', hload', hinside, -⟩ := load_inside hm hi env w name
    rwa [Except.ok.inj (hload.symm.trans hload')]
  | @save m w env j n name ok m' w' hsave =>
    obtain rfl : j = i := hc
    obtain ⟨ok', m'', w'', hsave', hinside⟩ := save_inside hm hi env w name n
    have heq : m' = m'' := by
      injection hsave.symm.trans hsave' with heq
      injection heq with _ heq
      injection heq
    rwa [heq]

/-- A run of loads and saves stays inside, too. -/
theorem reach_inside {p₀ p : Memstore × World} (hm : StoreValid p₀.1) (hi : isAllocated p₀.1 i)
    (hr : Reach (· = p₀) FileStep (OfSlot i) p) : Inside p₀.1 i p.1 := by
  refine hr.inv (P := fun p => Inside p₀.1 i p.1) ?_ ?_
  · rintro _ rfl
    exact ⟨onlySlot_refl _ i, (hm.live hi).sameBlock⟩
  · intro p c p' h hc hstep
    exact h.trans (hstep.inside (h.valid hm) (h.live hi) hc)

/-- **A file that is loaded and saved is copied**, after any loads and saves of
    the slot, and whatever the library answers nothing outside of the allocation
    is written. -/
theorem load_then_save {p₀ p : Memstore × World} (hm : StoreValid p₀.1) (hi : isAllocated p₀.1 i)
    (hr : Reach (· = p₀) FileStep (OfSlot i) p) :
    Inside p₀.1 i p.1 ∧
    (∀ env name, ∃ r, memstoreLoadData env p.1 p.2 i name = .ok r ∧ Inside p.1 i r.memstore ∧
      r.world.files = p.2.files) ∧
    (∀ env name n, ∃ ok m' w', memstoreSaveData env p.1 p.2 i name n = .ok (ok, m', w') ∧
      Inside p.1 i m') ∧
    CopiesFiles p.1 p.2 i := by
  have hrun := reach_inside hm hi hr
  have hvalid := hrun.valid hm
  have hlive := hrun.live hi
  exact ⟨hrun, fun env name => load_inside hvalid hlive env p.2 name,
    fun env name n => save_inside hvalid hlive env p.2 name n, copiesFiles hvalid hlive p.2⟩

/-- One allocation of one page, and a file "A" of three bytes. -/
def oneFile : Memstore × World :=
  ((withPage (serverOf [])).memstore,
    ⟨fun name => if name = bytes "A" then some [7, 8, 9] else none, 0, [], []⟩)

theorem oneFile_whole (w : World) (hw : w.files = oneFile.2.files) : WholeFiles calmEnv w := by
  refine ⟨fun _ => rfl, fun _ => rfl, rfl, rfl, fun _ => le_rfl, fun _ => le_rfl, ?_⟩
  intro name c hc
  rw [hw] at hc
  dsimp only [oneFile] at hc
  split at hc <;> cases hc
  decide

/-- An instance: "A" is loaded again after a load that left it open, and saved
    as "B". -/
theorem load_then_save_again : ∃ p r m' w', Reach (· = oneFile) FileStep (OfSlot 1) p ∧
    (p.1 1).fileId.isSome ∧ memstoreLoadData calmEnv p.1 p.2 1 (bytes "A") = .ok r ∧
    Loaded p.1 1 [7, 8, 9] r ∧
    memstoreSaveData calmEnv r.memstore r.world 1 (bytes "B") 3 = .ok (true, m', w') ∧
    w'.files (bytes "B") = some [7, 8, 9] := by
  have hm : StoreValid oneFile.1 := withPage_store _ (serverOf_store [])
  have hi : isAllocated oneFile.1 1 := by decide
  obtain ⟨r₀, hload₀, hinside₀, hfiles₀⟩ := load_inside hm hi calmEnv oneFile.2 (bytes "A")
  have hopen : (memstoreLoadData calmEnv oneFile.1 oneFile.2 1 (bytes "A")).toOption.any
      (fun r => (r.memstore 1).fileId.isSome) = true := by decide +kernel
  rw [hload₀] at hopen
  have hr : Reach (· = oneFile) FileStep (OfSlot 1) (r₀.memstore, r₀.world) :=
    Reach.next (i := (calmEnv, .load 1 (bytes "A"))) (.start rfl) rfl (.load hload₀)
  have hA : r₀.world.files (bytes "A") = some [7, 8, 9] := by
    rw [hfiles₀]
    decide
  obtain ⟨-, hload, -, hcopies⟩ := load_then_save hm hi hr
  obtain ⟨r, hr₁, hfit, -⟩ := hcopies calmEnv (bytes "A") [7, 8, 9] (oneFile_whole _ hfiles₀) hA
  have hsize : (1024 : ℤ) = (r₀.memstore 1).numberPages * (r₀.memstore 1).pageSize := by
    rw [hinside₀.block.pages, hinside₀.block.pageSize]
    decide
  obtain ⟨hloaded, hsave⟩ := hfit (by decide) (by rw [← hsize]; decide)
  have hfiles : r.world.files = oneFile.2.files := by
    obtain ⟨r', hload', -, hfiles'⟩ := hload calmEnv (bytes "A")
    rw [Except.ok.inj (hr₁.symm.trans hload'), hfiles']
    exact hfiles₀
  obtain ⟨m', w', hsaved, hB⟩ := hsave calmEnv (bytes "B") (oneFile_whole _ hfiles)
  exact ⟨_, r, m', w', hr, hopen, hr₁, hloaded, hsaved, hB⟩

/-! ## Refused saves -/

/-- The id is not live, or the size is not in the allocation. -/
def SaveRefused (m : Memstore) (i n : ℤ) : Prop :=
  ¬ isAllocated m i ∨ ¬ (1 ≤ n ∧ n ≤ (m i).numberPages * (m i).pageSize)

/-- The save returns FALSE, and the files are as they were. -/
def LeavesFiles (env : Env) (m : Memstore) (w : World) (i : ℤ) (name : FileName) (n : ℤ) : Prop :=
  ∃ m' w', memstoreSaveData env m w i name n = .ok (false, m', w') ∧ w'.files = w.files

/-- **When a refused save leaves the files alone.**  The size is compared with
    the allocation after the file was opened for writing. -/
theorem refusedSave_iff (env : Env) (w : World) {n : ℤ} (name : FileName)
    (href : SaveRefused m i n) : LeavesFiles env m w i name n ↔
      ¬ isAllocated m i ∨ n < 1 ∨ env.fopenWrite name = false ∨ w.files name = some [] := by
  unfold LeavesFiles
  rw [memstoreSave_eq]
  by_cases hok : isAllocated m i ∧ 0 < n
  swap
  · rw [if_neg hok]
    refine iff_of_true ⟨_, _, rfl, rfl⟩ ?_
    rcases not_and_or.1 hok with h | h
    · exact .inl h
    · exact .inr (.inl (by omega))
  have hlarge : ¬ n ≤ (m i).numberPages * (m i).pageSize := fun hle =>
    href.elim (fun h => h hok.1) fun h => h ⟨hok.2, hle⟩
  rw [if_pos hok, or_iff_right (not_not.2 hok.1), or_iff_right (by omega)]
  dsimp only
  unfold fopenWrite
  cases hopen : env.fopenWrite name with
  | false =>
    refine iff_of_true ⟨_, _, rfl, ?_⟩ (.inl rfl)
    exact closeIfOpen_files w _
  | true =>
    rw [if_pos rfl, or_iff_right (by simp)]
    dsimp only
    rw [if_neg hlarge]
    constructor
    · rintro ⟨m', w', h, hfiles⟩
      cases h
      dsimp only [fclose] at hfiles
      rw [closeIfOpen_files, Function.update_eq_self_iff] at hfiles
      exact hfiles.symm
    · intro hempty
      refine ⟨_, _, rfl, ?_⟩
      dsimp only [fclose]
      rw [closeIfOpen_files, Function.update_eq_self_iff]
      exact hempty.symm

end

/-- An instance: a save of no bytes. -/
theorem refusedSave_empty : LeavesFiles calmEnv oneFile.1 oneFile.2 1 (bytes "A") 0 :=
  (refusedSave_iff calmEnv oneFile.2 (bytes "A") (.inr fun h => absurd h.1 (by decide))).2
    (.inr (.inl (by decide)))

/-- A save of one byte more than the allocation has empties the file. -/
theorem refusedSave_empties : SaveRefused oneFile.1 1 1025 ∧
    oneFile.2.files (bytes "A") = some [7, 8, 9] ∧
    (∃ m' w', memstoreSaveData calmEnv oneFile.1 oneFile.2 1 (bytes "A") 1025 =
      .ok (false, m', w') ∧ w'.files (bytes "A") = some []) ∧
    ¬ LeavesFiles calmEnv oneFile.1 oneFile.2 1 (bytes "A") 1025 := by
  have hfull : oneFile.2.files (bytes "A") = some [7, 8, 9] := by decide
  have h : (match memstoreSaveData calmEnv oneFile.1 oneFile.2 1 (bytes "A") 1025 with
      | .ok (ok, _, w) => !ok && w.files (bytes "A") == some []
      | .error _ => false) = true := by decide +kernel
  split at h
  next ok m' w' hsave =>
    simp only [Bool.and_eq_true, Bool.not_eq_true', beq_iff_eq] at h
    obtain ⟨rfl, hempty⟩ := h
    refine ⟨.inr fun hr => absurd hr.2 (by decide), hfull, ⟨m', w', hsave, hempty⟩, ?_⟩
    rintro ⟨m'', w'', hsave', hsame⟩
    cases hsave.symm.trans hsave'
    rw [hsame, hfull] at hempty
    cases hempty
  next => cases h

end CpcLink
