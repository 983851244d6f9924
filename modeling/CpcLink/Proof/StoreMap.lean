/-
  What the memory store is for: a finite map from allocation ids to arrays.

  `Block` is an array with its division into pages, `StoreSpec` what each
  operation may do to the map.  The store refines it: `store_refines` is about
  every sequence of operations from `memstore_init` on, with `calloc` failing
  at any of them.
-/
import CpcLink.Lib.Simulation
import CpcLink.Lib.Splice
import CpcLink.Proof.Dispatch

namespace CpcLink

open Splice

/-! ## The map -/

/-- The array of an allocation. -/
structure Block where
  pages : ℕ
  pageSize : ℕ
  bytes : Fin (pages * pageSize) → BYTE

/-- The ids in use, and their arrays. -/
abbrev Blocks := ℤ → Option Block

namespace Block

def zero (pages pageSize : ℕ) : Block := ⟨pages, pageSize, fun _ => 0⟩

def storePage (b : Block) (p : ℕ) (buffer : ℕ → BYTE) : Block :=
  { b with bytes := putAt b.bytes (p * b.pageSize) b.pageSize buffer }

def insert (b : Block) (off len : ℕ) (buffer : ℕ → BYTE) : Block :=
  { b with bytes := insertAt b.bytes off len buffer }

def cut (b : Block) (off len : ℕ) : Block :=
  { b with bytes := cutAt b.bytes off len 0 }

/-- Page `p`. -/
def page (b : Block) (p : Fin b.pages) : List BYTE :=
  List.ofFn fun j : Fin b.pageSize => b.bytes ⟨p * b.pageSize + j, by
    calc p * b.pageSize + j < p * b.pageSize + b.pageSize := by omega
      _ = (p + 1) * b.pageSize := (Nat.succ_mul _ _).symm
      _ ≤ b.pages * b.pageSize := Nat.mul_le_mul_right _ p.isLt⟩

end Block

/-! ## The operations -/

/-- The calls of the store; a buffer is given as the memory at its address. -/
inductive StoreOp where
  | create (env : Env) (numberPages pageSizeInKb : ℤ)
  | free (allocationId : ℤ)
  | store (allocationId pageNumber : ℤ) (pageDataBuffer : ℕ → BYTE)
  | insert (allocationId insertAtIndex insertLength : ℤ) (insertData : ℕ → BYTE)
  | cut (allocationId cutAtIndex cutLength : ℤ)

inductive StoreReply where
  | id (allocationId : ℤ)
  | done (ok : Bool)

/-- The arguments that the commands let through: an id is a byte and not 0. -/
def StoreOp.Legal : StoreOp → Prop
  | create _ pages kb => (1 ≤ pages ∧ pages ≤ 9999) ∧ 1 ≤ kb ∧ kb ≤ 32
  | free i => 1 ≤ i ∧ i ≤ 255
  | store i _ _ => 1 ≤ i ∧ i ≤ 255
  | insert i off len _ => (1 ≤ i ∧ i ≤ 255) ∧ -2 ^ 31 ≤ off + len ∧ off + len < 2 ^ 31
  | cut i off len => (1 ≤ i ∧ i ≤ 255) ∧ -2 ^ 31 ≤ off + len ∧ off + len < 2 ^ 31

/-- A call of the store.  The copies take as many bytes of the buffer as the
    page or the range has. -/
def runStoreOp (m : Memstore) : StoreOp → Except Fault (StoreReply × Memstore)
  | .create env pages kb =>
    let (i, m') := memstoreCreateAllocationId env m pages kb
    .ok (.id i, m')
  | .free i =>
    let (ok, m') := memstoreFreeAllocationId m i
    .ok (.done ok, m')
  | .store i p buffer => do
    let (ok, m') ← memstoreStorePageOfData m i p (cells buffer (m i).pageSize.toNat)
    return (.done ok, m')
  | .insert i off len buffer => do
    let (ok, m') ← memstoreInsertData m i off len (cells buffer len.toNat)
    return (.done ok, m')
  | .cut i off len => do
    let (ok, m') ← memstoreCutData m i off len
    return (.done ok, m')

/-- All the ids there are. -/
def AllLive (A : Blocks) : Prop := ∀ i, 1 ≤ i → i ≤ 20 → A i ≠ none

/-- What an operation makes of the block of its allocation, or `none` where it
    does not apply to it. -/
def blockAfter (b : Block) : StoreOp → Option (Option Block)
  | .create .. => none
  | .free _ => some none
  | .store _ p buffer => if 0 ≤ p ∧ p < b.pages then some (b.storePage p.toNat buffer) else none
  | .insert _ off len buffer =>
    if 0 ≤ off ∧ 0 < len ∧ off + len < (b.pages * b.pageSize : ℕ) then
      some (b.insert off.toNat len.toNat buffer) else none
  | .cut _ off len =>
    if 0 ≤ off ∧ 0 < len ∧ off + len < (b.pages * b.pageSize : ℕ) then
      some (b.cut off.toNat len.toNat) else none

/-- The allocation an operation names. -/
def StoreOp.target : StoreOp → Option ℤ
  | create .. => none
  | free i | store i _ _ | insert i _ _ _ | cut i _ _ => some i

/-- What each operation may reply, and how it changes the map. -/
inductive StoreSpec : Blocks → StoreOp → StoreReply → Blocks → Prop
  | created {A : Blocks} {env : Env} {pages kb i : ℤ} : 1 ≤ i → i ≤ 20 → A i = none →
      env.calloc (pages * kb * 1024) = true →
      StoreSpec A (.create env pages kb) (.id i)
        (Function.update A i (some (.zero pages.toNat (kb * 1024).toNat)))
  | refused {A : Blocks} {env : Env} {pages kb : ℤ} :
      AllLive A ∨ env.calloc (pages * kb * 1024) = false →
      StoreSpec A (.create env pages kb) (.id 0) A
  | done {A : Blocks} {o : StoreOp} {i : ℤ} {b : Block} {b' : Option Block} :
      o.target = some i → A i = some b → blockAfter b o = some b' →
      StoreSpec A o (.done true) (Function.update A i b')
  | outside {A : Blocks} {o : StoreOp} {i : ℤ} {b : Block} :
      o.target = some i → A i = some b → blockAfter b o = none → StoreSpec A o (.done false) A
  | notLive {A : Blocks} {o : StoreOp} {i : ℤ} :
      o.target = some i → A i = none → StoreSpec A o (.done false) A

/-- A creation returns 0 exactly if all ids are in use or `calloc` fails. -/
theorem StoreSpec.create_zero {A A' : Blocks} {env : Env} {pages kb i : ℤ}
    (h : StoreSpec A (.create env pages kb) (.id i) A') :
    i = 0 ↔ AllLive A ∨ env.calloc (pages * kb * 1024) = false := by
  cases h with
  | created h1 h20 hnone hc =>
    refine iff_of_false (by omega) ?_
    rintro (hall | hfail)
    · exact hall i h1 h20 hnone
    · rw [hc] at hfail
      cases hfail
  | refused hno => exact iff_of_true rfl hno

/-! ## The slots of the map -/

/-- What a slot holds. -/
inductive Holds (i : ℤ) (a : MemoryAllocation) : Option Block → Prop
  | empty : a.allocationId = 0 → Holds i a none
  | live {b : Block} : a.allocationId = i → a.numberPages = b.pages → a.pageSize = b.pageSize →
      a.data = some (List.ofFn b.bytes) → Holds i a (some b)

/-- The store, as a map. -/
structure Represents (m : Memstore) (A : Blocks) : Prop where
  store : StoreValid m
  slot : ∀ i, 1 ≤ i → i ≤ 20 → Holds i (m i) (A i)
  other : ∀ i, ¬ (1 ≤ i ∧ i ≤ 20) → A i = none

section
variable {m : Memstore} {A : Blocks} {i : ℤ} {b : Block} {d x : List BYTE} {off len : ℕ}

theorem represents_init (m : Memstore) : Represents (memstoreInit m) fun _ => none := by
  refine ⟨storeValid_init m, fun i h1 h2 => .empty ?_, fun _ _ => rfl⟩
  rw [memstoreInit, if_pos ⟨by omega, by rw [maxMemoryAllocations]; omega⟩]
  rfl

theorem Represents.update (h : Represents m A) {a : MemoryAllocation} {o : Option Block}
    (hi : 1 ≤ i ∧ i ≤ 20) (hvalid : SlotValid i a) (ho : Holds i a o) :
    Represents (Function.update m i a) (Function.update A i o) := by
  refine ⟨h.store.update hvalid, fun j h1 h2 => ?_, fun j hj => ?_⟩
  · by_cases hji : j = i
    · subst hji
      rw [Function.update_self, Function.update_self]
      exact ho
    · rw [Function.update_of_ne hji, Function.update_of_ne hji]
      exact h.slot j h1 h2
  · rw [Function.update_of_ne (fun hji => hj (by omega))]
    exact h.other j hj

/-- A block of the map is in its slot. -/
theorem Represents.live (h : Represents m A) (hb : A i = some b) :
    isAllocated m i ∧ (m i).numberPages = b.pages ∧ (m i).pageSize = b.pageSize ∧
      (m i).data = some (List.ofFn b.bytes) := by
  by_cases hi : 1 ≤ i ∧ i ≤ 20
  · have hslot := h.slot i hi.1 hi.2
    rw [hb] at hslot
    cases hslot with
    | live hid hp hs hd => exact ⟨⟨by omega, by rw [maxMemoryAllocations]; omega, hid⟩, hp, hs, hd⟩
  · rw [h.other i hi] at hb
    cases hb

theorem Represents.not_live (h : Represents m A) (hA : A i = none) : ¬ isAllocated m i := by
  rintro ⟨h0, h1, hid⟩
  rw [maxMemoryAllocations] at h1
  have hslot := h.slot i (by omega) (by omega)
  rw [hA] at hslot
  cases hslot with
  | empty hz => omega

/-- The id that is given out next. -/
theorem getFree_spec (m : Memstore) :
    (1 ≤ getFreeMemoryAllocation m ∧ getFreeMemoryAllocation m ≤ 20 ∧
      (m (getFreeMemoryAllocation m)).allocationId = 0) ∨
    (getFreeMemoryAllocation m = 0 ∧ ∀ i, 1 ≤ i → i ≤ 20 → (m i).allocationId ≠ 0) := by
  unfold getFreeMemoryAllocation
  split
  next k hk =>
    have hp := List.find?_some hk
    have hmem := List.mem_range.1 (List.mem_of_find?_eq_some hk)
    simp only [decide_eq_true_eq] at hp
    exact .inl ⟨by omega, by omega, hp.2⟩
  next hnone =>
    refine .inr ⟨rfl, fun i h1 h2 hz => ?_⟩
    have h := List.find?_eq_none.1 hnone i.toNat (List.mem_range.2 (by omega))
    simp only [decide_eq_true_eq, not_and] at h
    rw [Int.toNat_of_nonneg (by omega)] at h
    exact h (by omega) hz

theorem memWrite_overwrite {d src : List BYTE} {off : ℕ} (h : off + src.length ≤ d.length) :
    memWrite (some d) off src = .ok (some (overwrite d off src)) := by
  rw [memWrite, if_pos ⟨by omega, by omega⟩]
  rfl

theorem memRead_part {d : List BYTE} {off len : ℕ} (h : off + len ≤ d.length) :
    memRead (some d) off len = .ok ((d.drop off).take len) := by
  rw [memRead, if_pos ⟨by omega, by omega, by omega⟩]
  rfl

/-- The content of an allocation, all else as it was. -/
def withContent (m : Memstore) (i : ℤ) (content : List BYTE) : Memstore :=
  Function.update m i { m i with data := some content }

@[simp] theorem withContent_self (content : List BYTE) :
    withContent m i content i = { m i with data := some content } := Function.update_self ..

/-- The numbers of the code for a range that does not wrap. -/
theorem StoreValid.range (hm : StoreValid m) (hi : isAllocated m i) (hd : (m i).data = some d)
    (hend : off + len < d.length) :
    (m i).numberPages * (m i).pageSize = d.length ∧
    wrap32 ((off : ℤ) + len) = (off + len : ℕ) ∧
    wrap32 (wrap32 ((m i).numberPages * (m i).pageSize - off) - len) =
      (d.length - off - len : ℕ) ∧
    wrap32 ((m i).numberPages * (m i).pageSize - len) = (d.length - len : ℕ) := by
  have ha := hm.live hi
  have hsize := ha.size_le
  obtain ⟨d', hd', hl⟩ := ha.data
  obtain rfl : d = d' := Option.some.inj (hd.symm.trans hd')
  rw [← hl] at hsize ⊢
  refine ⟨rfl, ?_, ?_, ?_⟩
  · rw [wrap32_id (by omega) (by omega), Nat.cast_add]
  · rw [wrap32_sub_left, wrap32_id (by omega) (by omega)]; omega
  · rw [wrap32_id (by omega) (by omega)]; omega

theorem insert_splices (hm : StoreValid m) (hi : isAllocated m i) (hd : (m i).data = some d)
    (hpos : 0 < x.length) (hend : off + x.length < d.length) :
    memstoreInsertData m i off x.length x = .ok (true, withContent m i (spliceIn d off x)) := by
  obtain ⟨hsize, hsum, hmove, -⟩ := hm.range hi hd hend
  have hpart : ((d.drop off).take (d.length - off - x.length)).length =
      d.length - off - x.length := by
    rw [List.length_take, List.length_drop]; omega
  have hup : off + x.length + ((d.drop off).take (d.length - off - x.length)).length ≤
      d.length := by omega
  unfold memstoreInsertData
  dsimp only
  rw [if_pos ⟨hi, Int.natCast_nonneg _, by omega, by rw [hsum, hsize]; omega⟩, hmove, hsum, hd,
    memRead_part (by omega)]
  simp only [bind, Except.bind, memWrite_overwrite hup]
  rw [memWrite_overwrite (by rw [length_overwrite hup]; omega)]
  simp only [move_up hend.le]
  rfl

theorem cut_splices (hm : StoreValid m) (hi : isAllocated m i) (hd : (m i).data = some d)
    (hpos : 0 < len) (hend : off + len < d.length) :
    memstoreCutData m i off len = .ok (true, withContent m i (spliceOut d off len 0)) := by
  obtain ⟨hsize, hsum, hmove, htop⟩ := hm.range hi hd hend
  have hpart : ((d.drop (off + len)).take (d.length - off - len)).length =
      d.length - off - len := by
    rw [List.length_take, List.length_drop]; omega
  have hdown : off + ((d.drop (off + len)).take (d.length - off - len)).length ≤ d.length := by
    omega
  unfold memstoreCutData
  dsimp only
  rw [if_pos ⟨hi, Int.natCast_nonneg _, by omega, by rw [hsum, hsize]; omega⟩, hmove, htop, hsum,
    hd, memRead_part (by omega)]
  simp only [bind, Except.bind, memWrite_overwrite hdown]
  rw [memWrite_overwrite (by rw [length_overwrite hdown, List.length_replicate]; omega)]
  simp only [Int.toNat_natCast, move_down hend.le]
  rfl

/-- New contents for a block. -/
theorem Represents.withBytes (h : Represents m A) (hb : A i = some b)
    (bytes : Fin (b.pages * b.pageSize) → BYTE) :
    Represents (Function.update m i { m i with data := some (List.ofFn bytes) })
      (Function.update A i (some { b with bytes := bytes })) := by
  obtain ⟨hi, hp, hs, hd⟩ := h.live hb
  have hl := h.store.live hi
  have hid := hi
  rw [isAllocated, maxMemoryAllocations] at hid
  refine h.update ⟨by omega, by omega⟩ (.inr ⟨hl.id, hl.pages, hl.size, _, rfl, ?_⟩)
    (.live hl.id hp hs rfl)
  rw [List.length_ofFn, Nat.cast_mul, hp, hs]

/-! ## One operation -/

/-- The operation is answered as the map is allowed to. -/
def Simulated (m : Memstore) (A : Blocks) (o : StoreOp) : Prop :=
  ∃ r m' A', runStoreOp m o = .ok (r, m') ∧ StoreSpec A o r A' ∧ Represents m' A'

/-- A slot that is not in use is not in the map. -/
theorem Represents.slot_free (h : Represents m A) (h1 : 1 ≤ i) (h20 : i ≤ 20) :
    A i = none ↔ (m i).allocationId = 0 := by
  have hslot := h.slot i h1 h20
  cases hA : A i with
  | none =>
    rw [hA] at hslot
    cases hslot with
    | empty hz => exact iff_of_true rfl hz
  | some b =>
    rw [hA] at hslot
    cases hslot with
    | live hid => exact iff_of_false (by rintro ⟨⟩) (by omega)

/-- The slot of a new allocation. -/
theorem holds_zero {a : MemoryAllocation} {pages kb : ℤ} (hid : a.allocationId = i)
    (hp : 1 ≤ pages) (hk : 1 ≤ kb) (hpages : a.numberPages = pages) (hsize : a.pageSize = kb * 1024)
    (hdata : a.data = some (List.replicate (pages * kb * 1024).toNat 0)) :
    Holds i a (some (.zero pages.toNat (kb * 1024).toNat)) := by
  refine .live hid ?_ ?_ ?_
  · rw [hpages, Block.zero, Int.toNat_of_nonneg (by omega)]
  · rw [hsize, Block.zero, Int.toNat_of_nonneg (by omega)]
  · rw [hdata, Block.zero, List.ofFn_const, Int.mul_assoc, Int.toNat_mul (by omega) (by omega)]

theorem create_simulated (h : Represents m A) {env : Env} {pages kb : ℤ}
    (hlegal : (1 ≤ pages ∧ pages ≤ 9999) ∧ 1 ≤ kb ∧ kb ≤ 32) :
    Simulated m A (.create env pages kb) := by
  obtain ⟨⟨hp, hp'⟩, hk, hk'⟩ := hlegal
  have hvalid := memstoreCreate_valid env h.store hp hp' hk hk'
  unfold Simulated runStoreOp
  unfold memstoreCreateAllocationId at hvalid ⊢
  dsimp only at hvalid ⊢
  rcases getFree_spec m with ⟨h1, h20, hz⟩ | ⟨h0, hfull⟩
  · generalize getFreeMemoryAllocation m = i at h1 h20 hz hvalid ⊢
    have hi : 0 < i ∧ i < maxMemoryAllocations := ⟨by omega, by rw [maxMemoryAllocations]; omega⟩
    have hnone := (h.slot_free h1 h20).2 hz
    rw [if_pos hi] at hvalid ⊢
    cases hc : env.calloc (pages * kb * 1024) with
    | true =>
      rw [hc, if_pos rfl] at hvalid
      rw [if_pos rfl]
      have hslot := hvalid i hi.1.le hi.2
      dsimp only at hslot
      rw [Function.update_self] at hslot
      exact ⟨.id i, _, _, rfl, .created h1 h20 hnone hc,
        h.update ⟨h1, h20⟩ hslot (holds_zero rfl hp hk rfl rfl rfl)⟩
    | false =>
      rw [if_neg Bool.false_ne_true]
      refine ⟨.id 0, _, A, rfl, .refused (.inr hc), ?_⟩
      have hclear := h.update ⟨h1, h20⟩ (slotValid_zero i) (.empty rfl)
      rwa [← hnone, Function.update_eq_self] at hclear
  · rw [h0, if_neg (fun hlt => absurd hlt.1 (lt_irrefl 0))]
    exact ⟨.id 0, m, A, rfl, .refused (.inl fun i h1 h20 hnone =>
      hfull i h1 h20 ((h.slot_free h1 h20).1 hnone)), h⟩

theorem free_simulated (h : Represents m A) (hlegal : 1 ≤ i ∧ i ≤ 255) :
    Simulated m A (.free i) := by
  unfold Simulated runStoreOp memstoreFreeAllocationId
  dsimp only
  cases hA : A i with
  | some b =>
    obtain ⟨⟨h0, h1, hid⟩, -⟩ := h.live hA
    have h20 : i ≤ 20 := by rw [maxMemoryAllocations] at h1; omega
    rw [if_pos h1, if_pos hid]
    exact ⟨.done true, _, _, rfl, .done rfl hA rfl,
      h.update ⟨hlegal.1, h20⟩ (slotValid_zero i) (.empty rfl)⟩
  | none =>
    have hno := h.not_live hA
    refine ⟨.done false, m, A, ?_, .notLive rfl hA, h⟩
    split_ifs with h1 h2
    · exact absurd ⟨by omega, h1, h2⟩ hno
    · rfl
    · rfl

/-- A refused call: either the allocation is not there, or the operation is
    outside of it. -/
theorem failed_simulated (h : Represents m A) {o : StoreOp} (ho : o.target = some i)
    (hrun : runStoreOp m o = .ok (.done false, m))
    (hout : ∀ b, A i = some b → blockAfter b o = none) : Simulated m A o := by
  cases hA : A i with
  | none => exact ⟨.done false, m, A, hrun, .notLive ho hA, h⟩
  | some b => exact ⟨.done false, m, A, hrun, .outside ho hA (hout b hA), h⟩

theorem Represents.block (h : Represents m A) (hi : isAllocated m i) : ∃ b, A i = some b := by
  cases hA : A i with
  | some b => exact ⟨b, rfl⟩
  | none => exact absurd hi (h.not_live hA)

/-- A call that gives the block of its allocation new contents. -/
theorem written_simulated (h : Represents m A) {o : StoreOp} (ho : o.target = some i)
    (hb : A i = some b) {bytes : Fin (b.pages * b.pageSize) → BYTE}
    (hafter : blockAfter b o = some (some { b with bytes := bytes }))
    (hrun : runStoreOp m o =
      .ok (.done true, Function.update m i { m i with data := some (List.ofFn bytes) })) :
    Simulated m A o :=
  ⟨.done true, _, _, hrun, .done ho hb hafter, h.withBytes hb bytes⟩

theorem store_simulated (h : Represents m A) {p : ℤ} {buffer : ℕ → BYTE} :
    Simulated m A (.store i p buffer) := by
  by_cases hok : isAllocated m i ∧ 0 ≤ p ∧ p < (m i).numberPages
  · obtain ⟨hi, h0, hlt⟩ := hok
    obtain ⟨b, hb⟩ := h.block hi
    obtain ⟨-, hp, hs, hd⟩ := h.live hb
    have hpage : p < b.pages := by rwa [← hp]
    refine written_simulated h rfl hb (if_pos ⟨h0, hpage⟩) ?_
    have hend : p.toNat * b.pageSize + b.pageSize ≤ b.pages * b.pageSize := by
      rw [← Nat.succ_mul]
      exact Nat.mul_le_mul_right _ (by omega)
    have hoff : p * (m i).pageSize = (p.toNat * b.pageSize : ℕ) := by
      rw [hs, Nat.cast_mul, Int.toNat_of_nonneg h0]
    have hfits : p.toNat * b.pageSize + (cells buffer b.pageSize).length ≤
        (List.ofFn b.bytes).length := by rwa [length_cells, List.length_ofFn]
    unfold runStoreOp memstoreStorePageOfData
    dsimp only
    rw [if_pos ⟨hi, h0, hlt⟩, hoff, hs, hd, Int.toNat_natCast, memWrite_overwrite hfits,
      overwrite_ofFn hend]
    rfl
  · refine failed_simulated h rfl ?_ fun b hb => ?_
    · unfold runStoreOp memstoreStorePageOfData
      dsimp only
      rw [if_neg hok]
      rfl
    · obtain ⟨hi, hp, -⟩ := h.live hb
      refine if_neg fun hpage => hok ⟨hi, hpage.1, ?_⟩
      rw [hp]
      exact hpage.2

/-- A range that the checks reject is outside of the block. -/
theorem Represents.range_outside (h : Represents m A) (hb : A i = some b) {off len : ℤ}
    (hwrap : wrap32 (off + len) = off + len)
    (hno : ¬ (isAllocated m i ∧ 0 ≤ off ∧ 0 < len ∧
      wrap32 (off + len) < (m i).numberPages * (m i).pageSize)) :
    ¬ (0 ≤ off ∧ 0 < len ∧ off + len < (b.pages * b.pageSize : ℕ)) := by
  obtain ⟨hi, hp, hs, -⟩ := h.live hb
  rintro ⟨h0, hpos, hlt⟩
  refine hno ⟨hi, h0, hpos, ?_⟩
  rwa [hwrap, hp, hs, ← Nat.cast_mul]

/-- A range that they accept is inside. -/
theorem Represents.range_inside (h : Represents m A) (hb : A i = some b) {off len : ℕ}
    (hlt : (off + len : ℤ) < (m i).numberPages * (m i).pageSize) :
    off + len < (List.ofFn b.bytes).length := by
  obtain ⟨-, hp, hs, -⟩ := h.live hb
  rw [hp, hs] at hlt
  rw [List.length_ofFn]
  exact_mod_cast hlt

theorem insert_simulated (h : Represents m A) {off len : ℤ} {buffer : ℕ → BYTE}
    (hlegal : -2 ^ 31 ≤ off + len ∧ off + len < 2 ^ 31) :
    Simulated m A (.insert i off len buffer) := by
  have hwrap := wrap32_id hlegal.1 hlegal.2
  by_cases hok : isAllocated m i ∧ 0 ≤ off ∧ 0 < len ∧
      wrap32 (off + len) < (m i).numberPages * (m i).pageSize
  · obtain ⟨hi, h0, hpos, hlt⟩ := hok
    obtain ⟨b, hb⟩ := h.block hi
    obtain ⟨-, -, -, hd⟩ := h.live hb
    lift off to ℕ using h0
    lift len to ℕ using hpos.le
    have hend := h.range_inside hb (by rwa [← hwrap])
    have hlen : (cells buffer len).length = len := length_cells buffer len
    have hsplice : memstoreInsertData m i off (cells buffer len).length (cells buffer len) = _ :=
      insert_splices h.store hi hd (by omega) (by omega)
    rw [hlen] at hsplice
    rw [List.length_ofFn] at hend
    refine written_simulated h rfl hb (if_pos ⟨Int.natCast_nonneg _, hpos, by omega⟩) ?_
    rw [runStoreOp, Int.toNat_natCast, hsplice, spliceIn_ofFn hend.le]
    rfl
  · refine failed_simulated h rfl ?_ fun b hb => if_neg (h.range_outside hb hwrap hok)
    unfold runStoreOp memstoreInsertData
    dsimp only
    rw [if_neg hok]
    rfl

theorem cut_simulated (h : Represents m A) {off len : ℤ}
    (hlegal : -2 ^ 31 ≤ off + len ∧ off + len < 2 ^ 31) : Simulated m A (.cut i off len) := by
  have hwrap := wrap32_id hlegal.1 hlegal.2
  by_cases hok : isAllocated m i ∧ 0 ≤ off ∧ 0 < len ∧
      wrap32 (off + len) < (m i).numberPages * (m i).pageSize
  · obtain ⟨hi, h0, hpos, hlt⟩ := hok
    obtain ⟨b, hb⟩ := h.block hi
    obtain ⟨-, -, -, hd⟩ := h.live hb
    lift off to ℕ using h0
    lift len to ℕ using hpos.le
    have hend := h.range_inside hb (by rwa [← hwrap])
    have hsplice : memstoreCutData m i off len = _ := cut_splices h.store hi hd (by omega) hend
    rw [List.length_ofFn] at hend
    refine written_simulated h rfl hb (if_pos ⟨Int.natCast_nonneg _, hpos, by omega⟩) ?_
    rw [runStoreOp, hsplice, spliceOut_ofFn hend.le]
    rfl
  · refine failed_simulated h rfl ?_ fun b hb => if_neg (h.range_outside hb hwrap hok)
    unfold runStoreOp memstoreCutData
    dsimp only
    rw [if_neg hok]
    rfl

/-- **One operation** of the store is one of the map. -/
theorem store_simulates : Simulates runStoreOp StoreSpec StoreOp.Legal Represents := by
  intro m A o h hlegal
  cases o with
  | create env pages kb => exact create_simulated h hlegal
  | free i => exact free_simulated h hlegal
  | store i p buffer => exact store_simulated h
  | insert i off len buffer => exact insert_simulated h hlegal.2
  | cut i off len => exact cut_simulated h hlegal.2

/-! ## Retrieval -/

/-- `memstore_retrieve_page_of_data` finds the pages of the map, and no others. -/
def Retrieves (m : Memstore) (A : Blocks) : Prop :=
  (∀ i p, memstoreRetrievePageOfData m i p = none ↔
    ¬ ∃ b, A i = some b ∧ 0 ≤ p ∧ p < b.pages) ∧
  ∀ i b (p : Fin b.pages), A i = some b →
    memstoreRetrievePageOfData m i (p : ℕ) = some (((p * b.pageSize : ℕ) : ℤ), (b.pageSize : ℤ)) ∧
    memRead (m i).data ((p * b.pageSize : ℕ) : ℤ) b.pageSize = .ok (b.page p)

theorem Represents.retrieves (h : Represents m A) : Retrieves m A := by
  refine ⟨fun i p => ?_, fun i b p hb => ?_⟩
  · unfold memstoreRetrievePageOfData
    split
    next hfound =>
      refine iff_of_false (by rintro ⟨⟩) (not_not.2 ?_)
      obtain ⟨b, hb⟩ := h.block hfound.1
      refine ⟨b, hb, hfound.2.1, ?_⟩
      rw [← (h.live hb).2.1]
      exact hfound.2.2
    next hno =>
      refine iff_of_true rfl ?_
      rintro ⟨b, hb, h0, hlt⟩
      refine hno ⟨(h.live hb).1, h0, ?_⟩
      rwa [(h.live hb).2.1]
  · obtain ⟨hi, hp, hs, hd⟩ := h.live hb
    have hend : p * b.pageSize + b.pageSize ≤ b.pages * b.pageSize := by
      rw [← Nat.succ_mul]
      exact Nat.mul_le_mul_right _ p.isLt
    constructor
    · rw [memstoreRetrievePageOfData, if_pos ⟨hi, Int.natCast_nonneg _, by omega⟩, hs, Nat.cast_mul]
    · rw [hd, memRead_part (by rwa [List.length_ofFn]), part_ofFn hend]
      rfl

/-- **The memory store is a finite map**: every sequence of operations from
    `memstore_init` on is one of the map, without a fault, and the pages
    retrieved after it are those of the map. -/
theorem store_refines (m : Memstore) {ops : List StoreOp} (hops : ∀ o ∈ ops, o.Legal) :
    ∃ replies m' A, runOps runStoreOp (memstoreInit m) ops = .ok (replies, m') ∧
      SpecRun StoreSpec (fun _ => none) ops replies A ∧ Represents m' A ∧ Retrieves m' A := by
  obtain ⟨replies, m', A, hrun, hspec, hrep⟩ := store_simulates.runs hops (represents_init m)
  exact ⟨replies, m', A, hrun, hspec, hrep, hrep.retrieves⟩

/-- An instance: a page is filled, cut and freed. -/
theorem store_refines_page : ∃ replies m' A, runOps runStoreOp (memstoreInit fun _ => .zero)
      [.create calmEnv 1 1, .store 1 0 fun _ => 255, .cut 1 0 24, .free 1] = .ok (replies, m') ∧
    SpecRun StoreSpec (fun _ => none)
      [.create calmEnv 1 1, .store 1 0 fun _ => 255, .cut 1 0 24, .free 1] replies A ∧
    Represents m' A ∧ Retrieves m' A := by
  refine store_refines _ ?_
  simp [StoreOp.Legal]

end

end CpcLink
