/-
  Insertions and cuts as splices of an allocation's content.

  A cut right after an insertion at the same place gives the content back, up
  to the tail that the insertion pushed out.
-/
import CpcLink.Proof.StoreBounds
import CpcLink.Proof.StoreMap

namespace CpcLink

open Splice

/-- The call returns TRUE and leaves the allocation with this content, and no
    other allocation changes. -/
def LeavesContent (r : Except Fault (Bool × Memstore)) (m : Memstore) (i : ℤ) (content : List BYTE) :
    Prop :=
  ∃ m', r = .ok (true, m') ∧ isAllocated m' i ∧ (m' i).data = some content ∧
    ∀ j, j ≠ i → m' j = m j

/-- An insertion of `x` at `atIndex`, a cut of `n` bytes there, and the one
    after the other, on the content `d`. -/
structure CutUndoesInsert (m : Memstore) (i atIndex n : ℤ) (d x : List BYTE) : Prop where
  inserts : LeavesContent (memstoreInsertData m i atIndex n x) m i (spliceIn d atIndex.toNat x)
  cuts : LeavesContent (memstoreCutData m i atIndex n) m i (spliceOut d atIndex.toNat n.toNat 0)
  undoes : LeavesContent (do
    let r ← memstoreInsertData m i atIndex n x
    memstoreCutData r.2 i atIndex n) m i (d.take (d.length - n.toNat) ++ List.replicate n.toNat 0)

section
variable {m : Memstore} {i : ℤ} {d x : List BYTE} {off : ℕ}

theorem isAllocated_withContent {content : List BYTE} (hi : isAllocated m i) :
    isAllocated (withContent m i content) i := by
  unfold isAllocated at hi ⊢
  rwa [withContent_self]

theorem StoreValid.withContent (hm : StoreValid m) (hi : isAllocated m i)
    (hd : (m i).data = some d) {content : List BYTE} (hl : content.length = d.length) :
    StoreValid (withContent m i content) := by
  have ha := hm.live hi
  obtain ⟨d', hd', hsize⟩ := ha.data
  obtain rfl : d = d' := Option.some.inj (hd.symm.trans hd')
  exact hm.update (.inr ⟨ha.id, ha.pages, ha.size, content, rfl, by rw [hl, hsize]⟩)

theorem leavesContent {content : List BYTE} (hi : isAllocated m i) :
    LeavesContent (.ok (true, withContent m i content)) m i content := by
  refine ⟨_, rfl, isAllocated_withContent hi, by rw [withContent_self], fun j hj => ?_⟩
  exact Function.update_of_ne hj _ _

/-- A range that does not wrap. -/
theorem cutUndoesInsert_of_fits (hm : StoreValid m) (hi : isAllocated m i)
    (hd : (m i).data = some d) (hpos : 0 < x.length) (hend : off + x.length < d.length) :
    CutUndoesInsert m i off x.length d x := by
  have hinsert := insert_splices hm hi hd hpos hend
  have hlen := length_spliceIn hend.le
  refine ⟨?_, ?_, ?_⟩
  · rw [hinsert]
    exact leavesContent hi
  · rw [cut_splices hm hi hd hpos hend]
    exact leavesContent hi
  · have hcut := cut_splices (hm.withContent hi hd hlen) (isAllocated_withContent hi)
      (by rw [withContent_self]) hpos (by rwa [hlen])
    rw [spliceOut_spliceIn hend.le] at hcut
    simp only [hinsert, bind, Except.bind, hcut, Int.toNat_natCast]
    have hi' : isAllocated (withContent m i (spliceIn d off x)) i := isAllocated_withContent hi
    obtain ⟨m', hm', hi', hd', hother⟩ := leavesContent hi'
    refine ⟨m', hm', hi', hd', fun j hj => ?_⟩
    rw [hother j hj, withContent, Function.update_of_ne hj]

/-- A range that wraps is accepted, and the insertion leaves the allocation. -/
theorem not_cutUndoesInsert (hm : StoreValid m) (hi : isAllocated m i) {atIndex n : ℤ}
    (hat : atIndex < 2 ^ 31) (hn : n < 2 ^ 31) (hx : (x.length : ℤ) = n) (hw : EndWraps atIndex n) :
    RangePasses m i atIndex n ∧ ¬ CutUndoesInsert m i atIndex n d x := by
  have hpass := rangePasses_of_wraps hm hi hat hn hw
  have hout : ¬ RangeInside m i atIndex n insertAccesses := by
    rw [(rangeInside_iff hm hi hat hn).1, not_not]
    exact hw
  obtain ⟨e, he⟩ := (insert_faults_iff hm hpass hat hn hx).2 hout
  refine ⟨hpass, fun h => ?_⟩
  obtain ⟨m', hok, -⟩ := h.inserts
  rw [hok] at he
  cases he

/-- **When a cut undoes an insertion**: for every range that the code accepts,
    exactly if its end is an `int`. -/
theorem cut_undoes_insert_iff (hm : StoreValid m) (hi : isAllocated m i)
    (hd : (m i).data = some d) {atIndex n : ℤ} (hat : atIndex < 2 ^ 31) (hn : n < 2 ^ 31)
    (hx : (x.length : ℤ) = n) :
    (RangePasses m i atIndex n → CutUndoesInsert m i atIndex n d x) ↔ ¬ EndWraps atIndex n := by
  constructor
  · intro h hw
    obtain ⟨hpass, hno⟩ := not_cutUndoesInsert (d := d) hm hi hat hn hx hw
    exact hno (h hpass)
  · rintro hw ⟨-, h0, hpos, hlt⟩
    have hsum : atIndex + n < 2 ^ 31 := lt_of_not_ge fun h => hw ⟨h0, hpos, h⟩
    lift atIndex to ℕ using h0
    subst hx
    obtain ⟨d', hd', hl⟩ := (hm.live hi).data
    obtain rfl : d = d' := Option.some.inj (hd.symm.trans hd')
    rw [wrap32_id (by omega) hsum, ← hl] at hlt
    exact cutUndoesInsert_of_fits hm hi hd (by omega) (by omega)

end

/-- An instance: two bytes go into a page, and out again. -/
theorem cut_undoes_insert_two : RangePasses (withPage (serverOf [])).memstore 1 10 2 ∧
    CutUndoesInsert (withPage (serverOf [])).memstore 1 10 2 (List.replicate 1024 0) [7, 8] := by
  have hpass : RangePasses (withPage (serverOf [])).memstore 1 10 2 := by
    unfold RangePasses
    decide
  have hno : ¬ EndWraps 10 2 := fun h => absurd h.2.2 (by decide)
  have h10 : (10 : ℤ) < 2 ^ 31 := by decide
  have h2 : (2 : ℤ) < 2 ^ 31 := by decide
  exact ⟨hpass, (cut_undoes_insert_iff (withPage_store _ (serverOf_store _)) hpass.1 rfl h10 h2
    rfl).2 hno hpass⟩

/-- The last place an `int` can name, and one byte: accepted, and not put in. -/
theorem insert_lost : RangePasses (withPage (serverOf [])).memstore 1 (2 ^ 31 - 1) 1 ∧
    ¬ CutUndoesInsert (withPage (serverOf [])).memstore 1 (2 ^ 31 - 1) 1
      (List.replicate 1024 0) [7] := by
  have hw : EndWraps (2 ^ 31 - 1) 1 := by
    unfold EndWraps
    decide
  exact not_cutUndoesInsert (withPage_store _ (serverOf_store _)) (by decide) (by decide)
    (by decide) rfl hw

end CpcLink
