/-
  Rings that do not look whether they are full.

  The indices of a ring are equal when it is empty.  They are equal again when as many
  elements have been put in as it has cells, and the ring has then forgotten all of them.
-/
import CpcLink.Lib.CircularBuffer

namespace CircularBuffer

variable {α : Type*} {N r s : ℤ} {d : ℤ → α}

/-- What is between the indices. -/
def contents (d : ℤ → α) (N r s : ℤ) : List α := window d N r (gap N r s).toNat

@[simp] theorem length_contents : (contents d N r s).length = (gap N r s).toNat := length_window _ _

theorem contents_self : contents d N r r = [] := by
  rw [contents, gap_self]
  rfl

/-- Put an element in. -/
theorem contents_push (hr : Index N r) (hr0 : 0 ≤ r) (hs : 0 ≤ s) (hsN : s < N) (x : α) :
    contents (Function.update d s x) N r (move N s 1) =
      if ((contents d N r s).length : ℤ) + 1 < N then contents d N r s ++ [x] else [] := by
  have hgap := gap_nonneg hr hs
  have hstore : gap N r (move N s 1) = (gap N r s + 1) % N := gap_store hr hs Int.one_nonneg
  rw [length_contents, Int.toNat_of_nonneg hgap]
  split
  · next hlt =>
    have hcells : (gap N r s + 1).toNat = (gap N r s).toNat + 1 := by omega
    rw [contents, hstore, Int.emod_eq_of_lt (by omega) hlt, hcells, contents]
    refine window_update hr ?_ (by omega) ?_ x
    · rw [Int.toNat_of_nonneg hgap]
      exact gap_lt hr
    · rw [Int.toNat_of_nonneg hgap]
      exact (move_gap hr hs hsN (by omega)).symm
  · next hge =>
    have hfull : gap N r s + 1 = N := by
      have := gap_lt (s := s) hr
      omega
    rw [contents, hstore, hfull, Int.emod_self]
    rfl

/-- Get the first one out. -/
theorem contents_pop (hr : Index N r) (hr0 : 0 ≤ r) (hs : 0 ≤ s) (hsN : s < N) (hne : s ≠ r) :
    contents d N r s = d r :: contents d N (move N r 1) s := by
  have hpos := gap_pos hr hr0 hs hsN hne
  have hmove : gap N (move N r 1) s = gap N r s - 1 := by
    rw [gap_move hr hs Int.one_nonneg]
    exact Int.emod_eq_of_lt (by omega) (by have := gap_lt (s := s) hr; omega)
  have hcells : (gap N r s).toNat = (gap N r s - 1).toNat + 1 := by omega
  rw [contents, contents, hmove, hcells, window_succ hr]

end CircularBuffer

/-- What such a ring has been given, what has been got out of it, and what it holds. -/
inductive Overrun {α : Type*} (size : ℕ) : List α → List α → List α → Prop
  | start : Overrun size [] [] []
  | push {given got held : List α} (x : α) : Overrun size given got held →
      held.length + 1 < size → Overrun size (given ++ [x]) got (held ++ [x])
  | forget {given got held : List α} (x : α) : Overrun size given got held →
      held.length + 1 = size → Overrun size (given ++ [x]) got []
  | pop {given got held : List α} {x : α} : Overrun size given got (x :: held) →
      Overrun size given (got ++ [x]) held

namespace Overrun

variable {α : Type*} {size : ℕ} {given got held : List α}

/-- Nothing comes out twice, or out of turn. -/
theorem sublist (h : Overrun size given got held) : (got ++ held).Sublist given := by
  induction h with
  | start => exact .slnil
  | push x _ _ ih =>
    rw [← List.append_assoc]
    exact ih.append (.refl [x])
  | @forget given got held x _ _ ih =>
    rw [List.append_nil]
    exact (List.sublist_append_left got held).trans (ih.trans (List.sublist_append_left given [x]))
  | pop _ ih =>
    rw [List.append_assoc]
    exact ih

/-- What is lost is lost by the ring. -/
theorem lost (h : Overrun size given got held) :
    ∃ rounds, given.length = got.length + held.length + size * rounds := by
  induction h with
  | start => exact ⟨0, rfl⟩
  | push x _ _ ih =>
    obtain ⟨rounds, ih⟩ := ih
    exact ⟨rounds, by simp only [List.length_append, List.length_singleton, ih]; omega⟩
  | forget x _ hfull ih =>
    obtain ⟨rounds, ih⟩ := ih
    refine ⟨rounds + 1, ?_⟩
    simp only [List.length_append, List.length_singleton, List.length_nil, ih, Nat.mul_succ]
    omega
  | pop _ ih =>
    obtain ⟨rounds, ih⟩ := ih
    exact ⟨rounds, by simp only [List.length_append, List.length_cons, List.length_nil] at ih ⊢; omega⟩

theorem held_lt (hsize : 0 < size) (h : Overrun size given got held) : held.length < size := by
  induction h with
  | start => exact hsize
  | push x _ hroom _ =>
    rw [List.length_append]
    exact hroom
  | forget => exact hsize
  | pop _ ih => exact (Nat.lt_succ_self _).trans ih

/-- Nothing has been lost exactly when less is missing at the output than the ring can
    hold. -/
theorem kept_iff (hsize : 0 < size) (h : Overrun size given got held) :
    got ++ held = given ↔ given.length < got.length + size := by
  constructor
  · rintro rfl
    rw [List.length_append]
    exact Nat.add_lt_add_left (h.held_lt hsize) _
  · intro hlt
    obtain ⟨rounds, hlost⟩ := h.lost
    refine h.sublist.eq_of_length ?_
    rw [List.length_append, hlost]
    cases rounds with
    | zero => rfl
    | succ rounds =>
      rw [Nat.mul_succ] at hlost
      omega

end Overrun
