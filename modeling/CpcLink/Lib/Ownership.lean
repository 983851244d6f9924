/-
  Handles that are given out, owned and closed.

  A ledger says which handle a place owns, how many handles were given out (they
  are numbered in that order) and which were closed.  It is sound if the handles
  that are open are exactly those that are owned, each by one place, and none was
  closed twice; opening into a place that owns nothing and closing what a place
  owns keep it sound.
-/
import Mathlib.Data.List.Nodup
import Mathlib.Logic.Function.Basic

structure Ledger (ι : Type*) where
  owner : ι → Option ℕ
  opened : ℕ
  closed : List ℕ

namespace Ledger

variable {ι : Type*} {l : Ledger ι} {i : ι}

/-- A handle that was given out and not closed. -/
def IsOpen (l : Ledger ι) (h : ℕ) : Prop := h < l.opened ∧ h ∉ l.closed

structure Sound (l : Ledger ι) : Prop where
  owned : ∀ h, l.IsOpen h ↔ ∃ i, l.owner i = some h
  distinct : ∀ i j h, l.owner i = some h → l.owner j = some h → i = j
  once : l.closed.Nodup
  given : ∀ h ∈ l.closed, h < l.opened

/-- Nothing was given out. -/
def empty : Ledger ι := ⟨fun _ => none, 0, []⟩

theorem sound_empty : Sound (empty : Ledger ι) where
  owned h := ⟨fun ho => absurd ho.1 (Nat.not_lt_zero h), by rintro ⟨i, hi⟩; cases hi⟩
  distinct i j h hi := by cases hi
  once := List.nodup_nil
  given h hh := by cases hh

/-- Close what a list of places owns, and let no place own anything. -/
def closeAll (l : Ledger ι) (places : List ι) : Ledger ι :=
  ⟨fun _ => none, l.opened, (places.filterMap l.owner).reverse ++ l.closed⟩

theorem Sound.notOpen_closeAll (hl : l.Sound) {places : List ι}
    (hall : ∀ i h, l.owner i = some h → i ∈ places) (h : ℕ) : ¬ (l.closeAll places).IsOpen h := by
  rintro ⟨hlt, hnot⟩
  rw [closeAll, List.mem_append, not_or] at hnot
  obtain ⟨i, hi⟩ := (hl.owned h).1 ⟨hlt, hnot.2⟩
  exact hnot.1 (List.mem_reverse.2 (List.mem_filterMap.2 ⟨i, hall i h hi, hi⟩))

theorem Sound.closeAll (hl : l.Sound) {places : List ι}
    (hall : ∀ i h, l.owner i = some h → i ∈ places) (hp : places.Nodup) :
    (l.closeAll places).Sound where
  owned h := iff_of_false (hl.notOpen_closeAll hall h) (by rintro ⟨i, hi⟩; cases hi)
  distinct i j h hi := by cases hi
  once := by
    have hnew : (places.filterMap l.owner).Nodup :=
      hp.filterMap fun i j h hi hj => hl.distinct i j h hi hj
    refine List.nodup_append.2 ⟨List.nodup_reverse.2 hnew, hl.once, ?_⟩
    rintro h hh _ hh' rfl
    obtain ⟨i, -, hi⟩ := List.mem_filterMap.1 (List.mem_reverse.1 hh)
    exact ((hl.owned h).2 ⟨i, hi⟩).2 hh'
  given h hh := by
    rcases List.mem_append.1 hh with hh | hh
    · obtain ⟨i, -, hi⟩ := List.mem_filterMap.1 (List.mem_reverse.1 hh)
      exact ((hl.owned h).2 ⟨i, hi⟩).1
    · exact hl.given h hh

variable [DecidableEq ι]

/-- Give out a handle to a place. -/
def openAt (l : Ledger ι) (i : ι) : Ledger ι :=
  ⟨Function.update l.owner i (some l.opened), l.opened + 1, l.closed⟩

/-- Close what a place owns. -/
def close (l : Ledger ι) (i : ι) : Ledger ι :=
  ⟨Function.update l.owner i none, l.opened, (l.owner i).toList ++ l.closed⟩

@[simp] theorem owner_openAt_self (l : Ledger ι) (i : ι) : (l.openAt i).owner i = some l.opened :=
  Function.update_self ..

theorem owner_openAt_of_ne (l : Ledger ι) {i j : ι} (h : j ≠ i) :
    (l.openAt i).owner j = l.owner j := Function.update_of_ne h ..

@[simp] theorem owner_close_self (l : Ledger ι) (i : ι) : (l.close i).owner i = none :=
  Function.update_self ..

theorem owner_close_of_ne (l : Ledger ι) {i j : ι} (h : j ≠ i) :
    (l.close i).owner j = l.owner j := Function.update_of_ne h ..

/-- Closing at a place that owns nothing does nothing. -/
theorem close_none (hi : l.owner i = none) : l.close i = l := by
  have howner : Function.update l.owner i none = l.owner := by rw [← hi, Function.update_eq_self]
  rw [close, howner, hi]
  rfl

theorem Sound.openAt (hl : l.Sound) (hi : l.owner i = none) : (l.openAt i).Sound := by
  have hfresh : ∀ j, l.owner j ≠ some l.opened := fun j hj =>
    Nat.lt_irrefl _ ((hl.owned _).2 ⟨j, hj⟩).1
  refine ⟨fun h => ⟨?_, ?_⟩, fun j k h hj hk => ?_, hl.once, ?_⟩
  · rintro ⟨hlt, hnot⟩
    by_cases he : h = l.opened
    · subst he
      exact ⟨i, owner_openAt_self l i⟩
    · obtain ⟨j, hj⟩ := (hl.owned h).1 ⟨Nat.lt_of_le_of_ne (Nat.le_of_lt_succ hlt) he, hnot⟩
      have hne : j ≠ i := fun he => by rw [he, hi] at hj; cases hj
      exact ⟨j, (owner_openAt_of_ne l hne).trans hj⟩
  · rintro ⟨j, hj⟩
    by_cases he : j = i
    · subst he
      obtain rfl : l.opened = h := by simpa using hj
      exact ⟨Nat.lt_succ_self _, fun hh => Nat.lt_irrefl _ (hl.given _ hh)⟩
    · rw [owner_openAt_of_ne l he] at hj
      have hold := (hl.owned h).2 ⟨j, hj⟩
      exact ⟨Nat.lt_succ_of_lt hold.1, hold.2⟩
  · -- the new handle is owned by no other place
    by_cases hji : j = i <;> by_cases hki : k = i
    · rw [hji, hki]
    · subst hji
      obtain rfl : l.opened = h := by simpa using hj
      exact absurd ((owner_openAt_of_ne l hki).symm.trans hk) (hfresh k)
    · subst hki
      obtain rfl : l.opened = h := by simpa using hk
      exact absurd ((owner_openAt_of_ne l hji).symm.trans hj) (hfresh j)
    · exact hl.distinct j k h ((owner_openAt_of_ne l hji).symm.trans hj)
        ((owner_openAt_of_ne l hki).symm.trans hk)
  · exact fun h hh => Nat.lt_succ_of_lt (hl.given h hh)

theorem Sound.close (hl : l.Sound) (i : ι) : (l.close i).Sound := by
  cases hi : l.owner i with
  | none =>
    rw [close_none hi]
    exact hl
  | some h =>
    have hopen := (hl.owned h).2 ⟨i, hi⟩
    have hclosed : (l.close i).closed = h :: l.closed := by
      rw [Ledger.close, hi]
      rfl
    have howner : ∀ j h', (l.close i).owner j = some h' ↔ j ≠ i ∧ l.owner j = some h' := by
      intro j h'
      by_cases he : j = i
      · subst he
        simp
      · rw [owner_close_of_ne l he, and_iff_right he]
    refine ⟨fun h' => ?_, fun j k h' hj hk => ?_, ?_, fun h' hh => ?_⟩
    · rw [IsOpen, hclosed, List.mem_cons, not_or]
      constructor
      · rintro ⟨hlt, hne, hnot⟩
        obtain ⟨j, hj⟩ := (hl.owned h').1 ⟨hlt, hnot⟩
        refine ⟨j, (howner j h').2 ⟨?_, hj⟩⟩
        rintro rfl
        exact hne (Option.some.inj (hj.symm.trans hi))
      · rintro ⟨j, hj⟩
        obtain ⟨hne, hj⟩ := (howner j h').1 hj
        have hold := (hl.owned h').2 ⟨j, hj⟩
        exact ⟨hold.1, fun he => hne (hl.distinct j i h' hj (he ▸ hi)), hold.2⟩
    · exact hl.distinct j k h' ((howner j h').1 hj).2 ((howner k h').1 hk).2
    · rw [hclosed]
      exact List.nodup_cons.2 ⟨hopen.2, hl.once⟩
    · rw [hclosed, List.mem_cons] at hh
      rcases hh with rfl | hh
      · exact hopen.1
      · exact hl.given h' hh

end Ledger
