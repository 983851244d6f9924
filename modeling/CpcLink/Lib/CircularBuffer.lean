/-
  Circular buffers over an array of `N` cells, with no element count.

  A buffer is a read index and a store index.  Indices move forward with the
  sign-preserving remainder (`Int.tmod`), as in C, so an index may also be
  negative: every index strictly between `-N` and `N` is covered.

  * `move` moves an index, `gap` is the number of cells from the read index to
    the store index;
  * `cell` and `window` are the cells ahead of an index, as stepping the index
    reaches them;
  * `window_move` and `window_update` say what reading and writing do to the
    window, and `window_update` needs that the buffer is not full.
-/
import Mathlib.Data.Int.ModEq
import Mathlib.Data.List.Basic
import Mathlib.Logic.Function.Basic

namespace CircularBuffer

variable {α : Type*} {N : ℤ}

/-- Move index `r` forward by `k`. -/
def move (N r k : ℤ) : ℤ := (r + k).tmod N

/-- The number of cells from the read index `r` to the store index `s`. -/
def gap (N r s : ℤ) : ℤ := (N + s - r).tmod N

/-- The cell `k` places ahead of `r`. -/
def cell (d : ℤ → α) (N r : ℤ) (k : ℕ) : α := d (move N r k)

/-- The `n` cells from `r` on. -/
def window (d : ℤ → α) (N r : ℤ) (n : ℕ) : List α := (List.range n).map (cell d N r)

/-- An index of the buffer, or one that a negative move has left below it. -/
structure Index (N r : ℤ) : Prop where
  gt : -N < r
  lt : r < N

theorem Index.pos {r : ℤ} (h : Index N r) : 0 < N := by have := h.gt; have := h.lt; omega

/-! ## Moving an index -/

theorem tmod_of_lt {x : ℤ} (h1 : -N < x) (h2 : x < N) : x.tmod N = x := by
  rcases Int.le_total 0 x with h | h
  · exact Int.tmod_eq_of_lt h h2
  · have := Int.tmod_eq_of_lt (a := -x) (b := N) (by omega) (by omega)
    rw [Int.neg_tmod] at this; omega

theorem tmod_sub_self {x : ℤ} (hN : 0 ≤ N) (h : N ≤ x) : (x - N).tmod N = x.tmod N := by
  rw [Int.tmod_eq_emod_of_nonneg (by omega), Int.tmod_eq_emod_of_nonneg (by omega),
    Int.sub_emod_right]

theorem move_of_nonneg {r k : ℤ} (h : 0 ≤ r + k) : move N r k = (r + k) % N :=
  Int.tmod_eq_emod_of_nonneg h

theorem move_of_neg {r k : ℤ} (hr : Index N r) (hk : 0 ≤ k) (h : r + k < 0) :
    move N r k = r + k :=
  tmod_of_lt (by have := hr.gt; omega) (by have := hr.pos; omega)

@[simp] theorem move_zero {r : ℤ} (hr : Index N r) : move N r 0 = r := by
  by_cases h : 0 ≤ r
  · rw [move_of_nonneg (by omega), Int.add_zero, Int.emod_eq_of_lt h hr.lt]
  · rw [move_of_neg hr le_rfl (by omega), Int.add_zero]

theorem Index.move {r : ℤ} (hr : Index N r) (k : ℤ) : Index N (move N r k) :=
  ⟨Int.lt_tmod_of_pos _ hr.pos, Int.tmod_lt_of_pos _ hr.pos⟩

theorem move_nonneg {r k : ℤ} (h : 0 ≤ r + k) : 0 ≤ move N r k := Int.tmod_nonneg _ h

/-- Moves add up. -/
theorem move_move {r a b : ℤ} (hr : Index N r) (ha : 0 ≤ a) (hb : 0 ≤ b) :
    move N (move N r a) b = move N r (a + b) := by
  by_cases h : 0 ≤ r + a
  · have hm := move_nonneg (N := N) h
    rw [move_of_nonneg (by omega), move_of_nonneg h, move_of_nonneg (by omega), Int.emod_add_emod,
      Int.add_assoc]
  · rw [move_of_neg hr ha (by omega), move, move, Int.add_assoc]

/-- A step back undoes a step forward, except from the end of the array, where
    the index goes below it. -/
theorem move_pred {r k : ℤ} (hr : Index N r) (hk : 0 ≤ k) (hkN : k < N) (h : r + k ≠ N) :
    move N (move N r k) (-1) = move N r (k - 1) := by
  have := hr.gt; have := hr.lt
  unfold move
  rcases Int.lt_or_gt_of_ne h with hlt | hgt
  · rw [tmod_of_lt (by omega) hlt]; congr 1; omega
  · rw [← tmod_sub_self (x := r + k) (by omega) (by omega),
      ← tmod_sub_self (x := r + (k - 1)) (by omega) (by omega),
      tmod_of_lt (x := r + k - N) (by omega) (by omega)]
    congr 1; omega

theorem move_pred_end {r k : ℤ} (hN : 1 < N) (h : r + k = N) :
    move N (move N r k) (-1) = -1 := by
  unfold move
  rw [h, Int.tmod_self, tmod_of_lt (by omega) (by omega)]; omega

/-- Moves by less than the size from one index reach different cells. -/
theorem move_ne {r i j : ℤ} (hr : Index N r) (hi : 0 ≤ i) (hij : i < j) (hj : j < N)
    (hrj : 0 ≤ r + j) : move N r i ≠ move N r j := by
  intro h
  rw [move_of_nonneg hrj] at h
  by_cases hri : 0 ≤ r + i
  · rw [move_of_nonneg hri] at h
    have h0 : (r + j - (r + i)) % N = 0 := by rw [Int.sub_emod, h]; simp
    rw [Int.emod_eq_of_lt (by omega) (by omega)] at h0
    omega
  · rw [move_of_neg hr hi (by omega)] at h
    have := Int.emod_nonneg (r + j) hr.pos.ne'
    omega

/-- A move by less than two rounds comes back only after one round. -/
theorem move_eq_self {r k : ℤ} (hr : Index N r) (hk : 0 < k) (hkN : k < 2 * N) :
    move N r k = r ↔ k = N ∧ 0 ≤ r := by
  have := hr.gt; have := hr.lt
  unfold move
  by_cases h1 : r + k < N
  · rw [tmod_of_lt (by omega) h1]; omega
  · rw [← tmod_sub_self (by omega) (by omega)]
    by_cases h2 : r + k - N < N
    · rw [tmod_of_lt (by omega) h2]; omega
    · rw [← tmod_sub_self (by omega) (by omega), tmod_of_lt (by omega) (by omega)]; omega

/-! ## The gap -/

theorem gap_eq {r s : ℤ} (hr : Index N r) (hs : 0 ≤ s) : gap N r s = (s - r) % N := by
  have := hr.lt
  rw [gap, Int.tmod_eq_emod_of_nonneg (by omega), show N + s - r = s - r + N by omega,
    Int.add_emod_right]

theorem gap_nonneg {r s : ℤ} (hr : Index N r) (hs : 0 ≤ s) : 0 ≤ gap N r s := by
  rw [gap_eq hr hs]; exact Int.emod_nonneg _ hr.pos.ne'

theorem gap_lt {r s : ℤ} (hr : Index N r) : gap N r s < N := Int.tmod_lt_of_pos _ hr.pos

/-- Moving the read index takes its cells out of the gap, modulo the size: a
    move past the store index brings the old cells back into it. -/
theorem gap_move {r s k : ℤ} (hr : Index N r) (hs : 0 ≤ s) (hk : 0 ≤ k) :
    gap N (move N r k) s = (gap N r s - k) % N := by
  rw [gap_eq (hr.move k) hs, gap_eq hr hs, Int.emod_sub_emod]
  by_cases h : 0 ≤ r + k
  · rw [move_of_nonneg h, Int.sub_emod_emod]; congr 1; omega
  · rw [move_of_neg hr hk (by omega)]; congr 1; omega

/-- Moving the store index adds its cells to the gap, modulo the size: a gap
    that grows to the size is seen as empty. -/
theorem gap_store {r s k : ℤ} (hr : Index N r) (hs : 0 ≤ s) (hk : 0 ≤ k) :
    gap N r (move N s k) = (gap N r s + k) % N := by
  rw [move_of_nonneg (by omega), gap_eq hr (Int.emod_nonneg _ hr.pos.ne'), gap_eq hr hs,
    Int.emod_sub_emod, Int.emod_add_emod]
  congr 1; omega

/-- The store index is the read index moved over the gap. -/
theorem move_gap {r s : ℤ} (hr : Index N r) (hs : 0 ≤ s) (hsN : s < N)
    (h : 0 ≤ r + gap N r s) : move N r (gap N r s) = s := by
  rw [move_of_nonneg h, gap_eq hr hs, Int.add_emod_emod, show r + (s - r) = s by omega,
    Int.emod_eq_of_lt hs hsN]

/-- The room of a buffer whose indices differ is what the gap leaves. -/
theorem room_eq {r s : ℤ} (hr : Index N r) (hr0 : 0 ≤ r) (hs : 0 ≤ s) (hsN : s < N) (hne : s ≠ r) :
    (N - s + r).tmod N = N - gap N r s := by
  have := hr.lt
  rw [gap_eq hr hs, Int.tmod_eq_emod_of_nonneg (by omega)]
  rcases Int.lt_or_gt_of_ne hne with h | h
  · rw [show N - s + r = r - s + N by omega, Int.add_emod_right, ← Int.add_emod_right (s - r),
      Int.emod_eq_of_lt (by omega) (by omega), Int.emod_eq_of_lt (by omega) (by omega)]
    omega
  · rw [Int.emod_eq_of_lt (by omega) (by omega), Int.emod_eq_of_lt (by omega) (by omega)]; omega

theorem gap_pos {r s : ℤ} (hr : Index N r) (hr0 : 0 ≤ r) (hs : 0 ≤ s) (hsN : s < N) (hne : s ≠ r) :
    0 < gap N r s := by
  have := room_eq hr hr0 hs hsN hne
  have := Int.tmod_lt_of_pos (N - s + r) hr.pos
  omega

theorem gap_self (r : ℤ) : gap N r r = 0 := by rw [gap, Int.add_sub_cancel, Int.tmod_self]

/-! ## The window -/

variable {d : ℤ → α}

@[simp] theorem length_window (r : ℤ) (n : ℕ) : (window d N r n).length = n := by simp [window]

@[simp] theorem getElem_window (r : ℤ) (n k : ℕ) (_ : k < (window d N r n).length) :
    (window d N r n)[k] = cell d N r k := by simp [window]

theorem cell_move {r : ℤ} (hr : Index N r) (a k : ℕ) :
    cell d N (move N r a) k = cell d N r (a + k) := by
  rw [cell, cell, move_move hr (by omega) (by omega), Nat.cast_add]

/-- Moving the index drops the cells it passes. -/
theorem window_move {r : ℤ} (hr : Index N r) (a n : ℕ) :
    window d N (move N r a) (n - a) = (window d N r n).drop a := by
  refine List.ext_getElem (by simp) fun k h1 h2 => ?_
  rw [getElem_window, cell_move hr, List.getElem_drop, getElem_window]

theorem window_succ {r : ℤ} (hr : Index N r) (n : ℕ) :
    window d N r (n + 1) = d r :: window d N (move N r 1) n := by
  refine List.ext_getElem (by simp) fun k h1 h2 => ?_
  cases k with
  | zero => simp [cell, move_zero hr]
  | succ k =>
    have := cell_move (d := d) hr 1 k
    rw [Nat.cast_one] at this
    rw [getElem_window, List.getElem_cons_succ, getElem_window, this, Nat.add_comm]

/-- Writing at the store index of a buffer that is not full adds the cell at
    the end of the window. -/
theorem window_update {r s : ℤ} {n : ℕ} (hr : Index N r) (hn : n < N) (hrn : 0 ≤ r + n)
    (hs : s = move N r n) (x : α) :
    window (Function.update d s x) N r (n + 1) = window d N r n ++ [x] := by
  refine List.ext_getElem (by simp) fun k h1 h2 => ?_
  rw [getElem_window, cell]
  simp only [length_window] at h1
  rcases Nat.lt_or_eq_of_le (Nat.le_of_lt_succ h1) with hk | rfl
  · rw [Function.update_of_ne (by rw [hs]; exact move_ne hr (by omega) (by omega) hn hrn),
      List.getElem_append_left (by simpa using hk), getElem_window, cell]
  · rw [hs, Function.update_self, List.getElem_append_right (by simp)]; simp

end CircularBuffer
