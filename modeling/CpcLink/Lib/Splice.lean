/-
  Splices of an array: overwriting, inserting and cutting.

  The list functions are what `memcpy` and `memmove` do; the functions on
  `Fin n` say, cell by cell, what an array of fixed size holds afterwards.
-/
import Mathlib.Data.List.OfFn
import Mathlib.Data.Nat.Basic

namespace Splice

variable {α : Type*} {n : ℕ}

/-- Overwrite the cells from `off` on. -/
def overwrite (d : List α) (off : ℕ) (src : List α) : List α :=
  d.take off ++ src ++ d.drop (off + src.length)

/-- The first `len` cells of a buffer. -/
def cells (buffer : ℕ → α) (len : ℕ) : List α := (List.range len).map buffer

/-! ## Arrays of fixed size -/

/-- `len` cells of the buffer are put at `off`. -/
def putAt (f : Fin n → α) (off len : ℕ) (buffer : ℕ → α) : Fin n → α := fun j =>
  if off ≤ j ∧ j < off + len then buffer (j - off) else f j

/-- The cells from `off` on move up, the last `len` are lost, and the buffer
    fills the gap. -/
def insertAt (f : Fin n → α) (off len : ℕ) (buffer : ℕ → α) : Fin n → α := fun j =>
  if j < off then f j
  else if j < off + len then buffer (j - off)
  else f ⟨j - len, (Nat.sub_le _ _).trans_lt j.isLt⟩

/-- `len` cells are taken out at `off`, the cells behind them move down, and
    the last `len` become `z`. -/
def cutAt (f : Fin n → α) (off len : ℕ) (z : α) : Fin n → α := fun j =>
  if j < off then f j
  else if h : j + len < n then f ⟨j + len, h⟩
  else z

/-! ## Lists of fixed length -/

/-- `src` is put in at `off`, and as many elements are lost at the end. -/
def spliceIn (d : List α) (off : ℕ) (src : List α) : List α :=
  d.take off ++ src ++ (d.take (d.length - src.length)).drop off

/-- `len` elements are taken out at `off`, and as many `z` come in at the end. -/
def spliceOut (d : List α) (off len : ℕ) (z : α) : List α :=
  d.take off ++ d.drop (off + len) ++ List.replicate len z

section
variable {d src : List α} {off len : ℕ} {f : Fin n → α} {buffer : ℕ → α} {z : α}

@[simp] theorem length_cells (buffer : ℕ → α) (len : ℕ) : (cells buffer len).length = len := by
  rw [cells, List.length_map, List.length_range]

theorem getElem?_cells (buffer : ℕ → α) (len j : ℕ) :
    (cells buffer len)[j]? = if j < len then some (buffer j) else none := by
  rw [cells, List.getElem?_map]
  split
  next h => rw [List.getElem?_range h]; rfl
  next h => rw [List.getElem?_eq_none (by rw [List.length_range]; omega)]; rfl

theorem length_overwrite (h : off + src.length ≤ d.length) :
    (overwrite d off src).length = d.length := by
  rw [overwrite, List.length_append, List.length_append, List.length_take, List.length_drop]
  omega

/-- The cells after an overwrite. -/
theorem getElem?_overwrite (h : off + src.length ≤ d.length) (j : ℕ) :
    (overwrite d off src)[j]? =
      if j < off then d[j]? else if j < off + src.length then src[j - off]? else d[j]? := by
  have hoff : (d.take off).length = off := by rw [List.length_take]; omega
  rw [overwrite, List.append_assoc]
  split_ifs with h1 h2
  · rw [List.getElem?_append_left (by omega), List.getElem?_take_of_lt h1]
  · rw [List.getElem?_append_right (by omega), List.getElem?_append_left (by omega), hoff]
  · rw [List.getElem?_append_right (by omega), List.getElem?_append_right (by omega),
      List.getElem?_drop, hoff]
    congr 1
    omega

/-- The cells of a part. -/
theorem getElem?_part (d : List α) (off len j : ℕ) :
    ((d.drop off).take len)[j]? = if j < len then d[off + j]? else none := by
  split
  next h => rw [List.getElem?_take_of_lt h, List.getElem?_drop]
  next h => rw [List.getElem?_eq_none (by rw [List.length_take]; omega)]

/-- What was written reads back. -/
theorem part_overwrite (h : off + src.length ≤ d.length) :
    ((overwrite d off src).drop off).take src.length = src := by
  refine List.ext_getElem? fun j => ?_
  rw [getElem?_part, getElem?_overwrite h]
  split
  next hj => rw [if_neg (by omega), if_pos (by omega), Nat.add_sub_cancel_left]
  next hj => rw [List.getElem?_eq_none (by omega)]

/-- A part elsewhere is not touched. -/
theorem part_overwrite_of_disjoint (h : off + src.length ≤ d.length) {a k : ℕ}
    (hd : a + k ≤ off ∨ off + src.length ≤ a) :
    ((overwrite d off src).drop a).take k = (d.drop a).take k := by
  refine List.ext_getElem? fun j => ?_
  rw [getElem?_part, getElem?_part, getElem?_overwrite h]
  rcases lt_or_ge j k with hj | hj
  · rcases hd with hlow | hhigh
    · rw [if_pos hj, if_pos hj, if_pos (by omega)]
    · rw [if_pos hj, if_pos hj, if_neg (by omega), if_neg (by omega)]
  · rw [if_neg (by omega), if_neg (by omega)]

/-! ## What the copies do -/

theorem overwrite_ofFn (h : off + len ≤ n) :
    overwrite (List.ofFn f) off (cells buffer len) = List.ofFn (putAt f off len buffer) := by
  refine List.ext_getElem? fun j => ?_
  rw [getElem?_overwrite (by rwa [length_cells, List.length_ofFn]), length_cells, getElem?_cells]
  simp only [List.getElem?_ofFn, putAt]
  split_ifs with h1 h2 h3 h4 <;> first | rfl | omega

theorem length_spliceIn (h : off + src.length ≤ d.length) :
    (spliceIn d off src).length = d.length := by
  simp only [spliceIn, List.length_append, List.length_take, List.length_drop]
  omega

/-- The copies of an insertion. -/
theorem move_up (h : off + src.length ≤ d.length) :
    overwrite (overwrite d (off + src.length) ((d.drop off).take (d.length - off - src.length)))
      off src = spliceIn d off src := by
  have hmoved : (d.drop off).take (d.length - off - src.length) =
      (d.take (d.length - src.length)).drop off := by
    rw [List.drop_take, Nat.sub_right_comm]
  have hlen : ((d.take (d.length - src.length)).drop off).length =
      d.length - src.length - off := by
    rw [List.length_drop, List.length_take]; omega
  have hoff : (d.take (off + src.length)).length = off + src.length := by
    rw [List.length_take]; omega
  have hrest : off + src.length + (d.length - src.length - off) = d.length := by omega
  rw [hmoved, overwrite, overwrite, hlen, hrest, List.drop_length, List.append_nil,
    List.take_append_of_le_length (by omega), List.take_take, Nat.min_eq_left (by omega),
    List.drop_left' hoff, spliceIn]

/-- The copies of a cut. -/
theorem move_down (h : off + len ≤ d.length) :
    overwrite (overwrite d off ((d.drop (off + len)).take (d.length - off - len)))
      (d.length - len) (List.replicate len z) = spliceOut d off len z := by
  have hmoved : (d.drop (off + len)).take (d.length - off - len) = d.drop (off + len) :=
    List.take_of_length_le (by rw [List.length_drop]; omega)
  have hkept : (d.take off ++ d.drop (off + len)).length = d.length - len := by
    rw [List.length_append, List.length_take, List.length_drop]; omega
  have hlow : (overwrite d off (d.drop (off + len))).take (d.length - len) =
      d.take off ++ d.drop (off + len) := by
    rw [overwrite, List.take_left' hkept]
  have hlen : (overwrite d off (d.drop (off + len))).length = d.length :=
    length_overwrite (by rw [List.length_drop]; omega)
  have htop : (overwrite d off (d.drop (off + len))).drop (d.length - len + len) = [] :=
    List.drop_eq_nil_of_le (by omega)
  rw [hmoved, overwrite, List.length_replicate, hlow, htop, List.append_nil, spliceOut]

/-- **A cut undoes an insertion**, up to the tail that the insertion lost. -/
theorem spliceOut_spliceIn (h : off + src.length ≤ d.length) :
    spliceOut (spliceIn d off src) off src.length z =
      d.take (d.length - src.length) ++ List.replicate src.length z := by
  have hoff : (d.take off).length = off := by rw [List.length_take]; omega
  have hlow : d.take off = (d.take (d.length - src.length)).take off := by
    rw [List.take_take, Nat.min_eq_left (by omega)]
  have htake : (spliceIn d off src).take off = d.take off := by
    rw [spliceIn, List.append_assoc, List.take_left' hoff]
  have hdrop : (spliceIn d off src).drop (off + src.length) =
      (d.take (d.length - src.length)).drop off := by
    rw [spliceIn, List.drop_left' (by rw [List.length_append, hoff])]
  rw [spliceOut, htake, hdrop, hlow, List.take_append_drop]

/-- An insertion, cell by cell. -/
theorem spliceIn_ofFn (h : off + len ≤ n) :
    spliceIn (List.ofFn f) off (cells buffer len) = List.ofFn (insertAt f off len buffer) := by
  have hoff : ((List.ofFn f).take off).length = off := by
    rw [List.length_take, List.length_ofFn]; omega
  have hnew : ((List.ofFn f).take off ++ cells buffer len).length = off + len := by
    rw [List.length_append, hoff, length_cells]
  refine List.ext_getElem? fun j => ?_
  rw [spliceIn, length_cells, List.length_ofFn, List.getElem?_ofFn]
  simp only [insertAt]
  rcases lt_or_ge j off with hlow | hge
  · rw [List.getElem?_append_left (by omega), List.getElem?_append_left (by omega),
      List.getElem?_take_of_lt hlow, List.getElem?_ofFn, dif_pos (by omega), dif_pos (by omega),
      if_pos hlow]
  · rcases lt_or_ge j (off + len) with hin | hhigh
    · rw [List.getElem?_append_left (by omega), List.getElem?_append_right (by omega), hoff,
        getElem?_cells, if_pos (by omega), dif_pos (by omega), if_neg (by omega), if_pos hin]
    · rw [List.getElem?_append_right (by omega), hnew, List.getElem?_drop]
      rcases lt_or_ge j n with hj | hj
      · rw [List.getElem?_take_of_lt (by omega), List.getElem?_ofFn, dif_pos (by omega),
          dif_pos hj, if_neg (by omega), if_neg (by omega)]
        congr 3
        omega
      · rw [List.getElem?_eq_none (by rw [List.length_take]; omega), dif_neg (by omega)]

/-- A cut, cell by cell. -/
theorem spliceOut_ofFn (h : off + len ≤ n) :
    spliceOut (List.ofFn f) off len z = List.ofFn (cutAt f off len z) := by
  have hoff : ((List.ofFn f).take off).length = off := by
    rw [List.length_take, List.length_ofFn]; omega
  have hkept : ((List.ofFn f).take off ++ (List.ofFn f).drop (off + len)).length = n - len := by
    rw [List.length_append, hoff, List.length_drop, List.length_ofFn]; omega
  refine List.ext_getElem? fun j => ?_
  rw [spliceOut, List.getElem?_ofFn]
  simp only [cutAt]
  rcases lt_or_ge j off with hlow | hge
  · rw [List.getElem?_append_left (by omega), List.getElem?_append_left (by omega),
      List.getElem?_take_of_lt hlow, List.getElem?_ofFn, dif_pos (by omega), dif_pos (by omega),
      if_pos hlow]
  · rcases lt_or_ge j (n - len) with hdown | htop
    · rw [List.getElem?_append_left (by omega), List.getElem?_append_right (by omega), hoff,
        List.getElem?_drop, List.getElem?_ofFn, dif_pos (by omega), dif_pos (by omega),
        if_neg (by omega), dif_pos (by omega)]
      congr 3
      omega
    · rw [List.getElem?_append_right (by omega), hkept, List.getElem?_replicate]
      rcases lt_or_ge j n with hj | hj
      · rw [if_pos (by omega), dif_pos hj, if_neg (by omega), dif_neg (by omega)]
      · rw [if_neg (by omega), dif_neg (by omega)]

/-- A part of an array. -/
theorem part_ofFn (h : off + len ≤ n) : ((List.ofFn f).drop off).take len =
    List.ofFn fun j : Fin len => f ⟨off + j, by omega⟩ := by
  refine List.ext_getElem? fun j => ?_
  rw [getElem?_part, List.getElem?_ofFn, List.getElem?_ofFn]
  split
  next hj => rw [dif_pos (by omega)]
  next hj => rfl

end

end Splice
