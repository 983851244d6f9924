/-
  Bounded buffers with their history.

  A passage knows what was put into it and what was got from it so far.  What was got, in
  front of what it holds, was put in this order: nothing comes out twice or out of turn.
  Nothing is lost inside of it either, unless it is cleared (`Kept`).
-/
import Mathlib.Data.List.Basic
import Mathlib.Data.List.Infix

structure Passage (α : Type*) (size : ℕ) where
  held : List α
  fits : held.length ≤ size
  put : List α
  got : List α
  passes : (got ++ held).Sublist put

namespace Passage

variable {α : Type*} {size : ℕ}

/-- One that nothing has been put into. -/
def new : Passage α size := ⟨[], Nat.zero_le _, [], [], .slnil⟩

def hasRoom (p : Passage α size) : Bool := decide (p.held.length < size)

def hasSome (p : Passage α size) : Bool := !p.held.isEmpty

/-- Put something in; without room it is lost, and was not put. -/
def write (p : Passage α size) (x : α) : Passage α size :=
  if h : p.held.length < size then
    { held := p.held ++ [x]
      fits := by rw [List.length_append]; exact h
      put := p.put ++ [x]
      got := p.got
      passes := by
        rw [← List.append_assoc]
        exact p.passes.append (.refl [x]) }
  else p

/-- Get the first thing out, if there is one. -/
def take (p : Passage α size) : Passage α size where
  held := p.held.tail
  fits := by rw [List.length_tail]; exact (Nat.sub_le _ _).trans p.fits
  put := p.put
  got := p.got ++ p.held.head?.toList
  passes := by
    have hheld : p.held.head?.toList ++ p.held.tail = p.held := by cases p.held <;> rfl
    rw [List.append_assoc, hheld]
    exact p.passes

/-- Drop what is held. -/
def clear (p : Passage α size) : Passage α size where
  held := []
  fits := Nat.zero_le _
  put := p.put
  got := p.got
  passes := by
    rw [List.append_nil]
    exact (List.sublist_append_left _ _).trans p.passes

section
variable {p : Passage α size} {x : α} {held : List α}

theorem hasRoom_iff : p.hasRoom = true ↔ p.held.length < size := decide_eq_true_iff

theorem hasSome_iff : p.hasSome = true ↔ p.held ≠ [] := by
  cases h : p.held <;> simp [hasSome, h]

theorem length_put (p : Passage α size) : p.got.length + p.held.length ≤ p.put.length := by
  have := p.passes.length_le
  rwa [List.length_append] at this

theorem nil_of_put (h : p.put = []) : p.got = [] ∧ p.held = [] := by
  have := p.passes
  rwa [h, List.sublist_nil, List.append_eq_nil_iff] at this

@[simp] theorem write_got (p : Passage α size) (x : α) : (p.write x).got = p.got := by
  unfold write
  split <;> rfl

@[simp] theorem take_put (p : Passage α size) : p.take.put = p.put := rfl

theorem write_room (h : p.hasRoom = true) (x : α) :
    (p.write x).held = p.held ++ [x] ∧ (p.write x).put = p.put ++ [x] := by
  rw [write, dif_pos (hasRoom_iff.1 h)]
  exact ⟨rfl, rfl⟩

theorem put_prefix_write (p : Passage α size) (x : α) : p.put <+: (p.write x).put := by
  unfold write
  split
  · exact List.prefix_append _ _
  · exact List.prefix_rfl

theorem take_cons (h : p.held = x :: held) : p.take.held = held ∧ p.take.got = p.got ++ [x] := by
  simp [take, h]

theorem take_nil (h : p.held = []) : p.take = p := by
  obtain ⟨held, _, put, got, _⟩ := p
  cases h
  simp [take]

/-- What is taken makes room. -/
theorem hasRoom_take (h : p.hasRoom = true) : p.take.hasRoom = true := by
  rw [hasRoom_iff] at h ⊢
  exact (List.length_tail ▸ Nat.sub_le _ _ : p.held.tail.length ≤ _).trans_lt h

theorem hasRoom_take_of_pos (hsize : 0 < size) (p : Passage α size) : p.take.hasRoom = true := by
  have hfits := p.fits
  rw [hasRoom_iff]
  change p.held.tail.length < size
  rw [List.length_tail]
  omega

theorem hasRoom_clear (h : p.hasRoom = true) : p.clear.hasRoom = true :=
  hasRoom_iff.2 ((Nat.zero_le _).trans_lt (hasRoom_iff.1 h))

end

/-! ## Conservation -/

/-- What was put in since then has been got or is held, behind what was got or held. -/
def Kept (p p' : Passage α size) : Prop :=
  ∃ added, p'.put = p.put ++ added ∧ p'.got ++ p'.held = p.got ++ p.held ++ added

namespace Kept

variable {p p' p'' : Passage α size}

theorem refl (p : Passage α size) : Kept p p := ⟨[], by simp, by simp⟩

theorem trans (h : Kept p p') (h' : Kept p' p'') : Kept p p'' := by
  obtain ⟨added, hput, hheld⟩ := h
  obtain ⟨added', hput', hheld'⟩ := h'
  exact ⟨added ++ added', by rw [hput', hput, List.append_assoc],
    by rw [hheld', hheld, List.append_assoc]⟩

theorem write (p : Passage α size) (x : α) : Kept p (p.write x) := by
  unfold Passage.write
  split
  · exact ⟨[x], rfl, (List.append_assoc _ _ _).symm⟩
  · exact refl p

theorem take (p : Passage α size) : Kept p p.take := by
  refine ⟨[], (List.append_nil _).symm, ?_⟩
  have hheld : p.held.head?.toList ++ p.held.tail = p.held := by cases p.held <;> rfl
  rw [List.append_nil]
  change p.got ++ p.held.head?.toList ++ p.held.tail = _
  rw [List.append_assoc, hheld]

/-- What is put stays behind what is held. -/
theorem held (h : Kept p p') (hgot : p'.got = p.got) : p.held <+: p'.held := by
  obtain ⟨added, -, hheld⟩ := h
  rw [hgot, List.append_assoc] at hheld
  exact ⟨added, (List.append_cancel_left hheld).symm⟩

theorem length (h : Kept p p') : p'.put.length + (p.got.length + p.held.length) =
    p.put.length + (p'.got.length + p'.held.length) := by
  obtain ⟨added, hput, hheld⟩ := h
  have hlen := congrArg List.length hheld
  simp only [List.length_append] at hlen
  rw [hput, List.length_append]
  omega

/-- From an empty one on, nothing is missing. -/
theorem passes (h : Kept p p') (hput : p.put = []) : p'.got ++ p'.held = p'.put := by
  obtain ⟨added, hput', hheld⟩ := h
  obtain ⟨hgot, hnil⟩ := nil_of_put hput
  rw [hheld, hput', hput, hgot, hnil]
  rfl

end Kept

end Passage
