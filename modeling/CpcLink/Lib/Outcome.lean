/-
  Postconditions of computations that can fail.

  `Ensures x P E` says that the result of `x` meets `P`, and its error `E`.  The
  rules follow the ways such computations are put together.
-/
import Mathlib.Logic.Basic

universe u

variable {ε : Type*} {α β : Type u}

/-- A result meets `P`, an error meets `E`. -/
def Ensures (x : Except ε α) (P : α → Prop) (E : ε → Prop) : Prop :=
  match x with
  | .ok a => P a
  | .error e => E e

namespace Ensures

variable {x y : Except ε α} {f : α → Except ε β} {P : α → Prop} {Q : β → Prop} {E : ε → Prop}

theorem ok {a : α} (h : P a) : Ensures (.ok a) P E := h

theorem error {e : ε} (h : E e) : Ensures (.error e) P E := h

theorem bind (hx : Ensures x P E) (hf : ∀ a, P a → Ensures (f a) Q E) : Ensures (x >>= f) Q E := by
  cases x with
  | error e => exact hx
  | ok a => exact hf a hx

theorem ite {p : Prop} [Decidable p] (hx : p → Ensures x P E) (hy : ¬ p → Ensures y P E) :
    Ensures (if p then x else y) P E := by
  split
  next hp => exact hx hp
  next hp => exact hy hp

/-- Nothing is asked of either. -/
theorem any (x : Except ε α) : Ensures x (fun _ => True) fun _ => True := by
  cases x <;> exact trivial

theorem mono {P' : α → Prop} {E' : ε → Prop} (h : Ensures x P E) (hP : ∀ a, P a → P' a)
    (hE : ∀ e, E e → E' e) : Ensures x P' E' := by
  cases x with
  | ok a => exact hP a h
  | error e => exact hE e h

/-- Nothing is asked of an error. -/
theorem of_ok (h : ∀ a, x = .ok a → P a) : Ensures x P fun _ => True := by
  cases x with
  | ok a => exact h a rfl
  | error e => exact trivial

theorem result (h : Ensures x P E) {a : α} (hx : x = .ok a) : P a := by
  subst hx; exact h

theorem fault (h : Ensures x P E) {e : ε} (hx : x = .error e) : E e := by
  subst hx; exact h

end Ensures

/- The rules are used in place of the definition. -/
attribute [irreducible] Ensures

/-- Whether there is a result that meets `P` is decided by computing it. -/
instance decidableExistsOk {x : Except ε α} {P : α → Prop} [DecidablePred P] :
    Decidable (∃ a, x = .ok a ∧ P a) :=
  match x with
  | .ok a => decidable_of_iff (P a) ⟨fun h => ⟨a, rfl, h⟩, fun ⟨_, he, h⟩ => Except.ok.inj he ▸ h⟩
  | .error _ => .isFalse fun ⟨_, he, _⟩ => by cases he
