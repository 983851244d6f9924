/-
  Places at which things are put and then called until they are complete.

  A log has the events of all places.  The events of one place are `Sessions`
  when everything put there is called with the numbers 1, 2, 3 and so on, each
  once, up to the first call that completes it, and nothing else is put there
  before.
-/
import Mathlib.Data.List.Basic
import Mathlib.Data.Nat.Cast.Defs
import Mathlib.Data.Int.Cast.Basic

inductive SessionEvent (γ : Type*)
  | put (c : γ)
  | called (c : γ) (number : ℤ) (complete : Bool)

namespace SessionEvent

variable {ι γ : Type*}

/-- What was put is called with the numbers from 1 to `n`, and is not complete. -/
def running (c : γ) (n : ℕ) : List (SessionEvent γ) :=
  .put c :: (List.range n).map fun k : ℕ => .called c (k + 1) false

/-- The call after these completes it. -/
def whole (c : γ) (n : ℕ) : List (SessionEvent γ) := running c n ++ [.called c (n + 1) true]

/-- What is there now, and how often it was called. -/
def current : Option (γ × ℕ) → List (SessionEvent γ)
  | some (c, n) => running c n
  | none => []

@[simp] theorem current_none : (current none : List (SessionEvent γ)) = [] := rfl

@[simp] theorem current_some (c : γ) (n : ℕ) : current (some (c, n)) = running c n := rfl

/-- The events of a place: one session after the other, and what is there now. -/
def Sessions (events : List (SessionEvent γ)) (now : Option (γ × ℕ)) : Prop :=
  ∃ past : List (γ × ℕ), events = past.flatMap (fun p => whole p.1 p.2) ++ current now

section
variable {events : List (SessionEvent γ)} {c : γ} {n : ℕ}

theorem running_succ (c : γ) (n : ℕ) :
    running c n ++ [.called c (n + 1) false] = running c (n + 1) := by
  rw [running, running, List.range_succ, List.map_append, List.cons_append]
  rfl

theorem sessions_nil : Sessions ([] : List (SessionEvent γ)) none := ⟨[], rfl⟩

theorem Sessions.put (h : Sessions events none) (c : γ) :
    Sessions (events ++ [.put c]) (some (c, 0)) := by
  obtain ⟨past, rfl⟩ := h
  exact ⟨past, by rw [current_none, List.append_nil]; rfl⟩

theorem Sessions.again (h : Sessions events (some (c, n))) :
    Sessions (events ++ [.called c (n + 1) false]) (some (c, n + 1)) := by
  obtain ⟨past, rfl⟩ := h
  exact ⟨past, by rw [current_some, current_some, List.append_assoc, running_succ]⟩

theorem Sessions.complete (h : Sessions events (some (c, n))) :
    Sessions (events ++ [.called c (n + 1) true]) none := by
  obtain ⟨past, rfl⟩ := h
  refine ⟨past ++ [(c, n)], ?_⟩
  rw [current_some, current_none, List.append_nil, List.flatMap_append, List.append_assoc,
    List.flatMap_singleton]
  rfl

end

/-! ## One place -/

variable [DecidableEq ι]

/-- The events of the place `i`, oldest first. -/
def eventsAt (i : ι) (log : List (ι × SessionEvent γ)) : List (SessionEvent γ) :=
  log.filterMap fun p => if p.1 = i then some p.2 else none

variable {i j : ι} {log : List (ι × SessionEvent γ)} {e : SessionEvent γ}

theorem eventsAt_snoc_self : eventsAt i (log ++ [(i, e)]) = eventsAt i log ++ [e] := by
  rw [eventsAt, List.filterMap_append]
  simp [eventsAt]

theorem eventsAt_snoc_other (h : j ≠ i) : eventsAt i (log ++ [(j, e)]) = eventsAt i log := by
  rw [eventsAt, List.filterMap_append]
  simp [eventsAt, h]

end SessionEvent
