/-
  A component that answers operations, and a specification it refines.

  The component runs an operation to a reply and a next state, or fails; the
  specification says which replies and next states are allowed.  If one
  operation can be simulated, so can every sequence of them, without a failure.
-/
import Mathlib.Logic.Basic

variable {σ α op reply ε : Type*}

/-- Run operations in order: their replies, and the state they lead to. -/
def runOps (run : σ → op → Except ε (reply × σ)) : σ → List op → Except ε (List reply × σ)
  | s, [] => .ok ([], s)
  | s, o :: ops => do
    let (r, s') ← run s o
    let (rs, s'') ← runOps run s' ops
    return (r :: rs, s'')

/-- The sequences of operations and replies that the specification allows. -/
inductive SpecRun (spec : α → op → reply → α → Prop) : α → List op → List reply → α → Prop
  | nil (a : α) : SpecRun spec a [] [] a
  | cons {a a' a'' : α} {o : op} {r : reply} {ops : List op} {rs : List reply} :
      spec a o r a' → SpecRun spec a' ops rs a'' → SpecRun spec a (o :: ops) (r :: rs) a''

/-- Every legal operation is answered, with a reply that the specification
    allows, and `R` still relates the two states afterwards. -/
def Simulates (run : σ → op → Except ε (reply × σ)) (spec : α → op → reply → α → Prop)
    (legal : op → Prop) (R : σ → α → Prop) : Prop :=
  ∀ s a o, R s a → legal o → ∃ r s' a', run s o = .ok (r, s') ∧ spec a o r a' ∧ R s' a'

/-- **Refinement.**  A simulation of single operations is one of runs. -/
theorem Simulates.runs {run : σ → op → Except ε (reply × σ)} {spec : α → op → reply → α → Prop}
    {legal : op → Prop} {R : σ → α → Prop} (h : Simulates run spec legal R) {ops : List op}
    (hops : ∀ o ∈ ops, legal o) {s : σ} {a : α} (hR : R s a) :
    ∃ rs s' a', runOps run s ops = .ok (rs, s') ∧ SpecRun spec a ops rs a' ∧ R s' a' := by
  induction ops generalizing s a with
  | nil => exact ⟨[], s, a, rfl, .nil a, hR⟩
  | cons o ops ih =>
    rw [List.forall_mem_cons] at hops
    obtain ⟨r, s', a', hrun, hspec, hR'⟩ := h s a o hR hops.1
    obtain ⟨rs, s'', a'', hruns, hspecs, hR''⟩ := ih hops.2 hR'
    refine ⟨r :: rs, s'', a'', ?_, .cons hspec hspecs, hR''⟩
    rw [runOps, hrun]
    simp only [bind, Except.bind, hruns]
    rfl
