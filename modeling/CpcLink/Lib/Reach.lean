/-
  Reachable states of a transition system whose steps take an input.

  `ok` restricts the steps: `Reach init step ok s` says that some run of steps
  that all meet `ok` leads to `s`.  With `ok` trivial this is reachability.
-/
import Mathlib.Logic.Basic

variable {σ ι : Type*}

/-- The states that runs of `ok` steps reach. -/
inductive Reach (init : σ → Prop) (step : σ → ι → σ → Prop) (ok : σ → ι → Prop) : σ → Prop
  | start {s : σ} : init s → Reach init step ok s
  | next {s s' : σ} {i : ι} : Reach init step ok s → ok s i → step s i s' → Reach init step ok s'

namespace Reach

variable {init : σ → Prop} {step : σ → ι → σ → Prop} {ok ok' : σ → ι → Prop}

/-- A run that meets a condition meets a weaker one. -/
theorem mono (h : ∀ s i, ok s i → ok' s i) {s : σ} (hs : Reach init step ok s) :
    Reach init step ok' s := by
  induction hs with
  | start h0 => exact .start h0
  | next _ hok hstep ih => exact .next ih (h _ _ hok) hstep

/-- A run of one system is a run of another that its states map to. -/
theorem map {τ : Type*} {init' : τ → Prop} {step' : τ → ι → τ → Prop} {ok' : τ → ι → Prop}
    (f : σ → τ) (h0 : ∀ s, init s → init' (f s)) (hok : ∀ s i, ok s i → ok' (f s) i)
    (hstep : ∀ s i s', step s i s' → step' (f s) i (f s')) {s : σ} (hs : Reach init step ok s) :
    Reach init' step' ok' (f s) := by
  induction hs with
  | start h => exact .start (h0 _ h)
  | next _ hi hst ih => exact .next ih (hok _ _ hi) (hstep _ _ _ hst)

/-- A run of a system each step of which is a step of another, or none. -/
theorem stutter {τ κ : Type*} {init' : τ → Prop} {step' : τ → κ → τ → Prop} {ok' : τ → κ → Prop}
    {I : σ → Prop} (f : σ → τ) (hI : ∀ s, Reach init step ok s → I s) (h0 : ∀ s, init s → init' (f s))
    (hstep : ∀ s i s', I s → ok s i → step s i s' →
      f s' = f s ∨ ∃ k, ok' (f s) k ∧ step' (f s) k (f s')) {s : σ} (hs : Reach init step ok s) :
    Reach init' step' ok' (f s) := by
  induction hs with
  | start h => exact .start (h0 _ h)
  | next hr hok hst ih =>
    rcases hstep _ _ _ (hI _ hr) hok hst with he | ⟨k, hk, hst'⟩
    · rw [he]
      exact ih
    · exact .next ih hk hst'

/-- A run that starts where another one ends continues it. -/
theorem after {init' : σ → Prop} (h0 : ∀ s, init' s → Reach init step ok s)
    (hok : ∀ s i, ok' s i → ok s i) {s : σ} (hs : Reach init' step ok' s) : Reach init step ok s := by
  induction hs with
  | start h => exact h0 _ h
  | next _ hi hst ih => exact .next ih (hok _ _ hi) hst

/-- **Invariants.**  What holds initially and is kept by every `ok` step holds
    of every state reached. -/
theorem inv {P : σ → Prop} (h0 : ∀ s, init s → P s)
    (hstep : ∀ s i s', P s → ok s i → step s i s' → P s') {s : σ} (hs : Reach init step ok s) :
    P s := by
  induction hs with
  | start h => exact h0 _ h
  | next _ hok hst ih => exact hstep _ _ _ ih hok hst

/-- An invariant on top of another one. -/
theorem inv_with {P I : σ → Prop} (hI : ∀ s, Reach init step ok s → I s) (h0 : ∀ s, init s → P s)
    (hstep : ∀ s i s', I s → P s → ok s i → step s i s' → P s') {s : σ}
    (hs : Reach init step ok s) : P s := by
  induction hs with
  | start h => exact h0 _ h
  | next hr hok hst ih => exact hstep _ _ _ (hI _ hr) ih hok hst

/-- An invariant of a run that continues another one. -/
theorem inv_after {init' P : σ → Prop} (h0 : ∀ s, init' s → Reach init step ok s)
    (hok : ∀ s i, ok' s i → ok s i) (hP : ∀ s, init' s → P s)
    (hstep : ∀ s i s', Reach init step ok s → P s → ok' s i → step s i s' → P s') {s : σ}
    (hs : Reach init' step ok' s) : P s :=
  hs.inv_with (fun _ hr => hr.after h0 hok) hP hstep

end Reach
