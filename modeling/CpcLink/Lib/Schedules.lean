/-
  Deterministic machines that are driven by a schedule.

  A schedule is an infinite sequence of which a machine takes one element after
  the other; `reads` is how many it took.  A step only looks at elements that it
  has taken in the end (`local_of`).  `trace` is what the machine has shown so far.

  Under a fair schedule a machine may get to its end.  What it shows there is then
  a bound for what it shows under any other schedule, fair or not, since it cannot
  tell them apart before it has read more (`Driven.trace_part`).
-/
import Mathlib.Data.List.Infix
import Mathlib.Logic.Relation

variable {α σ β : Type*}

/-- The states that a run from a state passes under a schedule. -/
def RunsUnder (step : (ℕ → α) → σ → Option σ) (s : ℕ → α) : σ → σ → Prop :=
  Relation.ReflTransGen fun m m' => step s m = some m'

/-- Steps read on, show more, and depend on what they have read only. -/
structure Driven (step : (ℕ → α) → σ → Option σ) (reads : σ → ℕ) (trace : σ → List β) : Prop where
  reads_le : ∀ {s m m'}, step s m = some m' → reads m ≤ reads m'
  trace_le : ∀ {s m m'}, step s m = some m' → trace m <+: trace m'
  local_of : ∀ {s s' m m'}, step s m = some m' → (∀ k < reads m', s' k = s k) → step s' m = some m'

namespace Driven

variable {step : (ℕ → α) → σ → Option σ} {reads : σ → ℕ} {trace : σ → List β} {s s' : ℕ → α}
  {m m' m'' : σ}

theorem runs_trace (h : Driven step reads trace) (hr : RunsUnder step s m m') :
    trace m <+: trace m' := by
  induction hr with
  | refl => exact List.prefix_rfl
  | tail _ hstep ih => exact ih.trans (h.trace_le hstep)

/-- Schedules that agree on what is read lead to the same states. -/
theorem runs_local (h : Driven step reads trace) (hr : RunsUnder step s m m')
    (hs : ∀ k < reads m', s' k = s k) : RunsUnder step s' m m' := by
  induction hr with
  | refl => exact .refl
  | tail _ hstep ih =>
    exact .tail (ih fun k hk => hs k (hk.trans_le (h.reads_le hstep))) (h.local_of hstep hs)

/-- A run passes through every state before its end. -/
theorem runs_to_end (hr : RunsUnder step s m m') (hr' : RunsUnder step s m m'')
    (hend : step s m'' = none) : RunsUnder step s m' m'' := by
  have hright : Relator.RightUnique fun m m' => step s m = some m' :=
    fun _ _ _ h₁ h₂ => Option.some.inj (h₁.symm.trans h₂)
  rcases Relation.ReflTransGen.total_of_right_unique hright hr hr' with hs | hs
  · exact hs
  · rcases Relation.ReflTransGen.cases_head hs with rfl | ⟨m₁, h₁, -⟩
    · exact .refl
    · rw [hend] at h₁
      cases h₁

theorem end_unique (hr : RunsUnder step s m m') (hr' : RunsUnder step s m m'')
    (hend' : step s m' = none) (hend : step s m'' = none) : m' = m'' := by
  rcases Relation.ReflTransGen.cases_head (runs_to_end hr hr' hend) with rfl | ⟨m₁, h₁, -⟩
  · rfl
  · rw [hend'] at h₁
    cases h₁

/-- **Every schedule shows a part of what the fair ones show.** -/
theorem trace_part (h : Driven step reads trace) {fair : (ℕ → α) → Prop}
    (hfair : ∀ (s : ℕ → α) n, ∃ s', fair s' ∧ ∀ k < n, s' k = s k) {w : List β}
    (hend : ∀ s, fair s → ∃ m'', RunsUnder step s m m'' ∧ step s m'' = none ∧ trace m'' = w)
    (hr : RunsUnder step s m m') : trace m' <+: w := by
  obtain ⟨s', hs', hagree⟩ := hfair s (reads m')
  obtain ⟨m'', hr'', hnone, rfl⟩ := hend s' hs'
  exact h.runs_trace (runs_to_end (h.runs_local hr hagree) hr'' hnone)

/-- **A run that has ended has ended as the fair ones do.** -/
theorem end_of_fair (h : Driven step reads trace) {fair : (ℕ → α) → Prop}
    (hfair : ∀ (s : ℕ → α) n, ∃ s', fair s' ∧ ∀ k < n, s' k = s k) {P : σ → Prop}
    (hend : ∀ s, fair s → ∃ m'', RunsUnder step s m m'' ∧ step s m'' = none ∧ P m'')
    (hr : RunsUnder step s m m') (hhalts : ∀ s, step s m' = none) : P m' := by
  obtain ⟨s', hs', hagree⟩ := hfair s (reads m')
  obtain ⟨m'', hr'', hnone, hP⟩ := hend s' hs'
  rwa [end_unique (h.runs_local hr hagree) hr'' (hhalts s') hnone]

end Driven
