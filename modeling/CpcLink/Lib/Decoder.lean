/-
  Decoders of a stream that arrives in pieces.

  A decoder looks at the elements that wait at the front of the stream.  It
  either waits, or takes some of them and may deliver a value.  Its decision
  must not change when more elements arrive (`stable`).

  `Fed.runs`: however arrivals and decoding are interleaved, what has been
  delivered and what waits is a run of the decoder on the whole stream.
  `Fed.confluent`: two histories of one stream that both end waiting have
  delivered the same values and left the same elements.
-/
import Mathlib.Data.List.Basic

/-- A decoder: `next u = some (k, b)` takes the first `k` elements of `u` and
    delivers `b`, if any; `next u = none` waits. -/
structure Decoder (α β : Type*) where
  next : List α → Option (ℕ × Option β)
  /-- a decision takes at least one element, and only elements that are there -/
  pos : ∀ {u k b}, next u = some (k, b) → 0 < k ∧ k ≤ u.length
  /-- a decision stands when more elements arrive -/
  stable : ∀ {u r} (v : List α), next u = some r → next (u ++ v) = some r

namespace Decoder

variable {α β : Type*} {D : Decoder α β}

/-- A run of the decoder: from `u` it delivers `bs` and leaves `v`. -/
inductive Runs (D : Decoder α β) : List α → List β → List α → Prop
  | refl (u : List α) : Runs D u [] u
  | step {u v : List α} {k : ℕ} {b : Option β} {bs : List β} :
      D.next u = some (k, b) → Runs D (u.drop k) bs v → Runs D u (b.toList ++ bs) v

theorem Runs.trans {u v w : List α} {bs cs : List β} (h1 : D.Runs u bs v) (h2 : D.Runs v cs w) :
    D.Runs u (bs ++ cs) w := by
  induction h1 with
  | refl => exact h2
  | step hn _ ih => rw [List.append_assoc]; exact .step hn (ih h2)

theorem Runs.single {u : List α} {k : ℕ} {b : Option β} (h : D.next u = some (k, b)) :
    D.Runs u b.toList (u.drop k) := by
  have := Runs.step h (.refl (u.drop k))
  rwa [List.append_nil] at this

/-- A run is a run when more elements have arrived. -/
theorem Runs.append {u v : List α} {bs : List β} (h : D.Runs u bs v) (w : List α) :
    D.Runs (u ++ w) bs (v ++ w) := by
  induction h with
  | refl => exact .refl _
  | step hn _ ih =>
    refine .step (D.stable w hn) ?_
    rwa [List.drop_append_of_le_length (D.pos hn).2]

theorem Runs.length_le {u v : List α} {bs : List β} (h : D.Runs u bs v) : v.length ≤ u.length := by
  induction h with
  | refl => exact Nat.le_refl _
  | step _ _ ih => rw [List.length_drop] at ih; omega

/-- Runs that end waiting end alike. -/
theorem Runs.unique {u v w : List α} {bs cs : List β} (h1 : D.Runs u bs v) (hv : D.next v = none)
    (h2 : D.Runs u cs w) (hw : D.next w = none) : bs = cs ∧ v = w := by
  induction h1 generalizing cs with
  | refl =>
    cases h2 with
    | refl => exact ⟨rfl, rfl⟩
    | step hn _ => rw [hv] at hn; cases hn
  | step hn _ ih =>
    cases h2 with
    | refl => rw [hw] at hn; cases hn
    | step hn' h2 =>
      rw [hn] at hn'; cases hn'
      obtain ⟨hbs, hvw⟩ := ih hv h2
      exact ⟨by rw [hbs], hvw⟩

/-- A history: the elements that have arrived, the values delivered, and the
    elements that wait. -/
inductive Fed (D : Decoder α β) : List α → List β → List α → Prop
  | nil : Fed D [] [] []
  | arrive {s u : List α} {bs : List β} (x : α) : Fed D s bs u → Fed D (s ++ [x]) bs (u ++ [x])
  | decode {s u v : List α} {bs cs : List β} :
      Fed D s bs u → D.Runs u cs v → Fed D s (bs ++ cs) v

/-- **Decoding commutes with arrival.** -/
theorem Fed.runs {s u : List α} {bs : List β} (h : D.Fed s bs u) : D.Runs s bs u := by
  induction h with
  | nil => exact .refl _
  | arrive x _ ih => exact ih.append [x]
  | decode _ hr ih => exact ih.trans hr

/-- **The interleaving does not matter.** -/
theorem Fed.confluent {s u v : List α} {bs cs : List β} (h1 : D.Fed s bs u) (hu : D.next u = none)
    (h2 : D.Fed s cs v) (hv : D.next v = none) : bs = cs ∧ u = v :=
  h1.runs.unique hu h2.runs hv

end Decoder
