/-
  Programs that call routines outside of them, as those of a firmware.

  Such a routine is one step, of which the program relies on what is said of it.
-/
import CpcLink.Lib.Schedules
import CpcLink.Lib.Z80

namespace Z80

/-- What was put out on some of the ports. -/
def putOn (ports : List UInt16) (m : State) : List (UInt16 × UInt8) :=
  m.outs.filter fun o => o.1 ∈ ports

/-- The bytes that were read on a port. -/
def readOn (port : UInt16) (m : State) : List UInt8 :=
  (m.ins.filter fun i => i.1 = port).map Prod.snd

theorem putOn_onward {ports : List UInt16} (m m' : State) (h : Onward m m') :
    putOn ports m <+: putOn ports m' := h.outs.filter _

theorem readOn_onward {port : UInt16} (m m' : State) (h : Onward m m') :
    readOn port m <+: readOn port m' := (h.ins.filter _).map _

/-- One instruction of the program, or one routine outside of it. -/
def stepOutside (program : Program) (outside : State → Option State) (bus : Bus) (m : State) :
    Option State :=
  match program[m.pc.toNat]? with
  | none => outside m
  | some i => exec bus m i

/-- The states that a run from a state passes. -/
def RunsOutside (program : Program) (outside : State → Option State) (bus : Bus) :
    State → State → Prop := RunsUnder (stepOutside program outside) bus

section
variable {program : Program} {outside : State → Option State} {bus : Bus} {m m' m'' : State}
  {pc : UInt16}

namespace RunsOutside

theorem refl : RunsOutside program outside bus m m := Relation.ReflTransGen.refl

theorem trans (h : RunsOutside program outside bus m m')
    (h' : RunsOutside program outside bus m' m'') : RunsOutside program outside bus m m'' :=
  Relation.ReflTransGen.trans h h'

/-- A run that stays in the program. -/
theorem of_steps (h : Steps program bus m m') : RunsOutside program outside bus m m' := by
  induction h with
  | refl => exact refl
  | @tail m₁ m₂ _ hstep ih =>
    refine ih.tail ?_
    rw [step] at hstep
    rw [stepOutside]
    cases hi : program[m₁.pc.toNat]? with
    | none =>
      rw [hi] at hstep
      cases hstep
    | some i =>
      rw [hi] at hstep
      exact hstep

theorem steps (h : Steps program bus m m') (h' : RunsOutside program outside bus m' m'') :
    RunsOutside program outside bus m m'' := (of_steps h).trans h'

/-- A routine outside of the program. -/
theorem leave (hpc : program[pc.toNat]? = none) (hm : outside (m.goto pc) = some m')
    (h : RunsOutside program outside bus m' m'') :
    RunsOutside program outside bus (m.goto pc) m'' := by
  refine .head ?_ h
  have hpc' : program[(m.goto pc).pc.toNat]? = none := hpc
  rw [stepOutside, hpc']
  exact hm

end RunsOutside

/-- What is shown on the ports is driven by what is read, if the routines outside
    show nothing of it. -/
theorem driven_outside {β : Type*} (program : Program) {trace : State → List β}
    (honward : ∀ m m', Onward m m' → trace m <+: trace m')
    (hquiet : ∀ m m', outside m = some m' → m.reads ≤ m'.reads ∧ trace m' = trace m) :
    Driven (stepOutside program outside) State.reads trace where
  reads_le {bus m m'} h := by
    unfold stepOutside at h
    split at h
    · exact (hquiet m m' h).1
    · exact (exec_onward h).reads
  trace_le {bus m m'} h := by
    unfold stepOutside at h
    split at h
    · rw [(hquiet m m' h).2]
    · exact honward m m' (exec_onward h)
  local_of {bus bus' m m'} h hbus := by
    unfold stepOutside at h ⊢
    split at h
    · exact h
    · exact exec_local h hbus

end

end Z80
