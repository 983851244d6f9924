/-
  A Z80 with its stack in the memory.

  The instructions that use the stack are given here; the others work on the
  registers, the memory and the ports as in a machine that keeps its stack
  apart.  So a run of such a machine that does not touch the stack is a run of
  this one (`Runs.lift`).
-/
import CpcLink.Lib.Z80

namespace Z80

/-- A machine with its stack pointer.  The stack of the core is not used. -/
structure Machine where
  core : State
  sp : UInt16

inductive StackInstr where
  /-- an instruction that leaves the stack alone -/
  | plain (i : Instr)
  | pushIx
  | popIx
  /-- `add ix,sp` -/
  | addIxSp
  | call (address : UInt16)
  | ret

abbrev StackProgram := List StackInstr

namespace Machine

/-- The word that the stack pointer points to. -/
def top (m : Machine) : UInt16 := wordAt m.core.mem m.sp

def goto (m : Machine) (pc : UInt16) : Machine := { m with core := m.core.goto pc }

/-- Two bytes further down the stack, the lower one at the lower address. -/
def push (m : Machine) (w : UInt16) : Machine where
  core := { m.core with mem := storeFrom m.core.mem (m.sp - 2) [low w, high w] }
  sp := m.sp - 2

/-- The word on top is dropped. -/
def drop (m : Machine) : Machine := { m with sp := m.sp + 2 }

def exec (bus : Bus) (m : Machine) : StackInstr → Option Machine
  | .plain i => (Z80.exec bus m.core i).map fun core => { m with core := core }
  | .pushIx => some ((m.push m.core.ix).goto (m.core.pc + 1))
  | .popIx => some ({ m.drop with core := { m.core with ix := m.top } }.goto (m.core.pc + 1))
  | .addIxSp =>
    some ({ m with core := { m.core with
      ix := m.core.ix + m.sp
      cy := decide (65536 ≤ m.core.ix.toNat + m.sp.toNat) } }.goto (m.core.pc + 1))
  | .call address => some ((m.push (m.core.pc + 1)).goto address)
  | .ret => some (m.drop.goto m.top)

/-- One instruction. -/
def step (program : StackProgram) (bus : Bus) (m : Machine) : Option Machine :=
  match program[m.core.pc.toNat]? with
  | none => none
  | some i => exec bus m i

/-- The states that a run from a state passes. -/
def Runs (program : StackProgram) (bus : Bus) : Machine → Machine → Prop :=
  Relation.ReflTransGen fun m m' => step program bus m = some m'

/-- The program without the instructions for the stack: there it halts. -/
def coreOf (program : StackProgram) : Program :=
  program.map fun
    | .plain i => i
    | _ => .db 0

section
variable {program : StackProgram} {bus : Bus} {m m' : Machine} {pc address sp : UInt16}

theorem step_goto {i : StackInstr} (hi : program[pc.toNat]? = some i) :
    step program bus (m.goto pc) = exec bus (m.goto pc) i := by
  have hi' : program[(m.goto pc).core.pc.toNat]? = some i := hi
  rw [step, hi']

/-- A step of the core is a step of the machine. -/
theorem step_lift {core core' : State} (h : Z80.step (coreOf program) bus core = some core') :
    step program bus ⟨core, sp⟩ = some ⟨core', sp⟩ := by
  unfold Z80.step coreOf at h
  rw [List.getElem?_map] at h
  cases hi : program[core.pc.toNat]? with
  | none =>
    rw [hi] at h
    cases h
  | some i =>
    rw [hi] at h
    cases i with
    | plain i =>
      have hexec : Z80.exec bus core i = some core' := h
      rw [step, hi]
      exact congrArg (Option.map _) hexec
    | pushIx | popIx | addIxSp | call | ret => cases h

/-! ## The word on top -/

@[simp] theorem push_top (m : Machine) (w : UInt16) : (m.push w).top = w := wordAt_storeFrom w

@[simp] theorem push_sp (m : Machine) (w : UInt16) : (m.push w).sp = m.sp - 2 := rfl

@[simp] theorem push_ix (m : Machine) (w : UInt16) : (m.push w).core.ix = m.core.ix := rfl

theorem push_outside (m : Machine) (w : UInt16) (h : Outside (m.sp - 2) 2 address) :
    (m.push w).core.mem address = m.core.mem address := storeFrom_outside h

/-- The stack above the pointer is left alone. -/
theorem push_above (m : Machine) (w : UInt16) {i : ℕ} (hi : i + 2 < 65536) :
    (m.push w).core.mem (m.sp + UInt16.ofNat i) = m.core.mem (m.sp + UInt16.ofNat i) := by
  refine push_outside m w ?_
  have habove := (outside_before (m.sp - 2) hi).mono (Nat.le_add_left 2 i)
  rwa [UInt16.ofNat_add, UInt16.add_comm (UInt16.ofNat i), ← UInt16.add_assoc,
    show UInt16.ofNat 2 = 2 from rfl, UInt16.sub_add_cancel] at habove

theorem wordAt_push_above (m : Machine) (w : UInt16) {i : ℕ} (hi : i + 3 < 65536) :
    wordAt (m.push w).core.mem (m.sp + UInt16.ofNat i) =
      wordAt m.core.mem (m.sp + UInt16.ofNat i) := by
  refine wordAt_kept fun j hj => ?_
  rw [UInt16.add_assoc, ← UInt16.ofNat_add]
  exact push_above m w (by omega)

namespace Runs

theorem refl : Runs program bus m m := Relation.ReflTransGen.refl

theorem trans {m'' : Machine} (h : Runs program bus m m') (h' : Runs program bus m' m'') :
    Runs program bus m m'' := Relation.ReflTransGen.trans h h'

/-- **A run that leaves the stack alone.** -/
theorem lift {core core' : State} (h : Steps (coreOf program) bus core core') :
    Runs program bus ⟨core, sp⟩ ⟨core', sp⟩ := by
  induction h with
  | refl => exact refl
  | tail _ hstep ih => exact ih.tail (step_lift hstep)

/-! ### The rules of the instructions -/

theorem core_step {core : State} (hs : Steps (coreOf program) bus (m.core.goto pc) (core.goto address))
    (h : Runs program bus ({ m with core := core }.goto address) m') :
    Runs program bus (m.goto pc) m' :=
  trans (lift hs : Runs program bus ⟨m.core.goto pc, m.sp⟩ ⟨core.goto address, m.sp⟩) h

theorem pushIx (hi : program[pc.toNat]? = some .pushIx)
    (h : Runs program bus ((m.push m.core.ix).goto (pc + 1)) m') :
    Runs program bus (m.goto pc) m' := .head (step_goto hi) h

theorem popIx (hi : program[pc.toNat]? = some .popIx)
    (h : Runs program bus ({ m.drop with core := { m.core with ix := m.top } }.goto (pc + 1)) m') :
    Runs program bus (m.goto pc) m' := .head (step_goto hi) h

theorem addIxSp (hi : program[pc.toNat]? = some .addIxSp)
    (h : Runs program bus ({ m with core := { m.core with
      ix := m.core.ix + m.sp
      cy := decide (65536 ≤ m.core.ix.toNat + m.sp.toNat) } }.goto (pc + 1)) m') :
    Runs program bus (m.goto pc) m' := .head (step_goto hi) h

theorem call (hi : program[pc.toNat]? = some (.call address))
    (h : Runs program bus ((m.push (pc + 1)).goto address) m') :
    Runs program bus (m.goto pc) m' := .head (step_goto hi) h

theorem ret (hi : program[pc.toNat]? = some .ret) (h : Runs program bus (m.drop.goto m.top) m') :
    Runs program bus (m.goto pc) m' := .head (step_goto hi) h

end Runs

end

end Machine

end Z80
