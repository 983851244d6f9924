/-
  A part of the Z80: loads, counting, tests, jumps, the stack, and bytes in and
  out of ports.

  The address of an instruction is its place in the program.  The program and
  the stack are kept apart from the memory.  Of the flags there are Z and the
  carry, the only ones that are tested.
-/
import Mathlib.Data.Nat.Notation
import Mathlib.Logic.Function.Basic
import Mathlib.Logic.Relation

namespace Z80

inductive Reg where
  | a | b | c | d | e | h | l
  deriving DecidableEq, Repr

inductive Pair where
  | bc | de | hl
  deriving DecidableEq, Repr

structure State where
  a : UInt8
  b : UInt8
  c : UInt8
  d : UInt8
  e : UInt8
  h : UInt8
  l : UInt8
  ix : UInt16
  z : Bool
  /-- the carry -/
  cy : Bool := false
  pc : UInt16
  /-- the top first -/
  stack : List UInt16
  mem : UInt16 → UInt8
  /-- how often a port was read so far -/
  reads : ℕ
  /-- the bytes read so far, each with its port -/
  ins : List (UInt16 × UInt8) := []
  /-- the bytes put out so far, each with its port -/
  outs : List (UInt16 × UInt8)

/-- What is on a port when a port is read for the `k`-th time. -/
abbrev Bus := ℕ → UInt16 → UInt8

inductive Instr where
  /-- `ld r,n` -/
  | ldNum (r : Reg) (n : UInt8)
  /-- `ld r,r'` -/
  | ldReg (r r' : Reg)
  /-- `ld r,(ix+d)` -/
  | ldIx (r : Reg) (d : UInt16)
  /-- `ld r,(hl)` -/
  | ldHl (r : Reg)
  /-- `ld (hl),r` -/
  | ldToHl (r : Reg)
  /-- `ld (hl),n` -/
  | ldToHlNum (n : UInt8)
  /-- `ld rr,nn` -/
  | ldPair (p : Pair) (nn : UInt16)
  /-- `ld ix,nn` -/
  | ldIxNum (nn : UInt16)
  /-- `ex de,hl` -/
  | exDeHl
  | incPair (p : Pair)
  | decPair (p : Pair)
  /-- `add hl,rr` -/
  | addHl (p : Pair)
  | inc (r : Reg)
  | dec (r : Reg)
  | sub (r : Reg)
  | and (n : UInt8)
  | or (r : Reg)
  | cp (n : UInt8)
  /-- `cp r` -/
  | cpReg (r : Reg)
  | rra
  | rla
  | sla (r : Reg)
  | jr (address : UInt16)
  | jrZ (address : UInt16)
  | jrNz (address : UInt16)
  | jrC (address : UInt16)
  | jrNc (address : UInt16)
  | jp (address : UInt16)
  | jpZ (address : UInt16)
  | jpNz (address : UInt16)
  /-- `jp (hl)` -/
  | jpHl
  | djnz (address : UInt16)
  | call (address : UInt16)
  | ret
  | retZ
  | retNz
  | push (p : Pair)
  | pushIx
  | pop (p : Pair)
  /-- `in r,(c)` -/
  | inPort (r : Reg)
  /-- `in a,(n)`, with `a` in the upper half of the address -/
  | inNum (n : UInt8)
  /-- the port is that of `bc` before `b` is counted down -/
  | ini
  /-- `out (c),r` -/
  | outPort (r : Reg)
  /-- `out (n),a`, with `a` in the upper half of the address -/
  | outNum (n : UInt8)
  /-- the port is that of `bc` after `b` was counted down -/
  | outi
  /-- a byte of data, which is not to be executed -/
  | db (v : UInt8)

abbrev Program := List Instr

/-! ## Words -/

/-- The word of a pair of bytes. -/
def word (high low : UInt8) : UInt16 := UInt16.ofNat (high.toNat * 256 + low.toNat)

def high (w : UInt16) : UInt8 := UInt8.ofNat (w.toNat / 256)
def low (w : UInt16) : UInt8 := UInt8.ofNat (w.toNat % 256)

theorem toNat_word (high low : UInt8) : (word high low).toNat = high.toNat * 256 + low.toNat := by
  have := high.toNat_lt
  have := low.toNat_lt
  rw [word, UInt16.toNat_ofNat', Nat.mod_eq_of_lt (by omega)]

theorem toNat_high (w : UInt16) : (high w).toNat = w.toNat / 256 := by
  have := w.toNat_lt
  rw [high, UInt8.toNat_ofNat', Nat.mod_eq_of_lt (by omega)]

theorem toNat_low (w : UInt16) : (low w).toNat = w.toNat % 256 := by
  rw [low, UInt8.toNat_ofNat', Nat.mod_eq_of_lt (by omega)]

@[simp] theorem word_high_low (w : UInt16) : word (high w) (low w) = w := by
  rw [← UInt16.toNat_inj, toNat_word, toNat_high, toNat_low]
  omega

@[simp] theorem high_word (v v' : UInt8) : high (word v v') = v := by
  have := v'.toNat_lt
  rw [← UInt8.toNat_inj, toNat_high, toNat_word]
  omega

@[simp] theorem low_word (v v' : UInt8) : low (word v v') = v' := by
  have := v'.toNat_lt
  rw [← UInt8.toNat_inj, toNat_low, toNat_word]
  omega

theorem word_eq_zero_iff {v v' : UInt8} : word v v' = 0 ↔ v' = 0 ∧ v = 0 := by
  simp only [← UInt8.toNat_inj, ← UInt16.toNat_inj, toNat_word, UInt8.toNat_zero,
    UInt16.toNat_zero]
  omega

theorem high_eq {w : UInt16} {v : UInt8} (h : w.toNat / 256 = v.toNat) : high w = v := by
  rw [← UInt8.toNat_inj, toNat_high, h]

theorem low_eq {w : UInt16} {v : UInt8} (h : w.toNat % 256 = v.toNat) : low w = v := by
  rw [← UInt8.toNat_inj, toNat_low, h]

theorem word_eq {v v' : UInt8} {w : UInt16} (h : v.toNat * 256 + v'.toNat = w.toNat) :
    word v v' = w := by
  rw [← UInt16.toNat_inj, toNat_word, h]

/- They are known by their numbers. -/
attribute [irreducible] word high low

/-! ## Counting down -/

theorem toNat_sub_one {v : UInt8} (h : v ≠ 0) : (v - 1).toNat = v.toNat - 1 := by
  have h0 : v.toNat ≠ 0 := fun h0 => h (UInt8.toNat_inj.1 h0)
  rw [UInt8.toNat_sub_of_le]
  · rfl
  · rw [UInt8.le_iff_toNat_le]; exact Nat.one_le_iff_ne_zero.2 h0

/-- A register that is counted down and is not yet zero. -/
theorem counted_down {v : UInt8} {j : ℕ} (h : v.toNat = j + 2) :
    (v - 1).toNat = j + 1 ∧ (v - 1 == 0) = false := by
  have hne : v ≠ 0 := by
    rintro rfl
    cases h
  have hleft : (v - 1).toNat = j + 1 := by rw [toNat_sub_one hne, h]; rfl
  refine ⟨hleft, beq_eq_false_iff_ne.2 fun h0 => ?_⟩
  rw [h0] at hleft
  cases hleft

/-- A register that is counted down to zero. -/
theorem counted_out {v : UInt8} (h : v.toNat = 1) : (v - 1 == 0) = true := by
  rw [UInt8.toNat_inj.1 (h.trans rfl : v.toNat = (1 : UInt8).toNat)]
  rfl

theorem toNat_word_sub_one {w : UInt16} (h : w ≠ 0) : (w - 1).toNat = w.toNat - 1 := by
  have h0 : w.toNat ≠ 0 := fun h0 => h (UInt16.toNat_inj.1 h0)
  rw [UInt16.toNat_sub_of_le]
  · rfl
  · rw [UInt16.le_iff_toNat_le]; exact Nat.one_le_iff_ne_zero.2 h0

/-! ## Registers -/

namespace State

@[simp] def reg (m : State) : Reg → UInt8
  | .a => m.a | .b => m.b | .c => m.c | .d => m.d | .e => m.e | .h => m.h | .l => m.l

@[simp] def setReg (m : State) (r : Reg) (v : UInt8) : State :=
  match r with
  | .a => { m with a := v }
  | .b => { m with b := v }
  | .c => { m with c := v }
  | .d => { m with d := v }
  | .e => { m with e := v }
  | .h => { m with h := v }
  | .l => { m with l := v }

@[simp] def pair (m : State) : Pair → UInt16
  | .bc => word m.b m.c
  | .de => word m.d m.e
  | .hl => word m.h m.l

@[simp] def setPair (m : State) (p : Pair) (w : UInt16) : State :=
  match p with
  | .bc => { m with b := high w, c := low w }
  | .de => { m with d := high w, e := low w }
  | .hl => { m with h := high w, l := low w }

/-- A result in the register, and whether it is zero in the flag. -/
@[simp] def setResult (m : State) (r : Reg) (v : UInt8) : State := { m.setReg r v with z := v == 0 }

/-- A result of the logical instructions, which clear the carry. -/
@[simp] def setLogical (m : State) (v : UInt8) : State := { m.setResult .a v with cy := false }

/-- The flags of a comparison with the accumulator. -/
@[simp] def compare (m : State) (n : UInt8) : State := { m with z := m.a == n, cy := decide (m.a < n) }

/-- A rotation of the accumulator through the carry, which leaves the zero flag. -/
@[simp] def setRotated (m : State) (v : UInt8) (cy : Bool) : State := { m with a := v, cy := cy }

@[simp] def store (m : State) (v : UInt8) : State :=
  { m with mem := Function.update m.mem (m.pair .hl) v }

/-- What is on a port is read. -/
@[simp] def input (m : State) (bus : Bus) (port : UInt16) : State :=
  { m with reads := m.reads + 1, ins := m.ins ++ [(port, bus m.reads port)] }

def goto (m : State) (pc : UInt16) : State := { m with pc := pc }

theorem goto_self {m : State} {pc : UInt16} (h : m.pc = pc) : m.goto pc = m := by rw [goto, ← h]

end State

/-! ## Instructions -/

/-- What an instruction does that goes on to the next one. -/
def effect (bus : Bus) (m : State) : Instr → Option State
  | .ldNum r n => some (m.setReg r n)
  | .ldReg r r' => some (m.setReg r (m.reg r'))
  | .ldIx r d => some (m.setReg r (m.mem (m.ix + d)))
  | .ldHl r => some (m.setReg r (m.mem (m.pair .hl)))
  | .ldToHl r => some (m.store (m.reg r))
  | .ldToHlNum n => some (m.store n)
  | .ldPair p nn => some (m.setPair p nn)
  | .ldIxNum nn => some { m with ix := nn }
  | .exDeHl => some { m with d := m.h, e := m.l, h := m.d, l := m.e }
  | .incPair p => some (m.setPair p (m.pair p + 1))
  | .decPair p => some (m.setPair p (m.pair p - 1))
  | .addHl p =>
    some { m.setPair .hl (m.pair .hl + m.pair p) with
      cy := decide (65536 ≤ (m.pair .hl).toNat + (m.pair p).toNat) }
  | .inc r => some (m.setResult r (m.reg r + 1))
  | .dec r => some (m.setResult r (m.reg r - 1))
  | .sub r => some { m.setResult .a (m.a - m.reg r) with cy := decide (m.a < m.reg r) }
  | .and n => some (m.setLogical (m.a &&& n))
  | .or r => some (m.setLogical (m.a ||| m.reg r))
  | .cp n => some (m.compare n)
  | .cpReg r => some (m.compare (m.reg r))
  | .rra => some (m.setRotated (m.a >>> 1 ||| if m.cy then 128 else 0) (m.a &&& 1 != 0))
  | .rla => some (m.setRotated (m.a <<< 1 ||| if m.cy then 1 else 0) (m.a &&& 128 != 0))
  | .sla r => some { m.setResult r (m.reg r <<< 1) with cy := m.reg r &&& 128 != 0 }
  | .push p => some { m with stack := m.pair p :: m.stack }
  | .pushIx => some { m with stack := m.ix :: m.stack }
  | .pop p =>
    match m.stack with
    | [] => none
    | w :: stack => some ({ m with stack := stack }.setPair p w)
  | .inPort r => some ((m.input bus (m.pair .bc)).setResult r (bus m.reads (m.pair .bc)))
  | .inNum n => some ((m.input bus (word m.a n)).setReg .a (bus m.reads (word m.a n)))
  | .ini =>
    let v := bus m.reads (m.pair .bc)
    some ((((m.input bus (m.pair .bc)).store v).setPair .hl (m.pair .hl + 1)).setResult .b (m.b - 1))
  | .outPort r => some { m with outs := m.outs ++ [(m.pair .bc, m.reg r)] }
  | .outNum n => some { m with outs := m.outs ++ [(word m.a n, m.a)] }
  | .outi =>
    let counted := m.setResult .b (m.b - 1)
    some ({ counted with outs := m.outs ++ [(counted.pair .bc, m.mem (m.pair .hl))] }.setPair .hl
      (m.pair .hl + 1))
  | .jr _ | .jrZ _ | .jrNz _ | .jrC _ | .jrNc _ | .jp _ | .jpZ _ | .jpNz _ | .jpHl | .djnz _ |
    .call _ | .ret | .retZ | .retNz | .db _ => none

/-- `ret` takes the address on top of the stack. -/
def takeReturn (m : State) : Option State :=
  match m.stack with
  | [] => none
  | address :: stack => some ({ m with stack := stack }.goto address)

/-- Where the other instructions go on. -/
def jump (m : State) : Instr → Option State
  | .jr address | .jp address => some (m.goto address)
  | .jrZ address | .jpZ address => some (if m.z then m.goto address else m.goto (m.pc + 1))
  | .jrNz address | .jpNz address => some (if m.z then m.goto (m.pc + 1) else m.goto address)
  | .jrC address => some (if m.cy then m.goto address else m.goto (m.pc + 1))
  | .jrNc address => some (if m.cy then m.goto (m.pc + 1) else m.goto address)
  | .jpHl => some (m.goto (m.pair .hl))
  | .djnz address =>
    some ((m.setReg .b (m.b - 1)).goto (if m.b - 1 = 0 then m.pc + 1 else address))
  | .call address => some ({ m with stack := (m.pc + 1) :: m.stack }.goto address)
  | .ret => takeReturn m
  | .retZ => if m.z then takeReturn m else some (m.goto (m.pc + 1))
  | .retNz => if m.z then some (m.goto (m.pc + 1)) else takeReturn m
  | _ => none

def exec (bus : Bus) (m : State) (i : Instr) : Option State :=
  match effect bus m i with
  | some m' => some (m'.goto (m.pc + 1))
  | none => jump m i

/-- One instruction. -/
def step (program : Program) (bus : Bus) (m : State) : Option State :=
  match program[m.pc.toNat]? with
  | none => none
  | some i => exec bus m i

/-! ## Runs -/

/-- The states that a run from a state passes. -/
def Steps (program : Program) (bus : Bus) : State → State → Prop :=
  Relation.ReflTransGen fun m m' => step program bus m = some m'

section
variable {program : Program} {bus : Bus} {m m' m'' : State}

/-- An instruction that goes on does not look at where it is. -/
theorem effect_goto (m : State) (pc : UInt16) (i : Instr) :
    effect bus (m.goto pc) i = (effect bus m i).map fun m' => m'.goto pc := by
  cases i with
  | ldNum r | ldIx r | ldHl r | ldToHl r | cpReg r => cases r <;> rfl
  | ldReg r r' => cases r <;> cases r' <;> rfl
  | ldPair p | incPair p | decPair p | addHl p | push p => cases p <;> rfl
  | inc r | dec r | sub r | or r | sla r | inPort r | outPort r => cases r <;> rfl
  | pop p =>
    obtain ⟨a, b, c, d, e, h, l, ix, z, cy, _, stack⟩ := m
    cases stack with
    | nil => rfl
    | cons => cases p <;> rfl
  | ldToHlNum | ldIxNum | exDeHl | and | cp | rra | rla | pushIx | inNum | ini | outNum | outi | jr |
    jrZ | jrNz | jrC | jrNc | jp | jpZ | jpNz | jpHl | djnz | call | ret | retZ | retNz | db => rfl

theorem takeReturn_goto {pc address : UInt16} {stack : List UInt16}
    (hs : m.stack = address :: stack) :
    takeReturn (m.goto pc) = some ({ m with stack := stack }.goto address) := by
  have hs' : (m.goto pc).stack = address :: stack := hs
  rw [takeReturn, hs']
  rfl

theorem step_goto {pc : UInt16} {i : Instr} (hi : program[pc.toNat]? = some i) :
    step program bus (m.goto pc) = exec bus (m.goto pc) i := by
  have hi' : program[(m.goto pc).pc.toNat]? = some i := hi
  rw [step, hi']

@[simp] theorem ins_setReg (m : State) (r : Reg) (v : UInt8) : (m.setReg r v).ins = m.ins := by
  cases r <;> rfl

@[simp] theorem outs_setReg (m : State) (r : Reg) (v : UInt8) : (m.setReg r v).outs = m.outs := by
  cases r <;> rfl

@[simp] theorem reads_setReg (m : State) (r : Reg) (v : UInt8) :
    (m.setReg r v).reads = m.reads := by
  cases r <;> rfl

@[simp] theorem ins_setPair (m : State) (p : Pair) (w : UInt16) : (m.setPair p w).ins = m.ins := by
  cases p <;> rfl

@[simp] theorem outs_setPair (m : State) (p : Pair) (w : UInt16) :
    (m.setPair p w).outs = m.outs := by
  cases p <;> rfl

@[simp] theorem reads_setPair (m : State) (p : Pair) (w : UInt16) :
    (m.setPair p w).reads = m.reads := by
  cases p <;> rfl

/-- What was read stays read, and what was put out stays put out. -/
structure Onward (m m' : State) : Prop where
  reads : m.reads ≤ m'.reads
  ins : m.ins <+: m'.ins
  outs : m.outs <+: m'.outs

theorem effect_onward {i : Instr} (h : effect bus m i = some m') : Onward m m' := by
  cases i with
  | pop p =>
    rw [effect] at h
    split at h
    · cases h
    · cases h
      constructor <;> simp [-State.setPair]
  | jr | jrZ | jrNz | jrC | jrNc | jp | jpZ | jpNz | jpHl | djnz | call | ret | retZ | retNz | db =>
    cases h
  | _ =>
    cases h
    constructor <;> simp [-State.setReg, -State.setPair]

theorem takeReturn_onward (h : takeReturn m = some m') : Onward m m' := by
  unfold takeReturn at h
  split at h
  · cases h
  · cases h
    exact ⟨Nat.le_refl _, List.prefix_rfl, List.prefix_rfl⟩

theorem Onward.goto_self (m : State) (pc : UInt16) : Onward m (m.goto pc) :=
  ⟨Nat.le_refl _, List.prefix_rfl, List.prefix_rfl⟩

theorem jump_onward {i : Instr} (h : jump m i = some m') : Onward m m' := by
  cases i with
  | jr | jp | jpHl | djnz | call =>
    cases h
    exact ⟨Nat.le_refl _, List.prefix_rfl, List.prefix_rfl⟩
  | jrZ | jrNz | jpZ | jpNz | jrC | jrNc =>
    simp only [jump, Option.some.injEq] at h
    rw [← h]
    split <;> exact .goto_self m _
  | ret => exact takeReturn_onward h
  | retZ =>
    rw [jump] at h
    split at h
    · exact takeReturn_onward h
    · cases h
      exact .goto_self m _
  | retNz =>
    rw [jump] at h
    split at h
    · cases h
      exact .goto_self m _
    · exact takeReturn_onward h
  | _ => cases h

theorem exec_onward {i : Instr} (h : exec bus m i = some m') : Onward m m' := by
  unfold exec at h
  split at h
  next he =>
    obtain ⟨hreads, hins, houts⟩ := effect_onward he
    cases h
    exact ⟨hreads, hins, houts⟩
  next => exact jump_onward h

theorem step_onward (h : step program bus m = some m') : Onward m m' := by
  unfold step at h
  split at h
  · cases h
  · exact exec_onward h

/-- An instruction looks at what it reads and not at what is on the ports later. -/
theorem effect_local {bus' : Bus} {i : Instr} (h : effect bus m i = some m')
    (hbus : ∀ k < m'.reads, bus' k = bus k) : effect bus' m i = some m' := by
  cases i with
  | inPort | inNum | ini =>
    cases h
    have hread : bus' m.reads = bus m.reads := hbus _ (by simp [-State.setReg, -State.setPair])
    simp only [effect, State.input, hread]
  | _ => exact h

theorem exec_local {bus' : Bus} {i : Instr} (h : exec bus m i = some m')
    (hbus : ∀ k < m'.reads, bus' k = bus k) : exec bus' m i = some m' := by
  unfold exec at h ⊢
  split at h
  next he =>
    cases h
    rw [effect_local he hbus]
  next he =>
    have hnone : effect bus' m i = none := by
      cases i with
      | inPort | inNum | ini => cases he
      | _ => exact he
    rw [hnone]
    exact h

namespace Steps

theorem refl : Steps program bus m m := Relation.ReflTransGen.refl

theorem of_eq (h : m = m') : Steps program bus m m' := by rw [h]; exact refl

theorem trans (h : Steps program bus m m') (h' : Steps program bus m' m'') :
    Steps program bus m m'' := Relation.ReflTransGen.trans h h'

/-- A state without a next one is the last. -/
theorem eq_of_halted (h : Steps program bus m m') (hm : step program bus m = none) : m' = m := by
  induction h using Relation.ReflTransGen.head_induction_on with
  | refl => rfl
  | head hs => rw [hm] at hs; cases hs

/-- **A run ends in one state.** -/
theorem unique (h : Steps program bus m m') (h' : Steps program bus m m'')
    (hm' : step program bus m' = none) (hm'' : step program bus m'' = none) : m' = m'' := by
  have hright : Relator.RightUnique fun m m' => step program bus m = some m' :=
    fun _ _ _ h₁ h₂ => Option.some.inj (h₁.symm.trans h₂)
  rcases Relation.ReflTransGen.total_of_right_unique hright h h' with hs | hs
  · exact (eq_of_halted hs hm').symm
  · exact eq_of_halted hs hm''

/-- A run that ends passes every state that the start leads to. -/
theorem to_halted (h : Steps program bus m m') (h' : Steps program bus m m'')
    (hm' : step program bus m' = none) : Steps program bus m'' m' := by
  have hright : Relator.RightUnique fun m m' => step program bus m = some m' :=
    fun _ _ _ h₁ h₂ => Option.some.inj (h₁.symm.trans h₂)
  rcases Relation.ReflTransGen.total_of_right_unique hright h h' with hs | hs
  · rw [eq_of_halted hs hm']
    exact refl
  · exact hs

/-- **Waiting.**  A loop that reads a port in every round, and goes on until it
    reads what happens some time, gets there. -/
theorem wait {ready : ℕ → Prop} (hready : ∃ j ≥ m.reads, ready j) {I : State → Prop}
    (hround : ∀ m, I m → ¬ ready m.reads →
      ∃ m', Steps program bus m m' ∧ I m' ∧ m'.reads = m.reads + 1) (hm : I m) :
    ∃ m', Steps program bus m m' ∧ I m' ∧ ready m'.reads := by
  obtain ⟨j, hj, hr⟩ := hready
  obtain ⟨n, rfl⟩ := Nat.exists_eq_add_of_le hj
  clear hj
  induction n generalizing m with
  | zero => exact ⟨m, refl, hm, hr⟩
  | succ n ih =>
    by_cases hnow : ready m.reads
    · exact ⟨m, refl, hm, hnow⟩
    obtain ⟨m₁, hs, hm₁, hreads⟩ := hround m hm hnow
    obtain ⟨m', hs', hm', hr'⟩ := ih hm₁ (by rw [hreads, Nat.add_assoc, Nat.add_comm 1]; exact hr)
    exact ⟨m', hs.trans hs', hm', hr'⟩

/-- **Waiting for ever.**  A loop that reads a port in every round, and does not
    end, never halts. -/
theorem never_halts {I : State → Prop} (hround : ∀ m, I m →
      ∃ m', Steps program bus m m' ∧ I m' ∧ m'.reads = m.reads + 1) (hm : I m)
    (h : Steps program bus m m') : step program bus m' ≠ none := by
  -- every state that is passed leads back into the loop
  have hback : ∃ m₁, I m₁ ∧ Steps program bus m' m₁ := by
    induction h with
    | refl => exact ⟨m, hm, refl⟩
    | @tail m₁ m₂ _ hstep ih =>
      obtain ⟨m₃, hm₃, hs⟩ := ih
      have onward : ∀ {m₄}, Steps program bus m₁ m₄ → m₄ ≠ m₁ → Steps program bus m₂ m₄ := by
        intro m₄ hs hne
        rcases Relation.ReflTransGen.cases_head hs with rfl | ⟨m₅, h₅, hs⟩
        · exact absurd rfl hne
        · cases hstep.symm.trans h₅
          exact hs
      by_cases hne : m₃ = m₁
      · subst hne
        obtain ⟨m₄, hs₄, hm₄, hreads⟩ := hround m₃ hm₃
        exact ⟨m₄, hm₄, onward hs₄ fun he => by rw [he] at hreads; omega⟩
      · exact ⟨m₃, hm₃, onward hs hne⟩
  intro hhalt
  obtain ⟨m₁, hm₁, hs⟩ := hback
  obtain rfl := eq_of_halted hs hhalt
  obtain ⟨m₂, hs₂, -, hreads⟩ := hround m₁ hm₁
  rw [eq_of_halted hs₂ hhalt] at hreads
  omega

/-- What was read stays read. -/
theorem ins_prefix (h : Steps program bus m m') : m.ins <+: m'.ins := by
  induction h with
  | refl => exact List.prefix_rfl
  | tail _ hstep ih => exact ih.trans (step_onward hstep).ins

/-! ### The rules of the instructions -/

variable {pc address : UInt16} {i : Instr} {m₁ : State} {stack : List UInt16}

theorem plain (hi : program[pc.toNat]? = some i) (he : effect bus m i = some m₁)
    (h : Steps program bus (m₁.goto (pc + 1)) m') : Steps program bus (m.goto pc) m' := by
  refine .head ?_ h
  rw [step_goto hi, exec, effect_goto, he]
  rfl

theorem jrNz_next (hi : program[pc.toNat]? = some (.jrNz address)) (hz : m.z = true)
    (h : Steps program bus (m.goto (pc + 1)) m') : Steps program bus (m.goto pc) m' := by
  refine .head ?_ h
  rw [step_goto hi]
  exact congrArg some (if_pos hz)

theorem jrNz_taken (hi : program[pc.toNat]? = some (.jrNz address)) (hz : m.z = false)
    (h : Steps program bus (m.goto address) m') : Steps program bus (m.goto pc) m' := by
  refine .head ?_ h
  rw [step_goto hi]
  exact congrArg some (if_neg (by rw [State.goto, hz]; exact Bool.false_ne_true))

theorem jrZ_taken (hi : program[pc.toNat]? = some (.jrZ address)) (hz : m.z = true)
    (h : Steps program bus (m.goto address) m') : Steps program bus (m.goto pc) m' := by
  refine .head ?_ h
  rw [step_goto hi]
  exact congrArg some (if_pos hz)

theorem jrZ_next (hi : program[pc.toNat]? = some (.jrZ address)) (hz : m.z = false)
    (h : Steps program bus (m.goto (pc + 1)) m') : Steps program bus (m.goto pc) m' := by
  refine .head ?_ h
  rw [step_goto hi]
  exact congrArg some (if_neg (by rw [State.goto, hz]; exact Bool.false_ne_true))

theorem jpZ_taken (hi : program[pc.toNat]? = some (.jpZ address)) (hz : m.z = true)
    (h : Steps program bus (m.goto address) m') : Steps program bus (m.goto pc) m' := by
  refine .head ?_ h
  rw [step_goto hi]
  exact congrArg some (if_pos hz)

theorem jpZ_next (hi : program[pc.toNat]? = some (.jpZ address)) (hz : m.z = false)
    (h : Steps program bus (m.goto (pc + 1)) m') : Steps program bus (m.goto pc) m' := by
  refine .head ?_ h
  rw [step_goto hi]
  exact congrArg some (if_neg (by rw [State.goto, hz]; exact Bool.false_ne_true))

theorem jpNz_next (hi : program[pc.toNat]? = some (.jpNz address)) (hz : m.z = true)
    (h : Steps program bus (m.goto (pc + 1)) m') : Steps program bus (m.goto pc) m' := by
  refine .head ?_ h
  rw [step_goto hi]
  exact congrArg some (if_pos hz)

theorem jpNz_taken (hi : program[pc.toNat]? = some (.jpNz address)) (hz : m.z = false)
    (h : Steps program bus (m.goto address) m') : Steps program bus (m.goto pc) m' := by
  refine .head ?_ h
  rw [step_goto hi]
  exact congrArg some (if_neg (by rw [State.goto, hz]; exact Bool.false_ne_true))

theorem jrC_taken (hi : program[pc.toNat]? = some (.jrC address)) (hc : m.cy = true)
    (h : Steps program bus (m.goto address) m') : Steps program bus (m.goto pc) m' := by
  refine .head ?_ h
  rw [step_goto hi]
  exact congrArg some (if_pos hc)

theorem jrC_next (hi : program[pc.toNat]? = some (.jrC address)) (hc : m.cy = false)
    (h : Steps program bus (m.goto (pc + 1)) m') : Steps program bus (m.goto pc) m' := by
  refine .head ?_ h
  rw [step_goto hi]
  exact congrArg some (if_neg (by rw [State.goto, hc]; exact Bool.false_ne_true))

theorem jrNc_taken (hi : program[pc.toNat]? = some (.jrNc address)) (hc : m.cy = false)
    (h : Steps program bus (m.goto address) m') : Steps program bus (m.goto pc) m' := by
  refine .head ?_ h
  rw [step_goto hi]
  exact congrArg some (if_neg (by rw [State.goto, hc]; exact Bool.false_ne_true))

theorem jrNc_next (hi : program[pc.toNat]? = some (.jrNc address)) (hc : m.cy = true)
    (h : Steps program bus (m.goto (pc + 1)) m') : Steps program bus (m.goto pc) m' := by
  refine .head ?_ h
  rw [step_goto hi]
  exact congrArg some (if_pos hc)

theorem jr (hi : program[pc.toNat]? = some (.jr address))
    (h : Steps program bus (m.goto address) m') : Steps program bus (m.goto pc) m' := by
  refine .head ?_ h
  rw [step_goto hi]
  rfl

theorem jp (hi : program[pc.toNat]? = some (.jp address))
    (h : Steps program bus (m.goto address) m') : Steps program bus (m.goto pc) m' := by
  refine .head ?_ h
  rw [step_goto hi]
  rfl

theorem jpHl (hi : program[pc.toNat]? = some .jpHl)
    (h : Steps program bus (m.goto (m.pair .hl)) m') : Steps program bus (m.goto pc) m' := by
  refine .head ?_ h
  rw [step_goto hi]
  rfl

theorem djnz (hi : program[pc.toNat]? = some (.djnz address))
    (h : Steps program bus ((m.setReg .b (m.b - 1)).goto
      (if m.b - 1 = 0 then pc + 1 else address)) m') : Steps program bus (m.goto pc) m' := by
  refine .head ?_ h
  rw [step_goto hi]
  rfl

theorem call (hi : program[pc.toNat]? = some (.call address))
    (h : Steps program bus ({ m with stack := (pc + 1) :: m.stack }.goto address) m') :
    Steps program bus (m.goto pc) m' := by
  refine .head ?_ h
  rw [step_goto hi]
  rfl

theorem ret (hi : program[pc.toNat]? = some .ret) (hs : m.stack = address :: stack)
    (h : Steps program bus ({ m with stack := stack }.goto address) m') :
    Steps program bus (m.goto pc) m' := by
  refine .head ?_ h
  rw [step_goto hi]
  exact takeReturn_goto hs

theorem retZ_taken (hi : program[pc.toNat]? = some .retZ) (hz : m.z = true)
    (hs : m.stack = address :: stack)
    (h : Steps program bus ({ m with stack := stack }.goto address) m') :
    Steps program bus (m.goto pc) m' := by
  refine .head ?_ h
  rw [step_goto hi]
  exact (if_pos hz).trans (takeReturn_goto hs)

theorem retZ_next (hi : program[pc.toNat]? = some .retZ) (hz : m.z = false)
    (h : Steps program bus (m.goto (pc + 1)) m') : Steps program bus (m.goto pc) m' := by
  refine .head ?_ h
  rw [step_goto hi]
  exact if_neg (by rw [State.goto, hz]; exact Bool.false_ne_true)

theorem retNz_taken (hi : program[pc.toNat]? = some .retNz) (hz : m.z = false)
    (hs : m.stack = address :: stack)
    (h : Steps program bus ({ m with stack := stack }.goto address) m') :
    Steps program bus (m.goto pc) m' := by
  refine .head ?_ h
  rw [step_goto hi]
  exact (if_neg (by rw [State.goto, hz]; exact Bool.false_ne_true)).trans (takeReturn_goto hs)

end Steps

end

/-- The bytes at `k` addresses from `w` on. -/
def bytesFrom (mem : UInt16 → UInt8) (w : UInt16) : ℕ → List UInt8
  | 0 => []
  | k + 1 => mem w :: bytesFrom mem (w + 1) k

@[simp] theorem length_bytesFrom (mem : UInt16 → UInt8) (w : UInt16) (k : ℕ) :
    (bytesFrom mem w k).length = k := by
  induction k generalizing w with
  | zero => rfl
  | succ k ih => rw [bytesFrom, List.length_cons, ih]

/-! ## Bytes in memory -/

/-- The bytes are put at the addresses from `w` on. -/
def storeFrom (mem : UInt16 → UInt8) (w : UInt16) : List UInt8 → UInt16 → UInt8
  | [] => mem
  | v :: data => storeFrom (Function.update mem w v) (w + 1) data

/-- No one of the `k` addresses from `w` on. -/
def Outside (w : UInt16) (k : ℕ) (address : UInt16) : Prop := ∀ i < k, address ≠ w + UInt16.ofNat i

instance (w : UInt16) (k : ℕ) (address : UInt16) : Decidable (Outside w k address) :=
  inferInstanceAs (Decidable (∀ i < k, address ≠ w + UInt16.ofNat i))

section
variable {mem : UInt16 → UInt8} {w address : UInt16} {k : ℕ}

theorem add_ofNat_succ (w : UInt16) (i : ℕ) : w + UInt16.ofNat (i + 1) = w + 1 + UInt16.ofNat i := by
  rw [UInt16.ofNat_add, UInt16.add_assoc, UInt16.add_comm 1]
  rfl

theorem Outside.self (h : Outside w (k + 1) address) : address ≠ w := by
  have h0 := h 0 (Nat.succ_pos k)
  rwa [show UInt16.ofNat 0 = 0 from rfl, UInt16.add_zero] at h0

theorem Outside.succ (h : Outside w (k + 1) address) : Outside (w + 1) k address := by
  intro i hi
  rw [← add_ofNat_succ]
  exact h (i + 1) (Nat.succ_lt_succ hi)

theorem Outside.mono {k' : ℕ} (h : Outside w k address) (hle : k' ≤ k) : Outside w k' address :=
  fun i hi => h i (Nat.lt_of_lt_of_le hi hle)

/-- An address is not among those behind it, short of the whole memory. -/
theorem outside_behind (w : UInt16) (hk : k < 65536) : Outside (w + 1) k w := by
  intro i hi he
  rw [← add_ofNat_succ] at he
  have h0 : w + 0 = w + UInt16.ofNat (i + 1) := by rw [UInt16.add_zero]; exact he
  have hzero := congrArg UInt16.toNat ((UInt16.add_right_inj w).1 h0)
  rw [UInt16.toNat_ofNat', UInt16.toNat_zero, Nat.mod_eq_of_lt (by omega)] at hzero
  omega

/-- Nor is the one behind them. -/
theorem outside_before (w : UInt16) (hk : k < 65536) : Outside w k (w + UInt16.ofNat k) := by
  intro i hi he
  have heq := congrArg UInt16.toNat ((UInt16.add_right_inj w).1 he)
  rw [UInt16.toNat_ofNat', UInt16.toNat_ofNat', Nat.mod_eq_of_lt (by omega),
    Nat.mod_eq_of_lt (by omega)] at heq
  omega

theorem storeFrom_outside {data : List UInt8} (h : Outside w data.length address) :
    storeFrom mem w data address = mem address := by
  induction data generalizing mem w with
  | nil => rfl
  | cons v data ih =>
    rw [List.length_cons] at h
    rw [storeFrom, ih h.succ, Function.update_of_ne h.self]

theorem bytesFrom_update (v : UInt8) (h : Outside w k address) :
    bytesFrom (Function.update mem address v) w k = bytesFrom mem w k := by
  induction k generalizing w with
  | zero => rfl
  | succ k ih => rw [bytesFrom, ih h.succ, Function.update_of_ne h.self.symm, bytesFrom]

/-- **What was stored is read back.** -/
theorem bytesFrom_storeFrom {data : List UInt8} (h : data.length ≤ 65536) :
    bytesFrom (storeFrom mem w data) w data.length = data := by
  induction data generalizing mem w with
  | nil => rfl
  | cons v data ih =>
    rw [List.length_cons] at h
    rw [List.length_cons, bytesFrom, storeFrom, ih (by omega),
      storeFrom_outside (outside_behind w (by omega)), Function.update_self]

theorem storeFrom_apply {data : List UInt8} (h : data.length ≤ 65536) {i : ℕ}
    (hi : i < data.length) : storeFrom mem w data (w + UInt16.ofNat i) = data[i] := by
  induction data generalizing mem w i with
  | nil => cases hi
  | cons v data ih =>
    rw [List.length_cons] at h hi
    cases i with
    | zero =>
      rw [show UInt16.ofNat 0 = 0 from rfl, UInt16.add_zero, storeFrom,
        storeFrom_outside (outside_behind w (by omega)), Function.update_self]
      rfl
    | succ i =>
      rw [add_ofNat_succ]
      exact ih (by omega) (Nat.lt_of_succ_lt_succ hi)

/-- Of the `k'` addresses from `w'` on none is among the `k` from `w` on. -/
def Apart (w : UInt16) (k : ℕ) (w' : UInt16) (k' : ℕ) : Prop :=
  ∀ i < k', Outside w k (w' + UInt16.ofNat i)

instance (w : UInt16) (k : ℕ) (w' : UInt16) (k' : ℕ) : Decidable (Apart w k w' k') :=
  inferInstanceAs (Decidable (∀ i < k', Outside w k (w' + UInt16.ofNat i)))

/-- The word at an address, the lower byte first. -/
def wordAt (mem : UInt16 → UInt8) (w : UInt16) : UInt16 := word (mem (w + 1)) (mem w)

theorem wordAt_kept {mem' : UInt16 → UInt8}
    (h : ∀ i < 2, mem' (w + UInt16.ofNat i) = mem (w + UInt16.ofNat i)) :
    wordAt mem' w = wordAt mem w := by
  have h0 := h 0 (by decide)
  rw [show UInt16.ofNat 0 = 0 from rfl, UInt16.add_zero] at h0
  have h1 : mem' (w + 1) = mem (w + 1) := h 1 (by decide)
  rw [wordAt, h0, h1, wordAt]

/-- A word that was stored is read back. -/
theorem wordAt_storeFrom (v : UInt16) : wordAt (storeFrom mem w [low v, high v]) w = v := by
  have hne : w ≠ w + 1 := (outside_behind (w := w) (k := 1) (by decide) 0 (by decide)).trans_eq
    (UInt16.add_zero _)
  rw [wordAt, storeFrom, storeFrom, storeFrom, Function.update_self, Function.update_of_ne hne,
    Function.update_self, word_high_low]

theorem add_ofNat_sub_one (w : UInt16) (i : ℕ) :
    w + UInt16.ofNat (i + 1) - 1 = w + UInt16.ofNat i := by
  rw [UInt16.ofNat_add, ← UInt16.add_assoc]
  exact UInt16.add_sub_cancel _ _

end

/-! ## Instructions in a row -/

/-- What instructions in a row do that all go on to the next one. -/
def effects (bus : Bus) : State → List Instr → Option State
  | m, [] => some m
  | m, i :: code =>
    match effect bus m i with
    | none => none
    | some m' => effects bus m' code

/-- The instructions from an address on. -/
def CodeAt (program : Program) : UInt16 → List Instr → Prop
  | _, [] => True
  | pc, i :: code => program[pc.toNat]? = some i ∧ CodeAt program (pc + 1) code

section
variable {program : Program} {bus : Bus} {m m' m₁ : State} {pc : UInt16} {code code' : List Instr}

theorem codeAt_append : CodeAt program pc (code ++ code') ↔
    CodeAt program pc code ∧ CodeAt program (pc + UInt16.ofNat code.length) code' := by
  induction code generalizing pc with
  | nil => simp [CodeAt]
  | cons i code ih =>
    rw [List.cons_append, CodeAt, CodeAt, ih, List.length_cons, add_ofNat_succ, and_assoc]

theorem Steps.block (hc : CodeAt program pc code) (he : effects bus m code = some m₁)
    (h : Steps program bus (m₁.goto (pc + UInt16.ofNat code.length)) m') :
    Steps program bus (m.goto pc) m' := by
  induction code generalizing m pc with
  | nil =>
    cases he
    rwa [List.length_nil, show UInt16.ofNat 0 = 0 from rfl, UInt16.add_zero] at h
  | cons i code ih =>
    obtain ⟨hi, hc⟩ := hc
    rw [effects] at he
    split at he
    · cases he
    · next m₂ hm₂ =>
      rw [List.length_cons, add_ofNat_succ] at h
      exact .plain hi hm₂ (ih hc he h)

end

/-! ## Runs that end soon -/

/-- The states of the next `n` steps all meet `p`, and the last one halts. -/
def allSteps (program : Program) (bus : Bus) (p : State → Bool) : ℕ → State → Bool
  | 0, _ => false
  | n + 1, m => p m &&
    match step program bus m with
    | none => true
    | some m' => allSteps program bus p n m'

theorem allSteps_steps {program : Program} {bus : Bus} {p : State → Bool} {n : ℕ} {m m' : State}
    (h : allSteps program bus p n m = true) (hs : Steps program bus m m') : p m' = true := by
  induction n generalizing m with
  | zero => cases h
  | succ n ih =>
    rw [allSteps, Bool.and_eq_true] at h
    obtain ⟨hp, hrest⟩ := h
    rcases Relation.ReflTransGen.cases_head hs with rfl | ⟨m₁, hstep, hs⟩
    · exact hp
    · rw [hstep] at hrest
      exact ih hrest hs

end Z80
