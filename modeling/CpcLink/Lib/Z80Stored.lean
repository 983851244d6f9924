/-
  A Z80 whose program is in its memory.

  An instruction is read off the bytes at the program counter (`decode`), so a program
  may be overwritten while it runs.  There are as many codes as a small loader needs.
-/
import CpcLink.Lib.Z80Stack

namespace Z80

/-- The instructions that go on somewhere else or use the stack, and the others. -/
inductive Coded where
  | plain (i : Instr)
  | nop
  | jrNz (address : UInt16)
  | jrNc (address : UInt16)
  | call (address : UInt16)
  | ret
  | push (p : Pair)

/-- Where a relative jump leads, whose second byte is the distance from the next
    instruction. -/
def relative (mem : UInt16 → UInt8) (pc : UInt16) : UInt16 :=
  pc + 2 + UInt16.ofNat (mem (pc + 1)).toNat - if mem (pc + 1) < 128 then 0 else 256

/-- The instruction at an address, and the address of the next one. -/
def decode (mem : UInt16 → UInt8) (pc : UInt16) : Option (Coded × UInt16) :=
  match mem pc with
  | 0x00 => some (.nop, pc + 1)
  | 0x01 => some (.plain (.ldPair .bc (wordAt mem (pc + 1))), pc + 3)
  | 0x0C => some (.plain (.inc .c), pc + 1)
  | 0x0D => some (.plain (.dec .c), pc + 1)
  | 0x1B => some (.plain (.decPair .de), pc + 1)
  | 0x1F => some (.plain .rra, pc + 1)
  | 0x20 => some (.jrNz (relative mem pc), pc + 2)
  | 0x23 => some (.plain (.incPair .hl), pc + 1)
  | 0x30 => some (.jrNc (relative mem pc), pc + 2)
  | 0x67 => some (.plain (.ldReg .h .a), pc + 1)
  | 0x6F => some (.plain (.ldReg .l .a), pc + 1)
  | 0x77 => some (.plain (.ldToHl .a), pc + 1)
  | 0x7A => some (.plain (.ldReg .a .d), pc + 1)
  | 0xB3 => some (.plain (.or .e), pc + 1)
  | 0xC9 => some (.ret, pc + 1)
  | 0xCD => some (.call (wordAt mem (pc + 1)), pc + 3)
  | 0xE5 => some (.push .hl, pc + 1)
  | 0xEB => some (.plain .exDeHl, pc + 1)
  | 0xED => if mem (pc + 1) = 0x78 then some (.plain (.inPort .a), pc + 2) else none
  | _ => none

namespace Stored

/-- The machine after an instruction that `next` is behind. -/
def exec (bus : Bus) (m : Machine) (next : UInt16) : Coded → Option Machine
  | .plain i => (effect bus m.core i).map fun core => ({ m with core := core } : Machine).goto next
  | .nop => some (m.goto next)
  | .jrNz address => some (m.goto (if m.core.z then next else address))
  | .jrNc address => some (m.goto (if m.core.cy then next else address))
  | .call address => some ((m.push next).goto address)
  | .ret => some (m.drop.goto m.top)
  | .push p => some ((m.push (m.core.pair p)).goto next)

/-- One instruction. -/
def step (bus : Bus) (m : Machine) : Option Machine :=
  match decode m.core.mem m.core.pc with
  | none => none
  | some (i, next) => exec bus m next i

/-- The states that a run from a state passes. -/
def Runs (bus : Bus) : Machine → Machine → Prop :=
  Relation.ReflTransGen fun m m' => step bus m = some m'

section
variable {bus : Bus} {m m' m'' : Machine} {pc next address : UInt16} {core : State}

theorem step_goto {i : Coded} (hi : decode m.core.mem pc = some (i, next)) :
    step bus (m.goto pc) = exec bus (m.goto pc) next i := by
  have hi' : decode (m.goto pc).core.mem (m.goto pc).core.pc = some (i, next) := hi
  rw [step, hi']

namespace Runs

theorem refl : Runs bus m m := Relation.ReflTransGen.refl

theorem of_eq (h : m = m') : Runs bus m m' := by rw [h]; exact refl

theorem trans (h : Runs bus m m') (h' : Runs bus m' m'') : Runs bus m m'' :=
  Relation.ReflTransGen.trans h h'

theorem plain {i : Instr} (hi : decode m.core.mem pc = some (.plain i, next))
    (he : effect bus m.core i = some core)
    (h : Runs bus (({ m with core := core } : Machine).goto next) m') : Runs bus (m.goto pc) m' := by
  refine .head ?_ h
  have heffect : effect bus (m.goto pc).core i = some (core.goto pc) :=
    (effect_goto m.core pc i).trans (by rw [he]; rfl)
  rw [step_goto hi, exec, heffect]
  rfl

theorem jrNz_next (hi : decode m.core.mem pc = some (.jrNz address, next)) (hz : m.core.z = true)
    (h : Runs bus (m.goto next) m') : Runs bus (m.goto pc) m' := by
  refine .head ?_ h
  rw [step_goto hi]
  exact congrArg (fun w => some (m.goto w)) (if_pos hz)

theorem jrNz_taken (hi : decode m.core.mem pc = some (.jrNz address, next)) (hz : m.core.z = false)
    (h : Runs bus (m.goto address) m') : Runs bus (m.goto pc) m' := by
  refine .head ?_ h
  rw [step_goto hi]
  exact congrArg (fun w => some (m.goto w)) (if_neg (ne_true_of_eq_false hz))

theorem jrNc_next (hi : decode m.core.mem pc = some (.jrNc address, next)) (hc : m.core.cy = true)
    (h : Runs bus (m.goto next) m') : Runs bus (m.goto pc) m' := by
  refine .head ?_ h
  rw [step_goto hi]
  exact congrArg (fun w => some (m.goto w)) (if_pos hc)

theorem jrNc_taken (hi : decode m.core.mem pc = some (.jrNc address, next)) (hc : m.core.cy = false)
    (h : Runs bus (m.goto address) m') : Runs bus (m.goto pc) m' := by
  refine .head ?_ h
  rw [step_goto hi]
  exact congrArg (fun w => some (m.goto w)) (if_neg (ne_true_of_eq_false hc))

theorem call (hi : decode m.core.mem pc = some (.call address, next))
    (h : Runs bus ((m.push next).goto address) m') : Runs bus (m.goto pc) m' := by
  refine .head ?_ h
  rw [step_goto hi]
  rfl

theorem ret (hi : decode m.core.mem pc = some (.ret, next))
    (h : Runs bus (m.drop.goto m.top) m') : Runs bus (m.goto pc) m' := by
  refine .head ?_ h
  rw [step_goto hi]
  rfl

theorem push {p : Pair} (hi : decode m.core.mem pc = some (.push p, next))
    (h : Runs bus ((m.push (m.core.pair p)).goto next) m') : Runs bus (m.goto pc) m' := by
  refine .head ?_ h
  rw [step_goto hi]
  cases p <;> rfl

end Runs

end

/-! ## Code in memory -/

/-- These bytes are at the addresses from `w` on. -/
def Holds (mem : UInt16 → UInt8) (w : UInt16) (code : List UInt8) : Prop :=
  ∀ i (h : i < code.length), mem (w + UInt16.ofNat i) = code[i]

section
variable {mem mem' : UInt16 → UInt8} {w : UInt16} {code : List UInt8}

/-- They stay there when nothing else is changed. -/
theorem Holds.kept (h : Holds mem w code)
    (hkept : ∀ i < code.length, mem' (w + UInt16.ofNat i) = mem (w + UInt16.ofNat i)) :
    Holds mem' w code := fun i hi => (hkept i hi).trans (h i hi)

/-- The code behind other code. -/
theorem Holds.behind {front : List UInt8} (h : Holds mem w (front ++ code)) :
    Holds mem (w + UInt16.ofNat front.length) code := by
  intro i hi
  have hall := h (front.length + i) (by rw [List.length_append]; omega)
  rw [List.getElem_append_right (Nat.le_add_right _ _)] at hall
  rw [UInt16.add_assoc, ← UInt16.ofNat_add, hall]
  congr 1
  omega

theorem holds_storeFrom (hlen : code.length ≤ 65536) : Holds (storeFrom mem w code) w code :=
  fun _ hi => storeFrom_apply hlen hi

end

end Stored

end Z80
