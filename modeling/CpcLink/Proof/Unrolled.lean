/-
  The block transfers of the FIFO library are simple loops.

  Each of the four routines has four copies of its round, and starts at the one
  from which a whole number of turns is left.  From each copy the count goes down
  by one and control reaches the next copy, or the last copy turns back; so the
  copies together are one loop (`copies_run`).
-/
import CpcLink.Fifolib

namespace CpcLink.Fifolib

open Z80

/-! ## The simple loop -/

/-- What a transfer works on: the memory, the address it is at, and the ports. -/
structure View where
  mem : UInt16 → UInt8
  address : UInt16
  reads : ℕ
  ins : List (UInt16 × UInt8)
  outs : List (UInt16 × UInt8)

def View.input (v : View) (bus : Bus) (port : UInt16) : View :=
  { v with reads := v.reads + 1, ins := v.ins ++ [(port, bus v.reads port)] }

/-- The byte on the data register goes to the address. -/
def View.receive (v : View) (bus : Bus) : View :=
  { v.input bus fifoData with
    mem := Function.update v.mem v.address (bus v.reads fifoData)
    address := v.address + 1 }

/-- The byte at the address goes to the data register. -/
def View.send (v : View) : View :=
  { v with outs := v.outs ++ [(fifoData, v.mem v.address)], address := v.address + 1 }

inductive Routine where
  | fifoInBytes | fifoOutBytes | fifoInNcBytes | fifoOutNcBytes

/-- Look at the FIFO, stop if it is not ready, transfer one byte: whether there
    was a transfer, and the view after it. -/
def transfer (bus : Bus) : Routine → View → Bool × View
  | .fifoInBytes, v =>
    if bus v.reads fifoStatus &&& 1 = 0 then (false, v.input bus fifoStatus)
    else (true, (v.input bus fifoStatus).receive bus)
  | .fifoOutBytes, v =>
    if bus v.reads fifoStatus &&& 2 = 0 then (false, v.input bus fifoStatus)
    else (true, (v.input bus fifoStatus).send)
  | .fifoInNcBytes, v => (true, v.receive bus)
  | .fifoOutNcBytes, v => (true, v.send)

/-- Up to `n` transfers: how many there were, and the view after them. -/
def simpleLoop (bus : Bus) (r : Routine) : ℕ → View → ℕ × View
  | 0, v => (0, v)
  | n + 1, v =>
    let t := transfer bus r v
    if t.1 then
      let rest := simpleLoop bus r n t.2
      (rest.1 + 1, rest.2)
    else (0, t.2)

/-- How many bytes a count asks for: none if it is negative, at most 255. -/
def clamp (n : UInt16) : ℕ := if 0x8000 ≤ n.toNat then 0 else min n.toNat 255

/-! ## The copies of a round -/

namespace Routine

def entry : Routine → UInt16
  | fifoInBytes => Fifolib.fifoInBytes
  | fifoOutBytes => Fifolib.fifoOutBytes
  | fifoInNcBytes => Fifolib.fifoInNcBytes
  | fifoOutNcBytes => Fifolib.fifoOutNcBytes

/-- Where the copies end. -/
def finish : Routine → UInt16
  | fifoInBytes => fibsEnd
  | fifoOutBytes => fobsEnd
  | fifoInNcBytes => finbsEnd
  | fifoOutNcBytes => fonbsEnd

/-- The copy that starts a run of `n` rounds. -/
def top (r : Routine) (n : ℕ) : UInt16 :=
  match r, n % 4 with
  | fifoInBytes, 0 => fibsTop4
  | fifoInBytes, 1 => fibsTop1
  | fifoInBytes, 2 => fibsTop2
  | fifoInBytes, _ => fibsTop3
  | fifoOutBytes, 0 => fobsTop4
  | fifoOutBytes, 1 => fobsTop1
  | fifoOutBytes, 2 => fobsTop2
  | fifoOutBytes, _ => fobsTop3
  | fifoInNcBytes, 0 => finbsTop4
  | fifoInNcBytes, 1 => finbsTop1
  | fifoInNcBytes, 2 => finbsTop2
  | fifoInNcBytes, _ => finbsTop3
  | fifoOutNcBytes, 0 => fonbsTop4
  | fifoOutNcBytes, 1 => fonbsTop1
  | fifoOutNcBytes, 2 => fonbsTop2
  | fifoOutNcBytes, _ => fonbsTop3

/-- Where a run of `n` rounds starts. -/
def start (r : Routine) (n : ℕ) : UInt16 := if n = 0 then r.finish else r.top n

/-- The look at the FIFO, which goes on behind it or to the end. -/
def look : Routine → List Instr
  | fifoInBytes => [.inPort .a, .rra, .jrNc fibsEnd]
  | fifoOutBytes => [.inPort .a, .and 2, .jrZ fobsEnd]
  | fifoInNcBytes | fifoOutNcBytes => []

/-- One byte, and the count goes down. -/
def move : Routine → List Instr
  | fifoInBytes => [.dec .c, .ini, .inc .b, .inc .c, .dec .e]
  | fifoOutBytes => [.dec .c, .inc .b, .outi, .inc .c, .dec .e]
  | fifoInNcBytes => [.ini, .inc .b, .dec .e]
  | fifoOutNcBytes => [.inc .b, .outi, .dec .e]

/-- The lower half of the port that a round starts with. -/
def port : Routine → UInt8
  | fifoInBytes | fifoOutBytes => 0x81
  | fifoInNcBytes | fifoOutNcBytes => 0x80

end Routine

/-- The view after a byte was moved. -/
def moved (bus : Bus) : Routine → View → View
  | .fifoInBytes, v | .fifoInNcBytes, v => v.receive bus
  | .fifoOutBytes, v | .fifoOutNcBytes, v => v.send

/-- What the view of a machine is. -/
def view (m : State) : View := ⟨m.mem, m.pair .hl, m.reads, m.ins, m.outs⟩

/-- A machine at a round: what is left to do, and what it was started with. -/
structure At (r : Routine) (m₀ m : State) (left : UInt8) (v : View) : Prop where
  b : m.b = 0xFD
  c : m.c = r.port
  e : m.e = left
  view : view m = v
  d : m.d = m₀.d
  ix : m.ix = m₀.ix

section
variable {bus : Bus} {r : Routine} {m₀ m m' : State} {pc : UInt16} {left : UInt8} {v : View} {n : ℕ}

theorem word_status : word 0xFD 0x81 = fifoStatus := word_eq rfl
theorem word_data : word 0xFD 0x80 = fifoData := word_eq rfl

theorem code_copy (r : Routine) (n : ℕ) :
    CodeAt (Machine.coreOf program) (r.top n) (r.look ++ r.move) := by
  have hn : n % 4 < 4 := Nat.mod_lt _ (by decide)
  unfold Routine.top
  generalize n % 4 = k at hn
  match k, hn with
  | 0, _ | 1, _ | 2, _ | 3, _ => cases r <;> exact ⟨rfl, rfl, rfl, by repeat' constructor⟩

/-! ## One round -/

/-- A byte is moved and the count goes down. -/
theorem move_runs (bus : Bus) (hcode : CodeAt (Machine.coreOf program) pc r.move)
    (h : At r m₀ m left v) : ∃ m', Steps (Machine.coreOf program) bus (m.goto pc)
        (m'.goto (pc + UInt16.ofNat r.move.length)) ∧
      At r m₀ m' (left - 1) (moved bus r v) ∧ m'.z = (left - 1 == 0) := by
  obtain ⟨hb, hc, he, rfl, hd, hix⟩ := h
  cases r with
  | fifoInBytes =>
    have hc' : m.c = 0x81 := hc
    have heff : effects bus m Routine.fifoInBytes.move = some { m with
        b := 0xFD, c := 0x81, e := left - 1, z := left - 1 == 0
        h := high (m.pair .hl + 1), l := low (m.pair .hl + 1)
        mem := Function.update m.mem (m.pair .hl) (bus m.reads fifoData)
        reads := m.reads + 1, ins := m.ins ++ [(fifoData, bus m.reads fifoData)] } := by
      simp [Routine.move, effects, effect, hb, hc', he, word_data]
    refine ⟨_, .block hcode heff .refl, ⟨rfl, rfl, rfl, ?_, hd, hix⟩, rfl⟩
    simp [view, moved, View.receive, View.input]
  | fifoOutBytes =>
    have hc' : m.c = 0x81 := hc
    have heff : effects bus m Routine.fifoOutBytes.move = some { m with
        b := 0xFD, c := 0x81, e := left - 1, z := left - 1 == 0
        h := high (m.pair .hl + 1), l := low (m.pair .hl + 1)
        outs := m.outs ++ [(fifoData, m.mem (m.pair .hl))] } := by
      simp [Routine.move, effects, effect, hb, hc', he, word_data]
    refine ⟨_, .block hcode heff .refl, ⟨rfl, rfl, rfl, ?_, hd, hix⟩, rfl⟩
    simp [view, moved, View.send]
  | fifoInNcBytes =>
    have hc' : m.c = 0x80 := hc
    have heff : effects bus m Routine.fifoInNcBytes.move = some { m with
        b := 0xFD, e := left - 1, z := left - 1 == 0
        h := high (m.pair .hl + 1), l := low (m.pair .hl + 1)
        mem := Function.update m.mem (m.pair .hl) (bus m.reads fifoData)
        reads := m.reads + 1, ins := m.ins ++ [(fifoData, bus m.reads fifoData)] } := by
      simp [Routine.move, effects, effect, hb, hc', he, word_data]
    refine ⟨_, .block hcode heff .refl, ⟨rfl, hc, rfl, ?_, hd, hix⟩, rfl⟩
    simp [view, moved, View.receive, View.input]
  | fifoOutNcBytes =>
    have hc' : m.c = 0x80 := hc
    have heff : effects bus m Routine.fifoOutNcBytes.move = some { m with
        b := 0xFD, e := left - 1, z := left - 1 == 0
        h := high (m.pair .hl + 1), l := low (m.pair .hl + 1)
        outs := m.outs ++ [(fifoData, m.mem (m.pair .hl))] } := by
      simp [Routine.move, effects, effect, hb, hc', he, word_data]
    refine ⟨_, .block hcode heff .refl, ⟨rfl, hc, rfl, ?_, hd, hix⟩, rfl⟩
    simp [view, moved, View.send]

/-- The look at the FIFO: without it, or if it is ready, the byte is moved next. -/
theorem look_runs (bus : Bus) (hcode : CodeAt (Machine.coreOf program) pc r.look)
    (h : At r m₀ m left v) :
    ((transfer bus r v).1 = true → ∃ m' v', Steps (Machine.coreOf program) bus (m.goto pc)
        (m'.goto (pc + UInt16.ofNat r.look.length)) ∧ At r m₀ m' left v' ∧
      (transfer bus r v).2 = moved bus r v') ∧
    ((transfer bus r v).1 = false → ∃ m', Steps (Machine.coreOf program) bus (m.goto pc)
        (m'.goto r.finish) ∧ At r m₀ m' left (transfer bus r v).2) := by
  obtain ⟨hb, hc, he, rfl, hd, hix⟩ := h
  cases r with
  | fifoInBytes =>
    have hc' : m.c = 0x81 := hc
    obtain ⟨htest, hjump, -⟩ : CodeAt (Machine.coreOf program) pc [.inPort .a, .rra] ∧
      CodeAt (Machine.coreOf program) (pc + UInt16.ofNat 2) [.jrNc fibsEnd] := codeAt_append.1 hcode
    have heff : effects bus m [.inPort .a, .rra] = some { m with
        a := bus m.reads fifoStatus >>> 1 ||| if m.cy then 128 else 0
        cy := bus m.reads fifoStatus &&& 1 != 0, z := bus m.reads fifoStatus == 0
        reads := m.reads + 1, ins := m.ins ++ [(fifoStatus, bus m.reads fifoStatus)] } := by
      simp [effects, effect, hb, hc', word_status]
    by_cases hs : bus m.reads fifoStatus &&& 1 = 0
    · rw [transfer, if_pos (by exact hs)]
      refine ⟨fun h => absurd h Bool.false_ne_true, fun _ => ⟨_, .block htest heff
        (.jrNc_taken hjump (by simp [hs]) .refl), ⟨hb, hc, he, rfl, hd, hix⟩⟩⟩
    · rw [transfer, if_neg (by exact hs)]
      refine ⟨fun _ => ⟨_, (view m).input bus fifoStatus, .block htest heff
        (.jrNc_next hjump (by simp [hs]) (.of_eq (congrArg (State.goto _) (UInt16.add_assoc pc 2 1)))),
        ?_, rfl⟩, fun h => absurd h.symm Bool.false_ne_true⟩
      exact ⟨hb, hc, he, rfl, hd, hix⟩
  | fifoOutBytes =>
    have hc' : m.c = 0x81 := hc
    obtain ⟨htest, hjump, -⟩ : CodeAt (Machine.coreOf program) pc [.inPort .a, .and 2] ∧
      CodeAt (Machine.coreOf program) (pc + UInt16.ofNat 2) [.jrZ fobsEnd] := codeAt_append.1 hcode
    have heff : effects bus m [.inPort .a, .and 2] = some { m with
        a := bus m.reads fifoStatus &&& 2
        cy := false, z := bus m.reads fifoStatus &&& 2 == 0
        reads := m.reads + 1, ins := m.ins ++ [(fifoStatus, bus m.reads fifoStatus)] } := by
      simp [effects, effect, hb, hc', word_status]
    by_cases hs : bus m.reads fifoStatus &&& 2 = 0
    · rw [transfer, if_pos (by exact hs)]
      refine ⟨fun h => absurd h Bool.false_ne_true, fun _ => ⟨_, .block htest heff
        (.jrZ_taken hjump (by simp [hs]) .refl), ⟨hb, hc, he, rfl, hd, hix⟩⟩⟩
    · rw [transfer, if_neg (by exact hs)]
      refine ⟨fun _ => ⟨_, (view m).input bus fifoStatus, .block htest heff
        (.jrZ_next hjump (by simp [hs]) (.of_eq (congrArg (State.goto _) (UInt16.add_assoc pc 2 1)))),
        ?_, rfl⟩, fun h => absurd h.symm Bool.false_ne_true⟩
      exact ⟨hb, hc, he, rfl, hd, hix⟩
  | fifoInNcBytes | fifoOutNcBytes =>
    exact ⟨fun _ => ⟨m, _, .of_eq (by rw [Routine.look]; exact congrArg m.goto (UInt16.add_zero pc).symm),
      ⟨hb, hc, he, rfl, hd, hix⟩, rfl⟩, fun h => absurd h.symm Bool.false_ne_true⟩

/-! ## All rounds -/

/-- Behind a copy there is the next one, or the turn back to the first. -/
theorem behind_copy (r : Routine) (n : ℕ) :
    r.top (n + 1) + UInt16.ofNat (r.look ++ r.move).length =
      if n % 4 = 0 then r.finish - 1 else r.top n := by
  have hn : n % 4 < 4 := Nat.mod_lt _ (by decide)
  unfold Routine.top
  rw [Nat.add_mod]
  generalize n % 4 = k at hn
  match k, hn with
  | 0, _ | 1, _ | 2, _ | 3, _ => cases r <;> rfl

theorem code_turn (r : Routine) :
    (Machine.coreOf program)[(r.finish - 1).toNat]? = some (.jrNz (r.top 0)) := by
  cases r <;> rfl

/-- Behind a copy it goes on with the rounds that are left. -/
theorem onward_runs (bus : Bus) (n : ℕ) (hz : m.z = decide (n = 0)) :
    Steps (Machine.coreOf program) bus
      (m.goto (r.top (n + 1) + UInt16.ofNat (r.look ++ r.move).length)) (m.goto (r.start n)) := by
  rw [behind_copy, Routine.start]
  by_cases h4 : n % 4 = 0
  · have htop : r.top n = r.top 0 := by
      unfold Routine.top
      rw [h4]
    rw [if_pos h4, htop]
    by_cases h0 : n = 0
    · rw [if_pos h0]
      refine .jrNz_next (code_turn r) (by rw [hz, decide_eq_true h0]) (.of_eq ?_)
      rw [UInt16.sub_add_cancel]
    · rw [if_neg h0]
      exact .jrNz_taken (code_turn r) (by rw [hz, decide_eq_false h0]) .refl
  · rw [if_neg h4, if_neg fun h0 => h4 (by rw [h0])]
    exact .refl

theorem simpleLoop_le (bus : Bus) (r : Routine) (n : ℕ) (v : View) : (simpleLoop bus r n v).1 ≤ n := by
  induction n generalizing v with
  | zero => exact Nat.le_refl 0
  | succ n ih =>
    rw [simpleLoop]
    dsimp only
    split
    · exact Nat.succ_le_succ (ih _)
    · exact Nat.zero_le _

/-- **The copies together are the simple loop.** -/
theorem copies_run (bus : Bus) (hn : n ≤ 255) (h : At r m₀ m (UInt8.ofNat n) v) :
    ∃ m', Steps (Machine.coreOf program) bus (m.goto (r.start n)) (m'.goto r.finish) ∧
      At r m₀ m' (UInt8.ofNat (n - (simpleLoop bus r n v).1)) (simpleLoop bus r n v).2 := by
  induction n generalizing m v with
  | zero => exact ⟨m, .refl, h⟩
  | succ n ih =>
    obtain ⟨hlook, hmove⟩ := codeAt_append.1 (code_copy r (n + 1))
    obtain ⟨hready, hstop⟩ := look_runs bus hlook h
    rw [Routine.start, if_neg (Nat.succ_ne_zero n), simpleLoop]
    dsimp only
    cases ht : (transfer bus r v).1 with
    | false =>
      rw [if_neg Bool.false_ne_true]
      exact hstop ht
    | true =>
      obtain ⟨m₁, v₁, hsteps₁, h₁, hv₁⟩ := hready ht
      obtain ⟨m₂, hsteps₂, h₂, hz⟩ := move_runs bus hmove h₁
      have hleft : UInt8.ofNat (n + 1) - 1 = UInt8.ofNat n := by
        rw [UInt8.ofNat_add]
        exact UInt8.add_sub_cancel _ _
      have hzero : (UInt8.ofNat n == 0) = decide (n = 0) := by
        rw [Bool.eq_iff_iff, beq_iff_eq, decide_eq_true_iff, ← UInt8.toNat_inj, UInt8.toNat_ofNat',
          UInt8.toNat_zero, Nat.mod_eq_of_lt (by omega)]
      rw [hleft] at h₂ hz
      rw [UInt16.add_assoc, ← UInt16.ofNat_add, ← List.length_append] at hsteps₂
      obtain ⟨m', hsteps, h'⟩ := ih (by omega) h₂
      rw [if_pos rfl, hv₁, Nat.add_sub_add_right]
      exact ⟨m', hsteps₁.trans (hsteps₂.trans ((onward_runs bus n (hz.trans hzero)).trans hsteps)), h'⟩

/-! ## Into the copies and out of them -/

theorem code_choose (r : Routine) : CodeAt (Machine.coreOf program) (r.top 0 - 7)
    [.and 3, .cp 1, .jrZ (r.top 1), .cp 2, .jrZ (r.top 2), .cp 3, .jrZ (r.top 3)] := by
  cases r <;> exact ⟨rfl, rfl, rfl, rfl, rfl, rfl, rfl, trivial⟩

/-- The copy is chosen by the count modulo 4. -/
theorem choose_runs (bus : Bus) (r : Routine) (hn : n ≤ 255) (ha : m.a = UInt8.ofNat n) :
    ∃ a z cy, Steps (Machine.coreOf program) bus (m.goto (r.top 0 - 7))
      ({ m with a := a, z := z, cy := cy }.goto (r.top n)) := by
  obtain ⟨h₁, h₂, h₃, h₄, h₅, h₆, h₇, -⟩ := code_choose r
  have hmod : m.a &&& 3 = UInt8.ofNat (n % 4) := by
    rw [ha, ← UInt8.toNat_inj, UInt8.toNat_and, UInt8.toNat_ofNat', UInt8.toNat_ofNat',
      Nat.mod_eq_of_lt (by omega), Nat.mod_eq_of_lt (by omega)]
    exact Nat.and_two_pow_sub_one_eq_mod n 2
  have htop : r.top n = r.top (n % 4) := by
    unfold Routine.top
    rw [Nat.mod_mod]
  have h4 : n % 4 < 4 := Nat.mod_lt _ (by decide)
  rw [htop]
  generalize n % 4 = k at hmod h4
  match k, h4 with
  | 0, _ =>
    have h7 : r.top 0 - 7 + 1 + 1 + 1 + 1 + 1 + 1 + 1 = r.top 0 := by
      simp only [UInt16.add_assoc]
      exact UInt16.sub_add_cancel _ _
    exact ⟨_, _, _, .plain h₁ rfl (.plain h₂ rfl (.jrZ_next h₃ (by simp [hmod]) (.plain h₄ rfl
      (.jrZ_next h₅ (by simp [hmod]) (.plain h₆ rfl (.jrZ_next h₇ (by simp [hmod])
        (.of_eq (congrArg (State.goto _) h7))))))))⟩
  | 1, _ => exact ⟨_, _, _, .plain h₁ rfl (.plain h₂ rfl (.jrZ_taken h₃ (by simp [hmod]) .refl))⟩
  | 2, _ =>
    exact ⟨_, _, _, .plain h₁ rfl (.plain h₂ rfl (.jrZ_next h₃ (by simp [hmod]) (.plain h₄ rfl
      (.jrZ_taken h₅ (by simp [hmod]) .refl))))⟩
  | 3, _ =>
    exact ⟨_, _, _, .plain h₁ rfl (.plain h₂ rfl (.jrZ_next h₃ (by simp [hmod]) (.plain h₄ rfl
      (.jrZ_next h₅ (by simp [hmod]) (.plain h₆ rfl (.jrZ_taken h₇ (by simp [hmod]) .refl))))))⟩

theorem code_enter (r : Routine) :
    CodeAt (Machine.coreOf program) (r.entry + 1) [.and 0xFF, .jrZ r.finish] := by
  cases r <;> exact ⟨rfl, rfl, trivial⟩

/-- The routines that look at the FIFO point to its status first. -/
theorem point_runs (bus : Bus) (r : Routine) (hc : m.c = 0x80) (ha : m.a ≠ 0) : ∃ z cy,
    Steps (Machine.coreOf program) bus (m.goto (r.entry + 1))
      ({ m with c := r.port, z := z, cy := cy }.goto (r.top 0 - 7)) := by
  have heff : effects bus m [.and 0xFF] = some { m with z := false, cy := false } := by
    have hself : m.a &&& 255 = m.a := UInt8.and_neg_one
    simp [effects, effect, hself, ha]
  obtain ⟨h₁, h₂, -⟩ := code_enter r
  have htest : CodeAt (Machine.coreOf program) (r.entry + 1) [.and 0xFF] := ⟨h₁, trivial⟩
  have hnext := @Steps.jrZ_next _ bus { m with z := false, cy := false } _ _ _ h₂ rfl .refl
  refine ⟨r.port == 0, false, .block htest heff (hnext.trans ?_)⟩
  cases r with
  | fifoInBytes | fifoOutBytes => exact .plain rfl rfl (.of_eq (by simp [hc, Routine.port]; rfl))
  | fifoInNcBytes | fifoOutNcBytes => exact .of_eq (by simp [hc, Routine.port]; rfl)

/-- From the return of `fifo_ext_param`, with the count in three registers, to the
    end of the copies. -/
theorem rounds_run (bus : Bus) (r : Routine) (hn : n ≤ 255) (hb : m.b = 0xFD) (hc : m.c = 0x80)
    (ha : m.a = UInt8.ofNat n) (he : m.e = UInt8.ofNat n) : ∃ m',
    Steps (Machine.coreOf program) bus (m.goto (r.entry + 1)) (m'.goto r.finish) ∧
      m'.e = UInt8.ofNat (n - (simpleLoop bus r n (view m)).1) ∧
      view m' = (simpleLoop bus r n (view m)).2 ∧ m'.d = m.d ∧ m'.ix = m.ix := by
  by_cases h0 : n = 0
  · subst h0
    obtain ⟨h₁, h₂, -⟩ := code_enter r
    exact ⟨_, .plain h₁ rfl (.jrZ_taken h₂ (by simp [ha]) .refl), he, rfl, rfl, rfl⟩
  have hne : m.a ≠ 0 := by
    rw [ha, Ne, ← UInt8.toNat_inj, UInt8.toNat_ofNat', UInt8.toNat_zero, Nat.mod_eq_of_lt (by omega)]
    exact h0
  obtain ⟨z, cy, hpoint⟩ := point_runs bus r hc hne
  obtain ⟨a, z', cy', hchoose⟩ := choose_runs (m := { m with c := r.port, z := z, cy := cy }) bus r hn ha
  have hrun := copies_run (m := { m with a := a, c := r.port, z := z', cy := cy' }) bus hn
    ⟨hb, rfl, he, rfl, rfl, rfl⟩
  rw [Routine.start, if_neg h0] at hrun
  obtain ⟨m', hcopies, h'⟩ := hrun
  exact ⟨m', hpoint.trans (hchoose.trans hcopies), h'.e, h'.view, h'.d, h'.ix⟩

/-! ## The parameters -/

theorem sign_bit (v : UInt8) : v &&& 128 = 0 ↔ v.toNat < 128 := by
  have hsmall : ∀ n < 256, n &&& 128 = 0 ↔ n < 128 := by decide +kernel
  rw [← UInt8.toNat_inj, UInt8.toNat_and]
  exact hsmall _ v.toNat_lt

theorem clamp_le (n : UInt16) : clamp n ≤ 255 := by
  unfold clamp
  split
  · exact Nat.zero_le _
  · exact Nat.min_le_right _ _

/-- What `fifo_ext_param` makes of the two bytes of a count. -/
theorem clamp_word (high low : UInt8) : UInt8.ofNat (clamp (word high low)) =
    if high = 0 then low else if high &&& 128 = 0 then 0xFF else 0 := by
  have hlow := low.toNat_lt
  rw [clamp, toNat_word]
  by_cases h0 : high = 0
  · rw [if_pos h0, h0, if_neg (by rw [UInt8.toNat_zero]; omega), UInt8.toNat_zero,
      Nat.min_eq_left (by omega), Nat.zero_mul, Nat.zero_add, UInt8.ofNat_toNat]
  · have hpos : high.toNat ≠ 0 := fun h => h0 (UInt8.toNat_inj.1 h)
    rw [if_neg h0]
    by_cases hs : high &&& 128 = 0
    · have hlt := (sign_bit high).1 hs
      rw [if_pos hs, if_neg (by omega), Nat.min_eq_right (by omega)]
      rfl
    · have hge : ¬ high.toNat < 128 := fun h => hs ((sign_bit high).2 h)
      rw [if_neg hs, if_pos (by omega)]
      rfl

/-- The parameters are in the registers: the address, and the count three times. -/
structure Extracted (m m' : State) (address count : UInt16) : Prop where
  b : m'.b = 0xFD
  c : m'.c = 0x80
  a : m'.a = UInt8.ofNat (clamp count)
  d : m'.d = UInt8.ofNat (clamp count)
  e : m'.e = UInt8.ofNat (clamp count)
  hl : m'.pair .hl = address
  mem : m'.mem = m.mem
  reads : m'.reads = m.reads
  ins : m'.ins = m.ins
  outs : m'.outs = m.outs

/-- The part of `fifo_ext_param` between its `push` and one of its two `pop`s. -/
theorem params_run (bus : Bus) (m : State) : ∃ m' p, (p = 63 ∨ p = 67) ∧
    Steps (Machine.coreOf program) bus (m.goto 50) (m'.goto p) ∧
    Extracted m m' (wordAt m.mem m.ix) (wordAt m.mem (m.ix + 2)) := by
  have hcount := clamp_word (m.mem (m.ix + 2 + 1)) (m.mem (m.ix + 2))
  have h3 : m.ix + 2 + 1 = m.ix + 3 := UInt16.add_assoc _ _ _
  have heff : effects bus m [.ldPair .bc 0xfd80, .ldIx .l 0, .ldIx .h 1, .ldIx .a 3, .and 0xff] =
      some { m with
        a := m.mem (m.ix + 3), b := 0xFD, c := 0x80, h := m.mem (m.ix + 1), l := m.mem m.ix
        z := m.mem (m.ix + 3) == 0, cy := false } := by
    have hself : ∀ v : UInt8, v &&& 255 = v := fun v => UInt8.and_neg_one
    have hhigh : high 0xFD80 = 0xFD := high_eq rfl
    have hlow : low 0xFD80 = 0x80 := low_eq rfl
    simp [effects, effect, hself, hhigh, hlow]
  have hcode : CodeAt (Machine.coreOf program) 50
      [.ldPair .bc 0xfd80, .ldIx .l 0, .ldIx .h 1, .ldIx .a 3, .and 0xff] :=
    ⟨rfl, rfl, rfl, rfl, rfl, trivial⟩
  rw [h3] at hcount
  rw [wordAt, wordAt, h3]
  by_cases h0 : m.mem (m.ix + 3) = 0
  · rw [if_pos h0] at hcount
    refine ⟨_, 63, .inl rfl, .block hcode heff (.jrZ_taken rfl (by simp [h0]) (.plain rfl rfl
      (.plain rfl rfl (.plain rfl rfl .refl)))), ?_⟩
    exact ⟨rfl, rfl, hcount.symm, hcount.symm, hcount.symm, rfl, rfl, rfl, rfl, rfl⟩
  · rw [if_neg h0] at hcount
    by_cases hs : m.mem (m.ix + 3) &&& 128 = 0
    · rw [if_pos hs] at hcount
      refine ⟨_, 63, .inl rfl, .block hcode heff (.jrZ_next rfl (by simp [h0]) (.plain rfl rfl
        (.jrC_next rfl (by simp [hs]) (.plain rfl rfl (.jr rfl (.plain rfl rfl (.plain rfl rfl
          .refl))))))), ?_⟩
      exact ⟨rfl, rfl, hcount.symm, hcount.symm, hcount.symm, rfl, rfl, rfl, rfl, rfl⟩
    · rw [if_neg hs] at hcount
      refine ⟨_, 67, .inr rfl, .block hcode heff (.jrZ_next rfl (by simp [h0]) (.plain rfl rfl
        (.jrC_taken rfl (by simp [hs]) (.plain rfl rfl (.plain rfl rfl .refl))))), ?_⟩
      have hhigh : high 0 = 0 := high_eq rfl
      have hlow : low 0 = 0 := low_eq rfl
      refine ⟨rfl, rfl, hcount.symm, ?_, ?_, rfl, rfl, rfl, rfl, rfl⟩
      · rw [hcount]; exact hhigh
      · rw [hcount]; exact hlow

/-- `fifo_ext_param`, from its call to its return. -/
theorem extParam_runs (bus : Bus) (m : Machine) : ∃ core : State,
    Machine.Runs program bus (m.goto fifoExtParam) (Machine.goto ⟨core, m.sp + 2⟩ m.top) ∧
    core.ix = m.core.ix ∧ Extracted (m.push m.core.ix).core core
      (wordAt m.core.mem (m.sp + 4)) (wordAt m.core.mem (m.sp + 6)) := by
  have hix : 6 + (m.sp - 2) = m.sp + 4 := by grind
  obtain ⟨m₁, p, hp, hsteps, h⟩ := params_run bus { (m.push m.core.ix).core with
    ix := 6 + (m.sp - 2)
    cy := decide (65536 ≤ (6 : UInt16).toNat + (m.sp - 2).toNat) }
  rw [hix] at h
  have htop : wordAt m₁.mem m.sp = m.top := by
    have hkept : wordAt (m.push m.core.ix).core.mem (m.sp + UInt16.ofNat 0) = _ :=
      Machine.wordAt_push_above m m.core.ix (by decide)
    rw [show UInt16.ofNat 0 = 0 from rfl, UInt16.add_zero] at hkept
    rw [h.mem]
    exact hkept
  -- both ends take `ix` and the return address from the stack
  have hpop : Machine.Runs program bus (Machine.goto ⟨m₁, m.sp - 2⟩ p)
      (Machine.goto ⟨{ m₁ with ix := m.core.ix }, m.sp + 2⟩ m.top) := by
    have hsaved : Machine.top ⟨m₁, m.sp - 2⟩ = m.core.ix := by
      rw [Machine.top, h.mem]
      exact wordAt_storeFrom m.core.ix
    have hret : Machine.Runs program bus
        (Machine.goto ⟨{ m₁ with ix := m.core.ix }, m.sp⟩ (p + 1))
        (Machine.goto ⟨{ m₁ with ix := m.core.ix }, m.sp + 2⟩ m.top) := by
      rw [← htop]
      rcases hp with rfl | rfl
      · exact .ret rfl .refl
      · exact .ret rfl .refl
    have hdrop : m.sp - 2 + 2 = m.sp := UInt16.sub_add_cancel _ _
    rcases hp with rfl | rfl
    · refine .popIx rfl ?_
      rw [hsaved, Machine.drop, hdrop]
      exact hret
    · refine .popIx rfl ?_
      rw [hsaved, Machine.drop, hdrop]
      exact hret
  refine ⟨{ m₁ with ix := m.core.ix }, ?_, rfl, ?_⟩
  · exact .pushIx rfl (.core_step (.plain rfl rfl .refl) (.addIxSp rfl (.core_step hsteps hpop)))
  · have haddress : wordAt (m.push m.core.ix).core.mem (m.sp + 4) = wordAt m.core.mem (m.sp + 4) :=
      @Machine.wordAt_push_above m m.core.ix 4 (by decide)
    have hcount : wordAt (m.push m.core.ix).core.mem (m.sp + 6) = wordAt m.core.mem (m.sp + 6) :=
      @Machine.wordAt_push_above m m.core.ix 6 (by decide)
    rw [← haddress, ← hcount]
    have hsix : m.sp + 4 + 2 = m.sp + 6 := UInt16.add_assoc _ _ _
    rw [← hsix]
    exact ⟨h.b, h.c, h.a, h.d, h.e, h.hl, h.mem, h.reads, h.ins, h.outs⟩

/-! ## A whole call -/

/-- How many bytes the caller asks for. -/
def count (m : Machine) : ℕ := clamp (wordAt m.core.mem (m.sp + 4))

/-- The view at the first round: the return address of `fifo_ext_param` and `ix`
    were pushed below the stack pointer. -/
def atFirst (r : Routine) (m : Machine) : View where
  mem := ((m.push (r.entry + 1)).push m.core.ix).core.mem
  address := wordAt m.core.mem (m.sp + 2)
  reads := m.core.reads
  ins := m.core.ins
  outs := m.core.outs

/-- The call has done what the simple loop does, which left `v` after `k`
    transfers, and returns. -/
structure Transferred (m m' : Machine) (k : ℕ) (v : View) : Prop where
  l : m'.core.l.toNat = k
  mem : m'.core.mem = v.mem
  reads : m'.core.reads = v.reads
  ins : m'.core.ins = v.ins
  outs : m'.core.outs = v.outs
  sp : m'.sp = m.sp + 2
  ix : m'.core.ix = m.core.ix
  pc : m'.core.pc = wordAt v.mem m.sp

theorem two_words_down (w : UInt16) : w - 2 - 2 = w - 4 ∧ w - 4 + 1 + 1 = w - 2 := by grind

/-- Below the stack pointer there are four bytes that were pushed. -/
theorem atFirst_mem (r : Routine) (m : Machine) {address : UInt16}
    (h : Outside (m.sp - 4) 4 address) : (atFirst r m).mem address = m.core.mem address := by
  obtain ⟨hlow, hhigh⟩ := two_words_down m.sp
  have hlower : Outside (m.sp - 2 - 2) 2 address := hlow ▸ h.mono (Nat.le_add_left 2 2)
  have hupper : Outside (m.sp - 2) 2 address := hhigh ▸ h.succ.succ
  have hsecond : (atFirst r m).mem address = (m.push (r.entry + 1)).core.mem address :=
    Machine.push_outside (m.push (r.entry + 1)) m.core.ix hlower
  exact hsecond.trans (Machine.push_outside m (r.entry + 1) hupper)

/-- The routines that do not look at the FIFO transfer all bytes. -/
theorem simpleLoop_nc (bus : Bus) (hr : r = .fifoInNcBytes ∨ r = .fifoOutNcBytes) (n : ℕ) (v : View) :
    (simpleLoop bus r n v).1 = n := by
  have ht : ∀ v, (transfer bus r v).1 = true := by
    rcases hr with rfl | rfl <;> exact fun _ => rfl
  induction n generalizing v with
  | zero => rfl
  | succ n ih =>
    rw [simpleLoop]
    dsimp only
    rw [if_pos (ht v), ih]

theorem transfer_mem (bus : Bus) (r : Routine) (v : View) {address : UInt16} (h : address ≠ v.address) :
    (transfer bus r v).2.mem address = v.mem address := by
  cases r with
  | fifoInBytes =>
    rw [transfer]
    split
    · rfl
    · exact Function.update_of_ne h _ _
  | fifoOutBytes =>
    rw [transfer]
    split <;> rfl
  | fifoInNcBytes => exact Function.update_of_ne h _ _
  | fifoOutNcBytes => rfl

theorem transfer_address (bus : Bus) (r : Routine) (v : View) (h : (transfer bus r v).1 = true) :
    (transfer bus r v).2.address = v.address + 1 := by
  cases r with
  | fifoInBytes | fifoOutBytes =>
    rw [transfer] at h ⊢
    split at h
    · cases h
    · next hs => rw [if_neg hs]; rfl
  | fifoInNcBytes | fifoOutNcBytes => rfl

/-- Of the ports only the two of the FIFO are used. -/
def OnFifo (v v' : View) : Prop := ∃ ins outs : List (UInt16 × UInt8),
  v'.ins = v.ins ++ ins ∧ v'.outs = v.outs ++ outs ∧
    ∀ access ∈ ins ++ outs, access.1 = fifoStatus ∨ access.1 = fifoData

theorem OnFifo.refl (v : View) : OnFifo v v := ⟨[], [], by simp⟩

theorem OnFifo.trans {v v' v'' : View} (h : OnFifo v v') (h' : OnFifo v' v'') : OnFifo v v'' := by
  obtain ⟨ins, outs, hins, houts, hports⟩ := h
  obtain ⟨ins', outs', hins', houts', hports'⟩ := h'
  refine ⟨ins ++ ins', outs ++ outs', by rw [hins', hins, List.append_assoc],
    by rw [houts', houts, List.append_assoc], fun access hmem => ?_⟩
  simp only [List.mem_append] at hmem hports hports'
  rcases hmem with (h | h) | h | h
  · exact hports access (.inl h)
  · exact hports' access (.inl h)
  · exact hports access (.inr h)
  · exact hports' access (.inr h)

theorem onFifo_input (v : View) (bus : Bus) {port : UInt16} (h : port = fifoStatus ∨ port = fifoData) :
    OnFifo v (v.input bus port) :=
  ⟨[(port, bus v.reads port)], [], rfl, (List.append_nil _).symm, by simpa using h⟩

theorem onFifo_receive (v : View) (bus : Bus) : OnFifo v (v.receive bus) :=
  onFifo_input v bus (.inr rfl)

theorem onFifo_send (v : View) : OnFifo v v.send :=
  ⟨[], [(fifoData, v.mem v.address)], (List.append_nil _).symm, rfl, by simp⟩

theorem transfer_ports (bus : Bus) (r : Routine) (v : View) : OnFifo v (transfer bus r v).2 := by
  have hlook : OnFifo v (v.input bus fifoStatus) := onFifo_input v bus (.inl rfl)
  cases r with
  | fifoInBytes =>
    rw [transfer]
    split
    · exact hlook
    · exact hlook.trans (onFifo_receive _ bus)
  | fifoOutBytes =>
    rw [transfer]
    split
    · exact hlook
    · exact hlook.trans (onFifo_send _)
  | fifoInNcBytes => exact onFifo_receive v bus
  | fifoOutNcBytes => exact onFifo_send v

/-- The memory behind the bytes and before them is left alone. -/
theorem simpleLoop_mem (bus : Bus) (r : Routine) (n : ℕ) (v : View) {address : UInt16}
    (h : Outside v.address n address) : (simpleLoop bus r n v).2.mem address = v.mem address := by
  induction n generalizing v with
  | zero => rfl
  | succ n ih =>
    rw [simpleLoop]
    dsimp only
    split
    next ht =>
      rw [← transfer_mem bus r v h.self]
      exact ih _ (by rw [transfer_address bus r v ht]; exact h.succ)
    next => exact transfer_mem bus r v h.self

theorem simpleLoop_ports (bus : Bus) (r : Routine) (n : ℕ) (v : View) :
    OnFifo v (simpleLoop bus r n v).2 := by
  induction n generalizing v with
  | zero => exact .refl v
  | succ n ih =>
    rw [simpleLoop]
    dsimp only
    split
    · exact (transfer_ports bus r v).trans (ih _)
    · exact transfer_ports bus r v

/-- A call runs like the simple loop. -/
theorem call_runs (bus : Bus) (r : Routine) (m : Machine) : ∃ m',
    Machine.Runs program bus (m.goto r.entry) m' ∧
      Transferred m m' (simpleLoop bus r (count m) (atFirst r m)).1
        (simpleLoop bus r (count m) (atFirst r m)).2 := by
  obtain ⟨core, hparam, hix, h⟩ := extParam_runs bus (m.push (r.entry + 1))
  have hn := clamp_le (wordAt m.core.mem (m.sp + 4))
  have haddress : wordAt (m.push (r.entry + 1)).core.mem (m.sp - 2 + 4) =
      wordAt m.core.mem (m.sp + 2) := by
    rw [show m.sp - 2 + 4 = m.sp + 2 by grind]
    exact @Machine.wordAt_push_above m (r.entry + 1) 2 (by decide)
  have hcount : wordAt (m.push (r.entry + 1)).core.mem (m.sp - 2 + 6) =
      wordAt m.core.mem (m.sp + 4) := by
    rw [show m.sp - 2 + 6 = m.sp + 4 by grind]
    exact @Machine.wordAt_push_above m (r.entry + 1) 4 (by decide)
  rw [Machine.push_sp, haddress, hcount] at h
  have hview : view core = atFirst r m := by
    rw [view, h.hl, h.mem, h.reads, h.ins, h.outs]
    rfl
  obtain ⟨core', hrounds, he, hv, hd, hix'⟩ := rounds_run bus r hn h.b h.c h.a h.e
  rw [hview] at he hv
  have hle := simpleLoop_le bus r (count m) (atFirst r m)
  have hend : CodeAt (Machine.coreOf program) r.finish [.ldReg .a .d, .sub .e, .ldReg .l .a] := by
    cases r <;> exact ⟨rfl, rfl, rfl, trivial⟩
  obtain ⟨z, cy, heff⟩ : ∃ z cy, effects bus core' [.ldReg .a .d, .sub .e, .ldReg .l .a] =
      some { core' with a := core'.d - core'.e, l := core'.d - core'.e, z := z, cy := cy } :=
    ⟨_, _, rfl⟩
  have hret : program[(r.finish + UInt16.ofNat 3).toNat]? = some .ret := by cases r <;> rfl
  have hcall : program[r.entry.toNat]? = some (.call fifoExtParam) := by cases r <;> rfl
  have hsp : m.sp - 2 + 2 = m.sp := UInt16.sub_add_cancel _ _
  rw [Machine.push_top, Machine.push_sp, hsp] at hparam
  refine ⟨_, .call hcall (hparam.trans (.core_step (hrounds.trans (.block hend heff .refl))
    (.ret hret .refl))), ?_⟩
  refine ⟨?_, congrArg View.mem hv, congrArg View.reads hv, congrArg View.ins hv,
    congrArg View.outs hv, rfl, hix'.trans hix, congrArg (fun v : View => wordAt v.mem m.sp) hv⟩
  change (core'.d - core'.e).toNat = _
  have hcounted : ∀ {n k : ℕ}, n ≤ 255 → k ≤ n →
      (UInt8.ofNat n - UInt8.ofNat (n - k)).toNat = k := by
    intro n k hn hk
    rw [UInt8.toNat_sub, UInt8.toNat_ofNat', UInt8.toNat_ofNat']
    omega
  rw [hd, h.d, he]
  exact hcounted hn hle

/-- Above the bytes that were pushed the return address is the caller's, if no byte
    of the buffer is at it. -/
theorem returns_to_caller (bus : Bus) (r : Routine) (m : Machine)
    (h : Apart (atFirst r m).address (count m) m.sp 2) :
    wordAt (simpleLoop bus r (count m) (atFirst r m)).2.mem m.sp = m.top := by
  have hpushed : wordAt (atFirst r m).mem m.sp = m.top := by
    have hsecond : wordAt (atFirst r m).mem m.sp = wordAt (m.push (r.entry + 1)).core.mem m.sp := by
      have habove := Machine.wordAt_push_above (m.push (r.entry + 1)) m.core.ix (i := 2) (by decide)
      rwa [Machine.push_sp, show m.sp - 2 + UInt16.ofNat 2 = m.sp from UInt16.sub_add_cancel _ _]
        at habove
    have hfirst := Machine.wordAt_push_above m (r.entry + 1) (i := 0) (by decide)
    rw [show UInt16.ofNat 0 = 0 from rfl, UInt16.add_zero] at hfirst
    exact hsecond.trans hfirst
  rw [← hpushed]
  exact wordAt_kept fun i hi => simpleLoop_mem bus r _ _ (h i hi)

end

/-- **The unrolled transfers are the simple loop.**  Whatever is on the ports, and
    for every count and buffer on the stack, a call stores or sends the bytes that
    the simple loop does, at the same addresses and in the same order, and returns
    their number in `l`.  The routines that do not look at the FIFO transfer as many
    as they were asked for.  No other port is used. -/
theorem transfers_are_simple_loop (bus : Bus) (r : Routine) (m : Machine) :
    ∃ m', Machine.Runs program bus (m.goto r.entry) m' ∧
      Transferred m m' (simpleLoop bus r (count m) (atFirst r m)).1
        (simpleLoop bus r (count m) (atFirst r m)).2 ∧
      (r = .fifoInNcBytes ∨ r = .fifoOutNcBytes → m'.core.l.toNat = count m) ∧
      OnFifo (view m.core) (view m'.core) ∧
      (∀ address, Outside (m.sp - 4) 4 address →
        (atFirst r m).mem address = m.core.mem address) ∧
      (Apart (atFirst r m).address (count m) m.sp 2 → m'.core.pc = m.top) := by
  obtain ⟨m', hruns, h⟩ := call_runs bus r m
  refine ⟨m', hruns, h, fun hr => ?_, ?_, fun address => atFirst_mem r m, fun hapart => ?_⟩
  · rw [h.l, simpleLoop_nc bus hr]
  · obtain ⟨ins, outs, hins, houts, hports⟩ := simpleLoop_ports bus r (count m) (atFirst r m)
    exact ⟨ins, outs, h.ins.trans hins, h.outs.trans houts, hports⟩
  · rw [h.pc, returns_to_caller bus r m hapart]

end CpcLink.Fifolib
