/-
  Does `|VDU` send the bytes of the VDU command that it is called with?

  The number of parameters is doubled in eight bits, so from the 129th word on the
  code is not read where it is.  What the command sends is stated first in terms of
  the byte that is read (`vdu_runs`), and then compared with what it should send.
-/
import CpcLink.Proof.Rsx

namespace CpcLink.Fiforsx

open Z80

/-- The words that BASIC passes, the last one at the address. -/
def Passed (mem : UInt16 → UInt8) (ix : UInt16) : List UInt16 → Prop
  | [] => True
  | v :: values => wordAt mem (ix + UInt16.ofNat (2 * values.length)) = v ∧ Passed mem ix values

/-- How many parameters a VDU command has, without its number. -/
def vduParm (n : UInt8) : ℕ := ((byteAt (vduParms.toNat + n.toNat)).getD 0).toNat

/-- The bytes of a VDU command; none if it has another number of parameters. -/
def vduBytes (n : UInt8) (params : List UInt16) : List UInt8 :=
  if n = 25 then
    match params with
    | [k, x, y] => [25, low k, low x, high x, low y, high y]
    | _ => []
  else if n = 29 then
    match params with
    | [x, y] => [29, low x, high x, low y, high y]
    | _ => []
  else if params.length = vduParm n then n :: params.map low
  else []

/-! ## What the code sends -/

/-- Where the number of the command is looked for: twice the number of parameters
    is a byte. -/
def pointer (m : State) : UInt16 := m.ix + word 0 ((m.a - 1) <<< 1)

/-- Every other byte, downwards. -/
def bytesDown (mem : UInt16 → UInt8) (w : UInt16) : ℕ → List UInt8
  | 0 => []
  | k + 1 => mem w :: bytesDown mem (w - 2) k

/-- The bytes of `PLOT` for `a` parameters. -/
def plotSent (m : State) (a : UInt8) : List UInt8 :=
  if a = 3 then
    [25, m.mem (m.ix + 4), m.mem (m.ix + 2), m.mem (m.ix + 3), m.mem m.ix, m.mem (m.ix + 1)]
  else []

/-- The bytes of `ORIGIN` for `a` parameters. -/
def originSent (m : State) (a : UInt8) : List UInt8 :=
  if a = 2 then [29, m.mem (m.ix + 2), m.mem (m.ix + 3), m.mem m.ix, m.mem (m.ix + 1)] else []

/-- The bytes of `VDU`, by the byte that it takes for the number of the command. -/
def vduSent (m : State) : List UInt8 :=
  let n := m.mem (pointer m)
  if n = 25 then plotSent m (m.a - 1)
  else if n = 29 then originSent m (m.a - 1)
  else if n = 127 then [127]
  else if n.toNat < 32 ∧ m.a.toNat = vduParm n + 1 then bytesDown m.mem (pointer m) m.a.toNat
  else []

section
variable {bus : Bus} {outside : State → Option State} {m m' : State} {address pc : UInt16}
  {stack : List UInt16}

/-! ## `PLOT` and `ORIGIN` -/

/-- The byte in `l` is sent, then those of the parameters at these places. -/
def putAll : List UInt16 → List Instr
  | [] => [.call fifoPutByte, .ret]
  | d :: ds => .call fifoPutByte :: .ldIx .l d :: putAll ds

theorem putAll_returns (hready : ReadyAgain bus) (ds : List UInt16)
    (hcode : CodeAt program pc (putAll ds)) (hs : m.stack = address :: stack) :
    Returns outside bus (m.goto pc) m address stack (m.l :: ds.map fun d => m.mem (m.ix + d)) := by
  induction ds generalizing m pc with
  | nil =>
    obtain ⟨hcall, hret, -⟩ := hcode
    obtain ⟨a, k, l, hput⟩ := call_putByte hready m pc hcall
    have hend : Returns outside bus ((put m a k l m.l).goto (pc + 1)) (put m a k l m.l) address stack
        [] := .ret hret hs
    exact .steps hput (.after (toFifo_put m a k l _) hend)
  | cons d ds ih =>
    obtain ⟨hcall, hload, hrest⟩ := hcode
    obtain ⟨a, k, l, hput⟩ := call_putByte hready m pc hcall
    have hnext := ih (m := { put m a k l m.l with l := m.mem (m.ix + d) }) hrest hs
    exact .steps (hput.trans (.plain hload rfl .refl)) (.after (toFifo_put m a k l _) hnext)

/-- The two words that are sent by both. -/
theorem twoInts_returns (outside : State → Option State) (hready : ReadyAgain bus)
    (hs : m.stack = address :: stack) :
    Returns outside bus (m.goto vdu2IntParams) m address stack
      [m.l, m.mem (m.ix + 2), m.mem (m.ix + 3), m.mem m.ix, m.mem (m.ix + 1)] := by
  have hput : Returns outside bus (m.goto vdu2IntParams) m address stack _ :=
    putAll_returns hready [2, 3, 0, 1]
      ⟨rfl, rfl, rfl, rfl, rfl, rfl, rfl, rfl, rfl, rfl, trivial⟩ hs
  rwa [List.map_cons, List.map_cons, List.map_cons, List.map_cons, List.map_nil, UInt16.add_zero]
    at hput

theorem origin_returns (hf : Firmware outside) (hl : Loaded m.mem) (hready : ReadyAgain bus)
    (hs : m.stack = address :: stack) :
    Returns outside bus (m.goto origin) m address stack (originSent m m.a) := by
  rw [originSent]
  by_cases h2 : m.a = 2
  · rw [if_pos h2]
    refine .steps (.plain rfl rfl (.jpNz_next rfl (beq_iff_eq.2 h2) (.plain rfl rfl .refl))) ?_
    exact twoInts_returns outside hready hs
  · rw [if_neg h2]
    refine .steps (.plain rfl rfl (.jpNz_taken rfl (beq_eq_false_iff_ne.2 h2) .refl)) ?_
    exact .perror hf hl hs

theorem plot_returns (hf : Firmware outside) (hl : Loaded m.mem) (hready : ReadyAgain bus)
    (hs : m.stack = address :: stack) :
    Returns outside bus (m.goto plot) m address stack (plotSent m m.a) := by
  rw [plotSent]
  by_cases h3 : m.a = 3
  · rw [if_pos h3]
    have hstart : Steps program bus (m.goto plot)
        (State.goto { m with l := 25, z := true, cy := decide (m.a < 3) } (plot + 1 + 1 + 1)) :=
      .plain rfl rfl (.jpNz_next rfl (beq_iff_eq.2 h3) (.plain rfl rfl (.of_eq (by simp [h3]))))
    obtain ⟨a, k, l, hput⟩ := call_putByte hready { m with
      l := 25, z := true, cy := decide (m.a < 3) } (plot + 1 + 1 + 1) rfl
    have htwo := twoInts_returns outside hready (m := { put m a k l 25 with
      l := m.mem (m.ix + 4) }) hs
    exact .steps (hstart.trans (hput.trans (.plain rfl rfl (.jr rfl .refl))))
      (.after (toFifo_put m a k l _) htwo)
  · rw [if_neg h3]
    refine .steps (.plain rfl rfl (.jpNz_taken rfl (beq_eq_false_iff_ne.2 h3) .refl)) ?_
    exact .perror hf hl hs

/-! ## `VDU` -/

/-- The number of the command was looked up. -/
def lookedUp (m : State) : State := { m with
  a := m.mem (pointer m), b := 0, c := (m.a - 1) <<< 1, e := m.a
  h := high (pointer m), l := low (pointer m), z := (m.a - 1) <<< 1 == 0
  cy := decide (65536 ≤ m.ix.toNat + (word 0 ((m.a - 1) <<< 1)).toNat) }

theorem lookUp_runs (bus : Bus) (ha : m.a ≠ 0) :
    Steps program bus (m.goto vdu) ((lookedUp m).goto 180) := by
  have hcode : CodeAt program (vdu + 1 + 1) [.ldReg .e .a, .pushIx, .pop .hl, .dec .a, .sla .a,
      .ldNum .b 0, .ldReg .c .a, .addHl .bc, .ldHl .a] :=
    ⟨rfl, rfl, rfl, rfl, rfl, rfl, rfl, rfl, rfl, trivial⟩
  have heff : effects bus { m with z := false, cy := decide (m.a < 0) }
      [.ldReg .e .a, .pushIx, .pop .hl, .dec .a, .sla .a, .ldNum .b 0, .ldReg .c .a, .addHl .bc,
        .ldHl .a] = some (lookedUp m) := by
    simp [effects, effect, lookedUp, pointer]
  have hz : (m.a == 0) = false := beq_eq_false_iff_ne.2 ha
  refine .plain rfl rfl (.jpZ_next rfl hz ?_)
  rw [State.compare, hz]
  exact .block hcode heff .refl

/-- The byte at `hl` is sent, and `hl` goes down to the next one. -/
theorem vduRound_runs (hready : ReadyAgain bus) (m : State) : ∃ m₁ : State,
    Steps program bus (m.goto vduL6) (m₁.goto 272) ∧ m₁.mem = m.mem ∧ m₁.stack = m.stack ∧
      m₁.pair .hl = m.pair .hl - 2 ∧ m₁.e = m.e - 1 ∧ m₁.z = (m.e - 1 == 0) ∧
      m₁.outs = m.outs ++ onFifo [m.mem (m.pair .hl)] := by
  have hback : ∀ m : State, m.b = 0xFD → m.c = 0x81 →
      Steps program bus (m.goto vduL6) (m.goto (vduL6 + 1)) := fun m hb hc =>
    .plain rfl rfl (.of_eq (by simp [← hb, ← hc, high_status, low_status, fifoStatus]))
  obtain ⟨a, k, l, hlook⟩ := @look_runs bus { m with b := 0xFD, c := 0x81 } (vduL6 + 1) vduL6
    ⟨rfl, rfl, rfl, trivial⟩ hback hready rfl rfl
  have hstart : Steps program bus (m.goto vduL6)
      (State.goto { m with b := 0xFD, c := 0x81 } (vduL6 + 1)) :=
    .plain rfl rfl (.of_eq (by simp [high_status, low_status, fifoStatus]))
  have hcode : CodeAt program 266 [.dec .c, .ldHl .a, .outPort .a, .decPair .hl, .decPair .hl, .dec .e] :=
    ⟨rfl, rfl, rfl, rfl, rfl, rfl, trivial⟩
  have hdown : m.pair .hl - 1 - 1 = m.pair .hl - 2 := by grind
  have heff : effects bus { m with
      a := a, b := 0xFD, c := 0x81, z := false, cy := false, reads := k, ins := l }
      [.dec .c, .ldHl .a, .outPort .a, .decPair .hl, .decPair .hl, .dec .e] = some { m with
        a := m.mem (m.pair .hl), b := 0xFD, c := 0x80, e := m.e - 1, h := high (m.pair .hl - 2)
        l := low (m.pair .hl - 2), z := m.e - 1 == 0, cy := false, reads := k, ins := l
        outs := m.outs ++ onFifo [m.mem (m.pair .hl)] } := by
    rw [← hdown]
    simp [effects, effect, onFifo, word_data]
  exact ⟨_, hstart.trans (hlook.trans (.block hcode heff .refl)), rfl, rfl, word_high_low _, rfl, rfl,
    rfl⟩

/-- All words are sent, by their lower bytes. -/
theorem vduL6_returns (outside : State → Option State) (hready : ReadyAgain bus) {j : ℕ}
    (he : m.e.toNat = j + 1) {w : UInt16} (hw : m.pair .hl = w) (hs : m.stack = address :: stack) :
    Returns outside bus (m.goto vduL6) m address stack (bytesDown m.mem w (j + 1)) := by
  subst hw
  induction j generalizing m with
  | zero =>
    obtain ⟨m₁, hround, hmem, hstack, hhl, hleft, hz, houts⟩ := vduRound_runs hready m
    have hend : Returns outside bus (m₁.goto 273) m₁ address stack [] :=
      .ret rfl (hstack.trans hs)
    exact .steps (hround.trans (.jrNz_next rfl (hz.trans (counted_out he)) .refl))
      (.after (toFifo_append houts) hend)
  | succ j ih =>
    obtain ⟨m₁, hround, hmem, hstack, hhl, hleft, hz, houts⟩ := vduRound_runs hready m
    obtain ⟨hleft', hz'⟩ := counted_down he
    have hrest := ih (by rw [hleft, hleft']) (hstack.trans hs)
    rw [hmem, hhl] at hrest
    exact .steps (hround.trans (.jrNz_taken rfl (hz.trans hz') .refl))
      (.after (toFifo_append houts) hrest)

theorem vduParms_small : ∀ n < 32, ∃ v, byteAt (137 + n) = some v ∧ v.toNat ≤ 9 := by
  have hsmall : ∀ n < 32, (byteAt (137 + n)).any (·.toNat ≤ 9) = true := by decide
  intro n hn
  obtain ⟨v, hv, hle⟩ := (Option.any_eq_true _ _).1 (hsmall n hn)
  exact ⟨v, hv, of_decide_eq_true hle⟩

theorem vduParm_le {n : UInt8} (hn : n.toNat < 32) : vduParm n ≤ 9 := by
  obtain ⟨v, hv, hle⟩ := vduParms_small n.toNat hn
  rwa [vduParm, show vduParms.toNat = 137 from rfl, hv]

/-- The entry of the table for a command. -/
theorem vduParm_mem (hl : Loaded m.mem) {n : UInt8} (hn : n.toNat < 32) :
    (m.mem (vduParms + word 0 n)).toNat = vduParm n := by
  obtain ⟨v, hv, -⟩ := vduParms_small n.toNat hn
  have hplace : vduParms + word 0 n = UInt16.ofNat (137 + n.toNat) := by
    rw [UInt16.ofNat_add, ← UInt16.toNat_inj, UInt16.toNat_add, UInt16.toNat_add, toNat_word,
      UInt16.toNat_ofNat', UInt16.toNat_ofNat', UInt8.toNat_zero, show vduParms.toNat = 137 from rfl]
    omega
  rw [hplace, hl _ v hv, vduParm, show vduParms.toNat = 137 from rfl, hv]
  rfl

/-- The number of parameters is compared with the one in the table. -/
theorem vduL4_returns (hf : Firmware outside) (hl : Loaded m.mem) (hready : ReadyAgain bus)
    (hn : m.a.toNat < 32) {w : UInt16} (hw : m.pair .hl = w) (hs : m.stack = address :: stack) :
    Returns outside bus (m.goto vduL4) m address stack
      (if m.e.toNat = vduParm m.a + 1 then bytesDown m.mem w m.e.toNat else []) := by
  subst hw
  have hparm := vduParm_mem hl hn
  have hle := vduParm_le hn
  have hcode : CodeAt program vduL4 [.push .hl, .ldNum .b 0, .ldReg .c .a, .ldPair .hl vduParms,
      .addHl .bc, .ldHl .a, .inc .a, .cpReg .e] := ⟨rfl, rfl, rfl, rfl, rfl, rfl, rfl, rfl, trivial⟩
  have heff : effects bus m [.push .hl, .ldNum .b 0, .ldReg .c .a, .ldPair .hl vduParms,
      .addHl .bc, .ldHl .a, .inc .a, .cpReg .e] = some { m with
        a := m.mem (vduParms + word 0 m.a) + 1, b := 0, c := m.a
        h := high (vduParms + word 0 m.a), l := low (vduParms + word 0 m.a)
        z := m.mem (vduParms + word 0 m.a) + 1 == m.e
        cy := decide (m.mem (vduParms + word 0 m.a) + 1 < m.e)
        stack := m.pair .hl :: m.stack } := by
    simp [effects, effect]
    rfl
  have hinc : (m.mem (vduParms + word 0 m.a) + 1).toNat = vduParm m.a + 1 := by
    rw [UInt8.toNat_add, hparm, show (1 : UInt8).toNat = 1 from rfl]
    exact Nat.mod_eq_of_lt (by omega)
  by_cases hmatch : m.e.toNat = vduParm m.a + 1
  · have hz : (m.mem (vduParms + word 0 m.a) + 1 == m.e) = true :=
      beq_iff_eq.2 (UInt8.toNat_inj.1 (hinc.trans hmatch.symm))
    have hloop := vduL6_returns outside hready (m := { m with
      a := m.mem (vduParms + word 0 m.a) + 1, b := 0, c := m.a
      z := m.mem (vduParms + word 0 m.a) + 1 == m.e
      cy := decide (m.mem (vduParms + word 0 m.a) + 1 < m.e)
      h := high (m.pair .hl), l := low (m.pair .hl) }) hmatch (word_high_low _) hs
    rw [if_pos hmatch, hmatch]
    exact .steps (.block hcode heff (.jpZ_taken rfl hz (.plain rfl rfl .refl))) hloop
  · have hz : (m.mem (vduParms + word 0 m.a) + 1 == m.e) = false :=
      beq_eq_false_iff_ne.2 fun h => hmatch (by rw [← h, hinc])
    rw [if_neg hmatch]
    refine .steps (.block hcode heff (.jpZ_next rfl hz (.plain rfl rfl (.jp rfl .refl)))) ?_
    exact .perror hf hl hs

theorem badCode_text : TextAt 198 50 := by decide

/-- A code that is not one of a VDU command. -/
theorem badCode_returns (hf : Firmware outside) (hl : Loaded m.mem) (hs : m.stack = address :: stack) :
    Returns outside bus (m.goto 197) m address stack [] := by
  obtain ⟨m₁, hruns, hstack, hfifo⟩ := sprint_runs (m := { m with
    stack := 198 :: m.stack }) bus hf badCode_text hl rfl
  exact ⟨{ m₁ with stack := stack }, .steps (.call rfl .refl) (hruns.trans (.of_steps
    (.ret rfl (hstack.trans hs) .refl))), rfl, hfifo.trans (List.append_nil _).symm⟩

/-- **What `VDU` sends.** -/
theorem vdu_returns (hf : Firmware outside) (hl : Loaded m.mem) (hready : ReadyAgain bus)
    (ha : m.a ≠ 0) (hs : m.stack = address :: stack) :
    Returns outside bus (m.goto vdu) m address stack (vduSent m) := by
  have hlook := lookUp_runs bus ha
  rw [vduSent]
  by_cases h25 : m.mem (pointer m) = 25
  · rw [if_pos h25]
    refine .steps (hlook.trans (.plain rfl rfl (.jrNz_next rfl (beq_iff_eq.2 h25)
      (.plain rfl rfl (.plain rfl rfl (.jp rfl .refl)))))) ?_
    exact plot_returns hf hl hready hs
  rw [if_neg h25]
  obtain ⟨z₁, cy₁, hL1⟩ : ∃ z cy, Steps program bus (m.goto vdu)
      (State.goto { lookedUp m with z := z, cy := cy } vduL1) :=
    ⟨_, _, hlook.trans (.plain rfl rfl (.jrNz_taken rfl (beq_eq_false_iff_ne.2 h25) .refl))⟩
  by_cases h29 : m.mem (pointer m) = 29
  · rw [if_pos h29]
    refine .steps (hL1.trans (.plain rfl rfl (.jrNz_next rfl (beq_iff_eq.2 h29)
      (.plain rfl rfl (.plain rfl rfl (.jp rfl .refl)))))) ?_
    exact origin_returns hf hl hready hs
  rw [if_neg h29]
  obtain ⟨z₂, cy₂, hL2⟩ : ∃ z cy, Steps program bus (m.goto vdu)
      (State.goto { lookedUp m with z := z, cy := cy } vduL2) :=
    ⟨_, _, hL1.trans (.plain rfl rfl (.jrNz_taken rfl (beq_eq_false_iff_ne.2 h29) .refl))⟩
  by_cases h127 : m.mem (pointer m) = 127
  · rw [if_pos h127]
    have hput : Returns outside bus (State.goto { lookedUp m with
        l := m.mem (pointer m), z := m.mem (pointer m) == 127
        cy := decide (m.mem (pointer m) < 127) } 193) m address stack [m.mem (pointer m)] :=
      putAll_returns hready [] ⟨rfl, rfl, trivial⟩ hs
    rw [h127] at hput
    refine .steps (hL2.trans (.plain rfl rfl (.jrNz_next rfl (beq_iff_eq.2 h127)
      (.plain rfl rfl (.of_eq ?_))))) hput
    rw [← h127]
    rfl
  rw [if_neg h127]
  obtain ⟨z₃, cy₃, hL3⟩ : ∃ z cy, Steps program bus (m.goto vdu)
      (State.goto { lookedUp m with z := z, cy := cy } vduL3) :=
    ⟨_, _, hL2.trans (.plain rfl rfl (.jrNz_taken rfl (beq_eq_false_iff_ne.2 h127) .refl))⟩
  by_cases h32 : m.mem (pointer m) < 32
  · have hcheck := vduL4_returns hf hl hready (m := { lookedUp m with
      z := m.mem (pointer m) == 32, cy := decide (m.mem (pointer m) < 32) })
      (UInt8.lt_iff_toNat_lt.1 h32) (word_high_low _) hs
    have hand : m.mem (pointer m) < 32 ↔ (m.mem (pointer m)).toNat < 32 := UInt8.lt_iff_toNat_lt
    simp only [← hand, h32, true_and]
    exact .steps (hL3.trans (.plain rfl rfl (.jrC_taken rfl (decide_eq_true h32) .refl))) hcheck
  · rw [if_neg fun h => h32 (UInt8.lt_iff_toNat_lt.2 h.1)]
    refine .steps (hL3.trans (.plain rfl rfl (.jrC_next rfl (decide_eq_false h32) .refl))) ?_
    exact badCode_returns hf hl hs

/-! ## What it should send -/

section
variable {mem : UInt16 → UInt8} {ix v : UInt16} {values params : List UInt16} {n : UInt8}

theorem ofNat_inj {i j : ℕ} (hi : i ≤ 254) (hj : j ≤ 254) (h : UInt8.ofNat i = UInt8.ofNat j) :
    i = j := by
  have hto := congrArg UInt8.toNat h
  rwa [UInt8.toNat_ofNat', UInt8.toNat_ofNat', Nat.mod_eq_of_lt (by omega),
    Nat.mod_eq_of_lt (by omega)] at hto

@[simp] theorem low_wordAt (mem : UInt16 → UInt8) (w : UInt16) : low (wordAt mem w) = mem w :=
  low_word _ _

@[simp] theorem high_wordAt (mem : UInt16 → UInt8) (w : UInt16) :
    high (wordAt mem w) = mem (w + 1) := high_word _ _

theorem Passed.low_get (h : Passed mem ix values) {i : ℕ} (hi : i < values.length) :
    mem (ix + UInt16.ofNat (2 * (values.length - 1 - i))) = low values[i] := by
  induction values generalizing i with
  | nil => cases hi
  | cons v values ih =>
    obtain ⟨hv, hrest⟩ := h
    cases i with
    | zero =>
      rw [List.getElem_cons_zero, ← hv, low_wordAt]
      rfl
    | succ i =>
      rw [List.getElem_cons_succ, ← ih hrest (Nat.lt_of_succ_lt_succ hi), List.length_cons]
      congr 4
      omega

theorem Passed.bytesDown (h : Passed mem ix values) :
    bytesDown mem (ix + UInt16.ofNat (2 * (values.length - 1))) values.length = values.map low := by
  induction values with
  | nil => rfl
  | cons v values ih =>
    obtain ⟨hv, hrest⟩ := h
    have hrest' := ih hrest
    rw [List.length_cons, Nat.add_sub_cancel, Fiforsx.bytesDown, List.map_cons, ← hv, low_wordAt]
    cases values with
    | nil => rfl
    | cons v' values =>
      rw [← hrest', List.length_cons, Nat.add_sub_cancel, Nat.mul_succ, UInt16.ofNat_add,
        ← UInt16.add_assoc, show UInt16.ofNat 2 = 2 from rfl, UInt16.add_sub_cancel]

/-- `PLOT` sends the bytes of command 25. -/
theorem plotSent_eq {m : State} (h : Passed m.mem m.ix params) (hk : params.length ≤ 254) :
    plotSent m (UInt8.ofNat params.length) = vduBytes 25 params := by
  by_cases h3 : params.length = 3
  · obtain ⟨k, x, y, rfl⟩ := List.length_eq_three.1 h3
    obtain ⟨rfl, rfl, rfl, -⟩ := h
    simp [plotSent, vduBytes, UInt16.add_assoc]
  · have hne : UInt8.ofNat params.length ≠ 3 := fun h => h3 (ofNat_inj hk (by decide) h)
    unfold vduBytes
    rw [plotSent, if_neg hne, if_pos rfl]
    split
    · exact absurd rfl h3
    · rfl

/-- `ORIGIN` sends those of command 29. -/
theorem originSent_eq {m : State} (h : Passed m.mem m.ix params) (hk : params.length ≤ 254) :
    originSent m (UInt8.ofNat params.length) = vduBytes 29 params := by
  by_cases h2 : params.length = 2
  · obtain ⟨x, y, rfl⟩ := List.length_eq_two.1 h2
    obtain ⟨rfl, rfl, -⟩ := h
    simp [originSent, vduBytes, UInt16.add_assoc]
  · have hne : UInt8.ofNat params.length ≠ 2 := fun h => h2 (ofNat_inj hk (by decide) h)
    unfold vduBytes
    rw [originSent, if_neg hne, if_neg (by decide), if_pos rfl]
    split
    · exact absurd rfl h2
    · rfl

/-- Where the number is looked for, of `k` parameters. -/
theorem pointer_eq {m : State} {k : ℕ} (ha : m.a = UInt8.ofNat (k + 1)) (hk : k ≤ 254) :
    pointer m = m.ix + UInt16.ofNat (2 * k % 256) := by
  have hdouble : ((m.a - 1) <<< 1).toNat = 2 * k % 256 := by
    rw [ha, UInt8.ofNat_add, show UInt8.ofNat 1 = 1 from rfl, UInt8.add_sub_cancel,
      UInt8.toNat_shiftLeft, UInt8.toNat_ofNat', Nat.mod_eq_of_lt (by omega : k < 2 ^ 8)]
    rw [show (1 : UInt8).toNat % 8 = 1 from rfl, Nat.shiftLeft_eq]
    omega
  rw [pointer, ← UInt16.toNat_inj, UInt16.toNat_add, UInt16.toNat_add, toNat_word, hdouble,
    UInt16.toNat_ofNat', UInt8.toNat_zero]
  omega

/-- Up to 127 parameters, it is the number that is found there. -/
theorem Passed.number {m : State} (h : Passed m.mem m.ix (word 0 n :: params))
    (ha : m.a = UInt8.ofNat (params.length + 1)) (hk : params.length ≤ 127) :
    m.mem (pointer m) = n := by
  have hget := h.low_get (i := 0) (Nat.succ_pos _)
  rw [List.getElem_cons_zero, low_word] at hget
  rw [pointer_eq ha (by omega), Nat.mod_eq_of_lt (by omega), ← hget]
  rfl

/-- From 128 parameters on, it is the 128th of them. -/
theorem Passed.number_wraps {m : State} (h : Passed m.mem m.ix (word 0 n :: params))
    (ha : m.a = UInt8.ofNat (params.length + 1)) (hk : params.length ≤ 254)
    (h127 : 127 < params.length) : m.mem (pointer m) = low params[127] := by
  have hget := h.low_get (i := 128) (Nat.succ_lt_succ h127)
  rw [List.getElem_cons_succ] at hget
  have hplace : 2 * params.length % 256 = 2 * ((word 0 n :: params).length - 1 - 128) := by
    rw [List.length_cons]
    omega
  rw [pointer_eq ha hk, hplace, hget]

/-- No command has more than nine parameters. -/
theorem vduBytes_long (hn : n.toNat < 32) (hlong : 9 < params.length) : vduBytes n params = [] := by
  have hle := vduParm_le hn
  unfold vduBytes
  split
  · split
    · exact absurd hlong (Nat.not_lt.2 (Nat.le_add_left 3 6))
    · rfl
  split
  · split
    · exact absurd hlong (Nat.not_lt.2 (Nat.le_add_left 2 7))
    · rfl
  · exact if_neg (by omega)

/-- What is sent for the right number. -/
theorem vduSent_of_number {m : State} (h : Passed m.mem m.ix (word 0 n :: params)) (hn : n.toNat < 32)
    (ha : m.a = UInt8.ofNat (params.length + 1)) (hk : params.length ≤ 127) :
    vduSent m = vduBytes n params := by
  have hpred : m.a - 1 = UInt8.ofNat params.length := by
    rw [ha, UInt8.ofNat_add, show UInt8.ofNat 1 = 1 from rfl, UInt8.add_sub_cancel]
  have ha' : m.a.toNat = params.length + 1 := by
    rw [ha, UInt8.toNat_ofNat', Nat.mod_eq_of_lt (by omega)]
  have hdown := h.bytesDown
  rw [List.length_cons, Nat.add_sub_cancel, List.map_cons, low_word] at hdown
  rw [vduSent, h.number ha hk, hpred, pointer_eq ha (by omega), Nat.mod_eq_of_lt (by omega), ha',
    plotSent_eq h.2 (by omega), originSent_eq h.2 (by omega), hdown]
  have h127 : n ≠ 127 := by
    rintro rfl
    exact absurd hn (by decide)
  by_cases h25 : n = 25
  · rw [h25]
    rfl
  by_cases h29 : n = 29
  · rw [h29]
    rfl
  simp only [vduBytes, h25, h29, h127, hn, if_false, true_and, Nat.add_right_cancel_iff]

/-- What is sent for the byte that is taken for the number. -/
theorem vduSent_of_wrapped {m : State} (h : Passed m.mem m.ix (word 0 n :: params))
    (ha : m.a = UInt8.ofNat (params.length + 1)) (hk : params.length ≤ 254)
    (h127 : 127 < params.length) : vduSent m = if low params[127] = 127 then [127] else [] := by
  have hpred : m.a - 1 = UInt8.ofNat params.length := by
    rw [ha, UInt8.ofNat_add, show UInt8.ofNat 1 = 1 from rfl, UInt8.add_sub_cancel]
  have ha' : m.a.toNat = params.length + 1 := by
    rw [ha, UInt8.toNat_ofNat', Nat.mod_eq_of_lt (by omega)]
  rw [vduSent, h.number_wraps ha hk h127, hpred, ha', plotSent_eq h.2 hk, originSent_eq h.2 hk,
    vduBytes_long (by decide) (by omega), vduBytes_long (by decide) (by omega)]
  by_cases h32 : (low params[127]).toNat < 32
  · have hle := vduParm_le h32
    have hmany : params.length ≠ vduParm (low params[127]) := by omega
    have hne : low params[127] ≠ 127 := by
      intro heq
      rw [heq] at h32
      exact absurd h32 (by decide)
    simp [hmany, hne]
  · simp only [h32, false_and, if_false]
    split
    · next h25 => simp [h25]
    split
    · next h29 => simp [h29]
    · rfl

end

/-! ## Does it send what it should? -/

section
variable {n : UInt8} {params : List UInt16}

/-- The three commands, called with these parameters, send the bytes that they
    should: `VDU` for the number `n`, the other two for theirs. -/
structure SendsVdu (outside : State → Option State) (m : State) (address : UInt16)
    (stack : List UInt16) (n : UInt8) (params : List UInt16) : Prop where
  vdu : Sends outside vdu { m with a := UInt8.ofNat (params.length + 1) } address stack
    (vduBytes n params)
  plot : Sends outside plot { m with a := UInt8.ofNat params.length } address stack
    (vduBytes 25 params)
  origin : Sends outside origin { m with a := UInt8.ofNat params.length } address stack
    (vduBytes 29 params)

theorem vdu_sends (hf : Firmware outside) (hl : Loaded m.mem) (hs : m.stack = address :: stack)
    (hcaller : Caller address) (ha : m.a ≠ 0) : Sends outside vdu m address stack (vduSent m) :=
  .of_returns hf hcaller fun _ hready => vdu_returns hf hl hready ha hs

theorem plot_sends (hf : Firmware outside) (hl : Loaded m.mem) (hs : m.stack = address :: stack)
    (hcaller : Caller address) : Sends outside plot m address stack (plotSent m m.a) :=
  .of_returns hf hcaller fun _ hready => plot_returns hf hl hready hs

theorem origin_sends (hf : Firmware outside) (hl : Loaded m.mem) (hs : m.stack = address :: stack)
    (hcaller : Caller address) : Sends outside origin m address stack (originSent m m.a) :=
  .of_returns hf hcaller fun _ hready => origin_returns hf hl hready hs

theorem ofNat_succ_ne_zero {k : ℕ} (hk : k ≤ 254) : UInt8.ofNat (k + 1) ≠ 0 := by
  intro h0
  have hto := congrArg UInt8.toNat h0
  rw [UInt8.toNat_ofNat', Nat.mod_eq_of_lt (by omega)] at hto
  cases hto

/-- It is decided by the bytes of `VDU`. -/
theorem sendsVdu_iff_sent (hf : Firmware outside) (hl : Loaded m.mem)
    (hs : m.stack = address :: stack) (hcaller : Caller address)
    (h : Passed m.mem m.ix (word 0 n :: params)) (hk : params.length ≤ 254) :
    SendsVdu outside m address stack n params ↔
      vduSent { m with a := UInt8.ofNat (params.length + 1) } = vduBytes n params := by
  have hvdu : Sends outside vdu { m with a := UInt8.ofNat (params.length + 1) } address stack _ :=
    vdu_sends hf hl hs hcaller (ofNat_succ_ne_zero hk)
  have hplot : Sends outside plot { m with a := UInt8.ofNat params.length } address stack _ :=
    plot_sends hf hl hs hcaller
  have horigin : Sends outside origin { m with a := UInt8.ofNat params.length } address stack _ :=
    origin_sends hf hl hs hcaller
  constructor
  · intro hsends
    exact hvdu.unique hsends.vdu
  · intro heq
    rw [heq] at hvdu
    rw [plotSent_eq (m := { m with a := UInt8.ofNat params.length }) h.2 hk] at hplot
    rw [originSent_eq (m := { m with a := UInt8.ofNat params.length }) h.2 hk] at horigin
    exact ⟨hvdu, hplot, horigin⟩

/-- **When the three commands send what they should**: unless there are 128
    parameters, the 128th with 127 as its lower byte. -/
theorem vdu_exact_iff (hf : Firmware outside) (hl : Loaded m.mem) (hs : m.stack = address :: stack)
    (hcaller : Caller address) (hn : n.toNat ≤ 31) (hk : params.length ≤ 254)
    (hpassed : Passed m.mem m.ix (word 0 n :: params)) :
    SendsVdu outside m address stack n params ↔ ∀ v, params[127]? = some v → low v ≠ 127 := by
  rw [sendsVdu_iff_sent hf hl hs hcaller hpassed hk]
  rcases Nat.lt_or_ge 127 params.length with h127 | h127
  · rw [vduSent_of_wrapped (m := { m with a := UInt8.ofNat (params.length + 1) }) hpassed rfl hk h127,
      vduBytes_long (Nat.lt_succ_of_le hn) (by omega), List.getElem?_eq_getElem h127]
    simp
  · rw [vduSent_of_number (m := { m with a := UInt8.ofNat (params.length + 1) }) hpassed
      (Nat.lt_succ_of_le hn) rfl h127, List.getElem?_eq_none h127]
    simp

end

/-! ## One call -/

/-- The library, and from `0x4000` on the words 127 and 1, and zeros. -/
def vduMemory (w : UInt16) : UInt8 :=
  if w.toNat < 0x4000 then (byteAt w.toNat).getD 0
  else if w = 0x4000 then 127
  else if w = 0x4002 then 1
  else 0

/-- A call with the parameters that end at `0x4000`. -/
def vduCall : State := callAt 0 0x4000 vduMemory

theorem vduMemory_loaded : Loaded vduMemory := by
  intro i v hv
  have hi : i < 0x4000 := by
    by_contra hge
    have hlength : program.length ≤ 0x4000 := by decide +kernel
    rw [byteAt, List.getElem?_eq_none (hlength.trans (Nat.le_of_not_lt hge))] at hv
    cases hv
  have hto : (UInt16.ofNat i).toNat = i := Nat.mod_eq_of_lt (by omega)
  rw [vduMemory, hto, if_pos hi, hv]
  rfl

theorem vduMemory_zero {w : UInt16} (h : 0x4003 ≤ w.toNat) : vduMemory w = 0 := by
  have h0 : w ≠ 0x4000 := by rintro rfl; exact absurd h (by decide)
  have h2 : w ≠ 0x4002 := by rintro rfl; exact absurd h (by decide)
  rw [vduMemory, if_neg (by omega), if_neg h0, if_neg h2]

theorem vduMemory_word {i : ℕ} (hi : 1 < i) (hle : i ≤ 1000) :
    wordAt vduMemory (0x4000 + UInt16.ofNat (2 * i)) = 0 := by
  have hto : (0x4000 + UInt16.ofNat (2 * i)).toNat = 0x4000 + 2 * i := by
    rw [UInt16.toNat_add, UInt16.toNat_ofNat', show (0x4000 : UInt16).toNat = 0x4000 from rfl]
    omega
  have hto' : (0x4000 + UInt16.ofNat (2 * i) + 1).toNat = 0x4000 + 2 * i + 1 := by
    rw [UInt16.toNat_add, hto, show (1 : UInt16).toNat = 1 from rfl]
    omega
  rw [wordAt, vduMemory_zero (by omega), vduMemory_zero (by omega)]
  exact word_eq rfl

/-- The last words are 1 and 127, those before them 0. -/
theorem vduCall_passed {j : ℕ} (hj : j ≤ 900) :
    Passed vduMemory 0x4000 (List.replicate j 0 ++ [1, 127]) := by
  induction j with
  | zero => exact ⟨word_eq rfl, word_eq rfl, trivial⟩
  | succ j ih =>
    rw [List.replicate_succ, List.cons_append, Passed, List.length_append, List.length_replicate]
    exact ⟨vduMemory_word (by simp) (by simp; omega), ih (by omega)⟩

/-- `|VDU,1,127` -/
theorem vdu_exact_iff_127 : SendsVdu silent vduCall 0x8000 [] 1 [127] := by
  have hword : word 0 1 = 1 := word_eq rfl
  have hpassed : Passed vduMemory 0x4000 (word 0 1 :: [127]) := by
    rw [hword]
    exact vduCall_passed (Nat.zero_le _)
  exact (vdu_exact_iff silent_firmware vduMemory_loaded rfl ⟨rfl, by decide⟩ (by decide) (by decide)
    hpassed).2 (by simp)

/-- `|VDU,0` with 128 parameters, the last of them 127, sends 127. -/
theorem vdu_sends_wrapped_code :
    ¬ SendsVdu silent vduCall 0x8000 [] 0 (List.replicate 126 0 ++ [1, 127]) := by
  have hword : word 0 0 = 0 := word_eq rfl
  have hpassed : Passed vduMemory 0x4000 (word 0 0 :: (List.replicate 126 0 ++ [1, 127])) := by
    rw [hword, ← List.cons_append, ← List.replicate_succ]
    exact vduCall_passed (by decide)
  have hlast : (List.replicate 126 (0 : UInt16) ++ [1, 127])[127]? = some 127 := by
    rw [List.getElem?_append_right (by simp), List.length_replicate]
    rfl
  obtain ⟨h127, hlast⟩ := List.getElem?_eq_some_iff.1 hlast
  have hbytes : vduBytes 0 (List.replicate 126 0 ++ [1, 127]) = [] :=
    vduBytes_long (by decide) (by simp)
  rw [sendsVdu_iff_sent (m := vduCall) silent_firmware vduMemory_loaded rfl ⟨rfl, by decide⟩ hpassed
    (by simp), vduSent_of_wrapped (m := { vduCall with a := UInt8.ofNat _ }) hpassed rfl (by simp) h127,
    hbytes, hlast, if_pos (low_eq rfl)]
  exact List.cons_ne_nil _ _

end

end CpcLink.Fiforsx
