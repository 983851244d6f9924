/-
  The commands for BASIC: what their routines have in common.

  A routine that sends looks at the FIFO until it takes a byte.  A wrong call ends
  with a text, which the firmware prints; of the firmware there is only what is
  said of that one routine (`Firmware`).
-/
import CpcLink.Fiforsx
import CpcLink.Lib.Z80Outside

namespace CpcLink.Fiforsx

open Z80

/-- The FIFO takes a byte at the `k`-th look at it. -/
def Ready (bus : Bus) (k : ℕ) : Prop := bus k fifoStatus &&& fifoDir ≠ 0

/-- It does so again and again. -/
def ReadyAgain (bus : Bus) : Prop := ∀ k, ∃ j ≥ k, Ready bus j

/-- What was put on the ports of the FIFO: bytes for it, and resets. -/
def toFifo (m : State) : List (UInt16 × UInt8) := putOn [fifoStatus, fifoData] m

/-- The bytes, as they are put on the data port. -/
def onFifo (data : List UInt8) : List (UInt16 × UInt8) := data.map fun b => (fifoData, b)

/-- The bytes that were taken from the FIFO. -/
def fromFifo (m : State) : List UInt8 := readOn fifoData m

/-- The byte of data at a place in the listing. -/
def byteAt (i : ℕ) : Option UInt8 :=
  match program[i]? with
  | some (.db v) => some v
  | _ => none

/-- The data of the listing is in the memory. -/
def Loaded (mem : UInt16 → UInt8) : Prop :=
  ∀ (i : ℕ) (v : UInt8), byteAt i = some v → mem (UInt16.ofNat i) = v

/-- The firmware prints a character at `TXT_OUTPUT`: it returns, with `hl` as it
    was, and leaves the library and the FIFO alone. -/
structure Firmware (outside : State → Option State) : Prop where
  only : ∀ m, m.pc ≠ txtOutput → outside m = none
  quiet : ∀ m m', outside m = some m' →
    m.reads ≤ m'.reads ∧ toFifo m' = toFifo m ∧ fromFifo m' = fromFifo m
  returns : ∀ m address stack, m.pc = txtOutput → m.stack = address :: stack →
    ∃ m', outside m = some m' ∧ m'.pc = address ∧ m'.stack = stack ∧
      m'.h = m.h ∧ m'.l = m.l ∧ (Loaded m.mem → Loaded m'.mem)

/-- An address outside of the library and of the routine that prints. -/
def Caller (address : UInt16) : Prop := program[address.toNat]? = none ∧ address ≠ txtOutput

/-- A command that sends exactly these bytes.  Whatever the flags of the FIFO are
    at any time, it never has more than a first part of them; and if the FIFO takes
    bytes again and again, it gets all of them, and the command returns. -/
structure Sends (outside : State → Option State) (entry : UInt16) (m : State)
    (address : UInt16) (stack : List UInt16) (data : List UInt8) : Prop where
  part : ∀ bus m', RunsOutside program outside bus (m.goto entry) m' →
    toFifo m' <+: toFifo m ++ onFifo data
  whole : ∀ bus, ReadyAgain bus → ∃ m', RunsOutside program outside bus (m.goto entry) m' ∧
    m'.pc = address ∧ m'.stack = stack ∧ toFifo m' = toFifo m ++ onFifo data

section
variable {bus : Bus} {outside : State → Option State} {m m' : State} {entry address pc back : UInt16}
  {stack : List UInt16} {data : List UInt8}

theorem high_status : high 0xFD81 = 0xFD := high_eq rfl
theorem low_status : low 0xFD81 = 0x81 := low_eq rfl
theorem word_status : word 0xFD 0x81 = fifoStatus := word_eq rfl
theorem word_data : word 0xFD 0x80 = fifoData := word_eq rfl

theorem toFifo_append (h : m'.outs = m.outs ++ onFifo data) :
    toFifo m' = toFifo m ++ onFifo data := by
  have hall : (onFifo data).filter (fun o => o.1 ∈ [fifoStatus, fifoData]) = onFifo data := by
    rw [List.filter_eq_self]
    intro o ho
    obtain ⟨b, -, rfl⟩ := List.mem_map.1 ho
    exact decide_eq_true (by simp)
  rw [toFifo, putOn, h, List.filter_append, hall, toFifo, putOn]

/-- Any beginning of a schedule goes on with any flags. -/
theorem flags_after (bus : Bus) (n : ℕ) (v : UInt8) :
    ∃ bus' : Bus, (∀ k ≥ n, bus' k fifoStatus = v) ∧ ∀ k < n, bus' k = bus k :=
  ⟨fun k => if k < n then bus k else fun _ => v,
    fun _ hk => congrFun (if_neg (Nat.not_lt.2 hk)) fifoStatus, fun _ hk => if_pos hk⟩

theorem readyAgain_after (bus : Bus) (n : ℕ) : ∃ bus', ReadyAgain bus' ∧ ∀ k < n, bus' k = bus k := by
  obtain ⟨bus', hflags, hagree⟩ := flags_after bus n 2
  refine ⟨bus', fun k => ⟨max k n, Nat.le_max_left _ _, ?_⟩, hagree⟩
  rw [Ready, hflags _ (Nat.le_max_right _ _)]
  decide

theorem driven_toFifo (hf : Firmware outside) :
    Driven (stepOutside program outside) State.reads toFifo :=
  driven_outside program putOn_onward fun m m' hm => ⟨(hf.quiet m m' hm).1, (hf.quiet m m' hm).2.1⟩

theorem driven_fromFifo (hf : Firmware outside) :
    Driven (stepOutside program outside) State.reads fromFifo :=
  driven_outside program readOn_onward fun m m' hm => ⟨(hf.quiet m m' hm).1, (hf.quiet m m' hm).2.2⟩

/-- A command that has returned goes no further. -/
theorem returned_halts (hf : Firmware outside) (hcaller : Caller address) (hpc : m.pc = address) :
    stepOutside program outside bus m = none := by
  have hnone : program[m.pc.toNat]? = none := by rw [hpc]; exact hcaller.1
  rw [stepOutside, hnone]
  exact hf.only _ (by rw [hpc]; exact hcaller.2)

/-! ## What is sent -/

/-- A routine runs to its return and has sent the bytes. -/
def Returns (outside : State → Option State) (bus : Bus) (start m : State) (address : UInt16)
    (stack : List UInt16) (data : List UInt8) : Prop :=
  ∃ m', RunsOutside program outside bus start (m'.goto address) ∧ m'.stack = stack ∧
    toFifo m' = toFifo m ++ onFifo data

/-- What was sent already comes first. -/
theorem Returns.after {start m₁ : State} {sent data : List UInt8}
    (hsent : toFifo m₁ = toFifo m ++ onFifo sent)
    (h : Returns outside bus start m₁ address stack data) :
    Returns outside bus start m address stack (sent ++ data) := by
  obtain ⟨m', hruns, hstack, hdata⟩ := h
  refine ⟨m', hruns, hstack, ?_⟩
  rw [hdata, hsent, onFifo, onFifo, onFifo, List.map_append, List.append_assoc]

theorem Returns.steps {start start' : State} {data : List UInt8} (hs : Steps program bus start start')
    (h : Returns outside bus start' m address stack data) :
    Returns outside bus start m address stack data := by
  obtain ⟨m', hruns, hend⟩ := h
  exact ⟨m', .steps hs hruns, hend⟩

theorem Returns.ret (hi : program[pc.toNat]? = some .ret) (hs : m.stack = address :: stack) :
    Returns outside bus (m.goto pc) m address stack [] :=
  ⟨{ m with stack := stack }, .of_steps (.ret hi hs .refl), rfl, (List.append_nil _).symm⟩

/-- What is sent whenever the FIFO is ready is all that is ever sent. -/
theorem Sends.of_returns (hf : Firmware outside) (hcaller : Caller address)
    (h : ∀ bus, ReadyAgain bus → Returns outside bus (m.goto entry) m address stack data) :
    Sends outside entry m address stack data := by
  constructor
  · intro bus m' hruns
    refine (driven_toFifo hf).trace_part readyAgain_after (fun bus hready => ?_) hruns
    obtain ⟨m₁, hruns₁, -, hsent⟩ := h bus hready
    exact ⟨_, hruns₁, returned_halts hf hcaller rfl, hsent⟩
  · intro bus hready
    obtain ⟨m₁, hruns₁, hstack, hsent⟩ := h bus hready
    exact ⟨_, hruns₁, rfl, hstack, hsent⟩

/-- A command that has returned has sent all of them, whatever the flags were. -/
theorem Sends.returned (h : Sends outside entry m address stack data) (hf : Firmware outside)
    (hcaller : Caller address) (hruns : RunsOutside program outside bus (m.goto entry) m')
    (hpc : m'.pc = address) : toFifo m' = toFifo m ++ onFifo data := by
  refine (driven_toFifo hf).end_of_fair (P := fun m' => toFifo m' = toFifo m ++ onFifo data)
    readyAgain_after (fun bus hready => ?_) hruns fun _ => returned_halts hf hcaller hpc
  obtain ⟨m₁, hruns₁, hpc₁, -, hsent⟩ := h.whole bus hready
  exact ⟨m₁, hruns₁, returned_halts hf hcaller hpc₁, hsent⟩

theorem onFifo_injective : Function.Injective fun b : UInt8 => (fifoData, b) :=
  fun _ _ h => (Prod.mk.inj h).2

theorem Sends.part_of {data' : List UInt8} (h : Sends outside entry m address stack data)
    (h' : Sends outside entry m address stack data') : data <+: data' := by
  have hready : ReadyAgain fun _ _ => 2 := fun k =>
    ⟨k, Nat.le_refl k, (by decide : (2 : UInt8) &&& fifoDir ≠ 0)⟩
  obtain ⟨m₁, hruns, -, -, hsent⟩ := h.whole _ hready
  have hpart := h'.part _ _ hruns
  rw [hsent, List.prefix_append_right_inj] at hpart
  exact (List.prefix_map_iff_of_injective onFifo_injective).1 hpart

theorem Sends.unique {data' : List UInt8} (h : Sends outside entry m address stack data)
    (h' : Sends outside entry m address stack data') : data = data' :=
  (h.part_of h').eq_of_length_le (h'.part_of h).length_le

/-! ## One byte -/

/-- A look at the FIFO. -/
theorem look_effects (hb : m.b = 0xFD) (hc : m.c = 0x81) :
    effects bus m [.inPort .a, .and 2] = some { m with
      a := bus m.reads fifoStatus &&& 2, z := bus m.reads fifoStatus &&& 2 == 0, cy := false
      reads := m.reads + 1, ins := m.ins ++ [(fifoStatus, bus m.reads fifoStatus)] } := by
  simp [effects, effect, hb, hc, word_status]

/-- It is repeated until the FIFO takes a byte. -/
theorem look_runs (hcode : CodeAt program pc [.inPort .a, .and 2, .jrZ back])
    (hback : ∀ m : State, m.b = 0xFD → m.c = 0x81 → Steps program bus (m.goto back) (m.goto pc))
    (hready : ReadyAgain bus) (hb : m.b = 0xFD) (hc : m.c = 0x81) : ∃ a k l,
    Steps program bus (m.goto pc)
      ({ m with a := a, z := false, cy := false, reads := k, ins := l }.goto (pc + 1 + 1 + 1)) := by
  obtain ⟨hlook, hjump, -⟩ : CodeAt program pc [.inPort .a, .and 2] ∧
    CodeAt program (pc + UInt16.ofNat 2) [.jrZ back] := codeAt_append.1 hcode
  have hround : ∀ m', (∃ a z cy k l, m' =
        { m with a := a, z := z, cy := cy, reads := k, ins := l }.goto pc) →
      ¬ Ready bus m'.reads → ∃ m'', Steps program bus m' m'' ∧ (∃ a z cy k l, m'' =
        { m with a := a, z := z, cy := cy, reads := k, ins := l }.goto pc) ∧
      m''.reads = m'.reads + 1 := by
    rintro _ ⟨a, z, cy, k, l, rfl⟩ hr
    have h0 : bus k fifoStatus &&& 2 = 0 := by_contra hr
    refine ⟨_, .block hlook (look_effects hb hc) (.jrZ_taken hjump ?_ (hback _ hb hc)),
      ⟨_, _, _, _, _, rfl⟩, rfl⟩
    exact beq_iff_eq.2 h0
  obtain ⟨m₁, hsteps, ⟨a, z, cy, k, l, rfl⟩, hr⟩ :=
    Steps.wait (hready _) hround ⟨m.a, m.z, m.cy, m.reads, m.ins, rfl⟩
  have hne : (bus k fifoStatus &&& 2 == 0) = false := beq_eq_false_iff_ne.2 hr
  have hpast : pc + UInt16.ofNat [Instr.inPort .a, .and 2].length + 1 = pc + 1 + 1 + 1 := by
    rw [UInt16.add_assoc pc 1 1]
    rfl
  refine ⟨bus k fifoStatus &&& 2, k + 1, l ++ [(fifoStatus, bus k fifoStatus)],
    hsteps.trans (.block hlook (look_effects hb hc) (.jrZ_next hjump hne (.of_eq ?_)))⟩
  dsimp only
  rw [hpast, hne]

/-- A byte was put on the data port; `d`, `e`, `hl`, `ix` and the memory are kept. -/
def put (m : State) (a : UInt8) (k : ℕ) (l : List (UInt16 × UInt8)) (v : UInt8) : State := { m with
  a := a, b := 0xFD, c := 0x80, z := false, cy := false, reads := k, ins := l
  outs := m.outs ++ onFifo [v] }

theorem toFifo_put (m : State) (a : UInt8) (k : ℕ) (l : List (UInt16 × UInt8)) (v : UInt8) :
    toFifo (put m a k l v) = toFifo m ++ onFifo [v] := toFifo_append rfl

/-- `_FIFO_PUT_BYTE` -/
theorem putByte_runs (hready : ReadyAgain bus) (hs : m.stack = address :: stack) : ∃ a k l,
    Steps program bus (m.goto fifoPutByte)
      ({ put m a k l m.l with stack := stack }.goto address) := by
  obtain ⟨a, k, l, hlook⟩ := @look_runs bus { m with b := 0xFD, c := 0x81 } fpbLoop fpbLoop
    ⟨rfl, rfl, rfl, trivial⟩ (fun _ _ _ => .refl) hready rfl rfl
  refine ⟨a, k, l, .plain rfl rfl (.trans (.of_eq ?_) (hlook.trans (.plain rfl rfl (.plain rfl rfl
    (.ret rfl hs (.of_eq ?_))))))⟩
  · simp [high_status, low_status, fifoStatus]
    rfl
  · simp [put, onFifo, word_data]

/-- A byte in `l` is sent. -/
theorem call_putByte (hready : ReadyAgain bus) (m : State) (pc : UInt16)
    (hi : program[pc.toNat]? = some (.call fifoPutByte)) : ∃ a k l,
    Steps program bus (m.goto pc) ((put m a k l m.l).goto (pc + 1)) := by
  obtain ⟨a, k, l, hsteps⟩ :=
    putByte_runs (m := { m with stack := (pc + 1) :: m.stack }) hready rfl
  exact ⟨a, k, l, .call hi hsteps⟩

/-! ## Texts -/

/-- At a place in the listing there are `k` bytes that are no NUL, and then a NUL. -/
def TextAt (p k : ℕ) : Prop :=
  (∀ i < k, (byteAt (p + i)).isSome ∧ byteAt (p + i) ≠ some 0) ∧ byteAt (p + k) = some 0

instance (p k : ℕ) : Decidable (TextAt p k) := inferInstanceAs (Decidable (_ ∧ _))

theorem TextAt.tail {p k : ℕ} (h : TextAt p (k + 1)) : TextAt (p + 1) k := by
  constructor
  · intro i hi
    rw [Nat.add_assoc, Nat.add_comm 1 i]
    exact h.1 (i + 1) (Nat.succ_lt_succ hi)
  · rw [Nat.add_assoc, Nat.add_comm 1 k]
    exact h.2

theorem next_effects (m : State) : effects bus m [.ldHl .a, .or .a] = some { m with
    a := m.mem (m.pair .hl), z := m.mem (m.pair .hl) == 0, cy := false } := by
  simp [effects, effect]

theorem incHl_effect (m : State) : effect bus m (.incPair .hl) = some { m with
    h := high (m.pair .hl + 1), l := low (m.pair .hl + 1) } := rfl

/-- The loop of `SPRINT`, whose text `hl` points to. -/
theorem spLoop_runs (bus : Bus) (hf : Firmware outside) {p k : ℕ} (htext : TextAt p k)
    (hl : Loaded m.mem) (hhl : m.pair .hl = UInt16.ofNat p) : ∃ m',
    RunsOutside program outside bus (m.goto spLoop) (m'.goto (UInt16.ofNat (p + k + 1))) ∧
      m'.stack = m.stack ∧ toFifo m' = toFifo m := by
  have hcode : CodeAt program spLoop [.ldHl .a, .or .a] := ⟨rfl, rfl, trivial⟩
  induction k generalizing m p with
  | zero =>
    have h0 : m.mem (m.pair .hl) = 0 := by rw [hhl]; exact hl p 0 htext.2
    have hend : word (high (m.pair .hl + 1)) (low (m.pair .hl + 1)) = UInt16.ofNat (p + 0 + 1) := by
      rw [word_high_low, hhl, Nat.add_zero, UInt16.ofNat_add]
      rfl
    exact ⟨_, .of_steps (.block hcode (next_effects m) (.jrZ_taken rfl (beq_iff_eq.2 h0)
      (.plain rfl (incHl_effect _) (.jpHl rfl (.of_eq (congrArg (State.goto _) hend)))))), rfl, rfl⟩
  | succ k ih =>
    obtain ⟨hsome, hne⟩ := htext.1 0 (Nat.succ_pos k)
    obtain ⟨v, hv⟩ := Option.isSome_iff_exists.1 hsome
    have hmem : m.mem (m.pair .hl) = v := by rw [hhl]; exact hl p v hv
    have hz : (m.mem (m.pair .hl) == 0) = false := 
      beq_eq_false_iff_ne.2 fun h0 => hne (by rw [hv, ← hmem, h0])
    -- the firmware prints the character
    obtain ⟨m₁, houtside, hpc, hstack, hh, hl', hloaded⟩ := hf.returns
      ({ m with a := m.mem (m.pair .hl), z := m.mem (m.pair .hl) == 0, cy := false
                stack := (spLoop + 4) :: m.stack }.goto txtOutput) _ _ rfl rfl
    obtain ⟨-, hquiet, -⟩ := hf.quiet _ _ houtside
    have hpair : m₁.pair .hl = m.pair .hl := by
      simp only [State.pair, hh, hl']
      rfl
    have hnext : word (high (m₁.pair .hl + 1)) (low (m₁.pair .hl + 1)) = UInt16.ofNat (p + 1) := by
      rw [word_high_low, hpair, hhl, UInt16.ofNat_add]
      rfl
    obtain ⟨m', hruns, hstack', hfifo⟩ := ih (m := { m₁ with
      h := high (m₁.pair .hl + 1), l := low (m₁.pair .hl + 1) }) htext.tail (hloaded hl) hnext
    rw [Nat.add_right_comm p 1 k] at hruns
    refine ⟨m', .steps (.block hcode (next_effects m) (.jrZ_next rfl hz (.call rfl .refl)))
      (.leave rfl houtside ?_), hstack'.trans hstack, hfifo.trans hquiet⟩
    rw [← State.goto_self hpc]
    exact .steps (.plain rfl (incHl_effect m₁) (.jr rfl .refl)) hruns

/-- `SPRINT` prints the text behind its call and goes on behind the text. -/
theorem sprint_runs (bus : Bus) (hf : Firmware outside) {p k : ℕ} (htext : TextAt p k)
    (hl : Loaded m.mem) (hs : m.stack = UInt16.ofNat p :: stack) : ∃ m',
    RunsOutside program outside bus (m.goto sprint) (m'.goto (UInt16.ofNat (p + k + 1))) ∧
      m'.stack = stack ∧ toFifo m' = toFifo m := by
  have heff : effect bus m (.pop .hl) = some { m with
      h := high (UInt16.ofNat p), l := low (UInt16.ofNat p), stack := stack } := by
    rw [effect, hs]
    rfl
  obtain ⟨m', hruns, hstack, hfifo⟩ := spLoop_runs (m := { m with
    h := high (UInt16.ofNat p), l := low (UInt16.ofNat p), stack := stack }) bus hf htext hl
    (word_high_low _)
  exact ⟨m', .steps (.plain rfl heff .refl) hruns, hstack, hfifo⟩

theorem pmsg_text : TextAt 38 21 := by decide

/-- A wrong call prints a text and returns. -/
theorem perror_runs (bus : Bus) (hf : Firmware outside) (hl : Loaded m.mem) (hs : m.stack = address :: stack) :
    ∃ m', RunsOutside program outside bus (m.goto perror) (m'.goto address) ∧
      m'.stack = stack ∧ toFifo m' = toFifo m := by
  obtain ⟨m₁, hruns, hstack, hfifo⟩ := sprint_runs (m := { m with
    stack := (perror + 1) :: m.stack }) bus hf pmsg_text hl rfl
  exact ⟨{ m₁ with stack := stack }, .steps (.call rfl .refl) (hruns.trans (.of_steps
    (.ret rfl (hstack.trans hs) .refl))), rfl, hfifo⟩

theorem Returns.perror (hf : Firmware outside) (hl : Loaded m.mem) (hs : m.stack = address :: stack) :
    Returns outside bus (m.goto perror) m address stack [] := by
  obtain ⟨m', hruns, hstack, hfifo⟩ := perror_runs bus hf hl hs
  exact ⟨m', hruns, hstack, hfifo.trans (List.append_nil _).symm⟩

end

/-! ## Calls -/

/-- A firmware that prints nothing, but returns. -/
def silent (m : State) : Option State :=
  if m.pc = txtOutput then
    match m.stack with
    | [] => none
    | address :: stack => some { m with pc := address, stack := stack }
  else none

theorem silent_firmware : Firmware silent := by
  constructor
  · intro m hpc
    exact if_neg hpc
  · intro m m' hm
    unfold silent at hm
    split at hm
    · split at hm
      · cases hm
      · cases hm
        exact ⟨Nat.le_refl _, rfl, rfl⟩
    · cases hm
  · intro m address stack hpc hs
    refine ⟨{ m with pc := address, stack := stack }, ?_, rfl, rfl, rfl, rfl, id⟩
    rw [silent, if_pos hpc, hs]

/-- A call with `a` parameters, the last one at `ix`, that returns to `0x8000`. -/
def callAt (a : UInt8) (ix : UInt16) (mem : UInt16 → UInt8) : State := {
  a := a, b := 0, c := 0, d := 0, e := 0, h := 0, l := 0, z := false, cy := false, ix := ix
  pc := 0, stack := [0x8000], mem := mem, reads := 0, ins := [], outs := [] }

end CpcLink.Fiforsx
