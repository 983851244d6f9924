/-
  Do the Pi's calls move whole bytes, one at a time?

  Between two accesses to the pins the CPC may do anything with its sides of the FIFOs: it
  takes no byte for the Pi, puts none for it, and only makes room (`CpcMoved`).  So a call of
  `write_fifo_byte` that finds room puts its byte (`writeFifoByte_spec`), and the pins are
  never driven from both ends.  Only a reset takes away the byte at the output: without one
  a call of `read_fifo_byte` that finds a byte gets this byte (`readFifoByte_spec`).
-/
import CpcLink.Gpio

namespace CpcLink

/-- What `setup_pins` leaves, and every call. -/
structure SetUp (g : Gpio) : Prop where
  inputs : ∀ i, g.output (dataPin i) = false
  outputs : g.output pinSi = true ∧ g.output pinSob = true ∧ g.output pinWnr = true
  low : g.level pinSi = false ∧ g.level pinSob = false ∧ g.level pinWnr = false

/-- The Pi has put nothing in and got nothing out. -/
structure CpcMoved (g g' : Gpio) : Prop where
  got : g'.toPi.got = g.toPi.got
  put : g'.toCpc.put = g.toCpc.put
  room : g.toCpc.hasRoom = true → g'.toCpc.hasRoom = true

namespace CpcMoved

variable {g g' g'' : Gpio}

theorem refl (g : Gpio) : CpcMoved g g := ⟨rfl, rfl, id⟩

theorem trans (h : CpcMoved g g') (h' : CpcMoved g' g'') : CpcMoved g g'' where
  got := h'.got.trans h.got
  put := h'.put.trans h.put
  room := h'.room ∘ h.room

theorem of_eq (hpi : g'.toPi = g.toPi) (hcpc : g'.toCpc = g.toCpc) : CpcMoved g g' where
  got := by rw [hpi]
  put := by rw [hcpc]
  room hr := by rw [hcpc, hr]

/-- Whatever the CPC does. -/
theorem host (g : Gpio) (events : List HostEvent) : CpcMoved g (events.foldl Gpio.host g) := by
  induction events generalizing g with
  | nil => exact refl g
  | cons e events ih =>
    rw [List.foldl_cons]
    refine trans ?_ (ih _)
    cases e with
    | put v => exact ⟨Passage.write_got _ _, rfl, id⟩
    | take => exact ⟨rfl, rfl, Passage.hasRoom_take⟩
    | reset => exact ⟨rfl, rfl, Passage.hasRoom_clear⟩

/-- The byte in front stays there, if nothing is dropped. -/
theorem head (h : CpcMoved g g') (hkept : g.toPi.Kept g'.toPi) {v : BYTE} {rest : List BYTE}
    (hv : g.toPi.held = v :: rest) : ∃ rest', g'.toPi.held = v :: rest' ∧ rest <+: rest' := by
  obtain ⟨more, hmore⟩ := hkept.held h.got
  rw [hv] at hmore
  exact ⟨rest ++ more, hmore.symm, List.prefix_append _ _⟩

end CpcMoved

section
variable {g : Gpio} {sched : Schedule} {p : PiSide} {ops ops' : List PinOp}

theorem host_pins (g : Gpio) (events : List HostEvent) :
    (events.foldl Gpio.host g).output = g.output ∧ (events.foldl Gpio.host g).level = g.level := by
  induction events generalizing g with
  | nil => exact ⟨rfl, rfl⟩
  | cons e events ih =>
    rw [List.foldl_cons, (ih _).1, (ih _).2]
    cases e <;> exact ⟨rfl, rfl⟩

/-- Without a reset nothing is dropped. -/
theorem host_kept {events : List HostEvent} (h : .reset ∉ events) (g : Gpio) :
    g.toPi.Kept (events.foldl Gpio.host g).toPi ∧ g.toCpc.Kept (events.foldl Gpio.host g).toCpc := by
  induction events generalizing g with
  | nil => exact ⟨.refl _, .refl _⟩
  | cons e events ih =>
    rw [List.mem_cons, not_or] at h
    obtain ⟨hpi, hcpc⟩ := ih h.2 (g.host e)
    cases e with
    | put v => exact ⟨(Passage.Kept.write g.toPi v).trans hpi, hcpc⟩
    | take => exact ⟨hpi, (Passage.Kept.take g.toCpc).trans hcpc⟩
    | reset => exact absurd rfl h.1

/-- A CPC that takes a byte makes room. -/
theorem host_room {events : List HostEvent} (h : .take ∈ events) (g : Gpio) :
    (events.foldl Gpio.host g).toCpc.hasRoom = true := by
  induction events generalizing g with
  | nil => cases h
  | cons e events ih =>
    rcases List.mem_cons.1 h with rfl | h
    · exact (CpcMoved.host _ events).room (Passage.hasRoom_take_of_pos (by decide) _)
    · exact ih h _

theorem host_put {events : List HostEvent} (h : ∀ e ∈ events, e = .take) (g : Gpio) :
    (events.foldl Gpio.host g).toPi.put = g.toPi.put := by
  induction events generalizing g with
  | nil => rfl
  | cons e events ih =>
    rw [List.forall_mem_cons] at h
    rw [List.foldl_cons, ih h.2, h.1]
    rfl

/-! ## The pins -/

/-- The modes of the pins after an access. -/
def outputAfter (output : ℕ → Bool) : PinOp → ℕ → Bool
  | .pinMode pin out => Function.update output pin out
  | .digitalWrite _ _ | .digitalRead _ => output

/-- Their levels. -/
def levelAfter (level : ℕ → Bool) : PinOp → ℕ → Bool
  | .digitalWrite pin high => Function.update level pin high
  | .pinMode _ _ | .digitalRead _ => level

theorem access_pins (sched : Schedule) (p : PiSide) (op : PinOp) :
    (p.access sched op).2.gpio.output = outputAfter p.gpio.output op ∧
      (p.access sched op).2.gpio.level = levelAfter p.gpio.level op := by
  obtain ⟨hout, hlevel⟩ := host_pins p.gpio (sched p.clock).host
  cases op with
  | pinMode pin out =>
    refine ⟨?_, hlevel⟩
    rw [outputAfter, ← hout]
    rfl
  | digitalWrite pin high =>
    refine ⟨hout, ?_⟩
    rw [levelAfter, ← hlevel]
    rfl
  | digitalRead pin => exact ⟨hout, hlevel⟩

theorem accesses_append : p.accesses sched (ops ++ ops') = (p.accesses sched ops).accesses sched ops' :=
  List.foldl_append

theorem accesses_pins (sched : Schedule) (p : PiSide) (ops : List PinOp) :
    (p.accesses sched ops).gpio.output = ops.foldl outputAfter p.gpio.output ∧
      (p.accesses sched ops).gpio.level = ops.foldl levelAfter p.gpio.level := by
  induction ops generalizing p with
  | nil => exact ⟨rfl, rfl⟩
  | cons op ops ih =>
    obtain ⟨hout, hlevel⟩ := access_pins sched p op
    have hrest := ih (p.access sched op).2
    rw [hout, hlevel] at hrest
    exact hrest

/-- A pin that no access is about. -/
theorem level_untouched {pin : ℕ} (h : ∀ op ∈ ops, op.target ≠ pin) (level : ℕ → Bool) :
    ops.foldl levelAfter level pin = level pin := by
  induction ops generalizing level with
  | nil => rfl
  | cons op ops ih =>
    rw [List.forall_mem_cons] at h
    rw [List.foldl_cons, ih h.2]
    cases op with
    | pinMode | digitalRead => rfl
    | digitalWrite pin' high => exact Function.update_of_ne (Ne.symm h.1) _ _

theorem output_kept {pin : ℕ} (h : ∀ op ∈ ops, ∀ out, op ≠ .pinMode pin out)
    (output : ℕ → Bool) : ops.foldl outputAfter output pin = output pin := by
  induction ops generalizing output with
  | nil => rfl
  | cons op ops ih =>
    rw [List.forall_mem_cons] at h
    rw [List.foldl_cons, ih h.2]
    cases op with
    | digitalWrite | digitalRead => rfl
    | pinMode pin' out =>
      exact Function.update_of_ne (fun he => h.1 out (by rw [he])) _ _

theorem output_untouched {pin : ℕ} (h : ∀ op ∈ ops, op.target ≠ pin) (output : ℕ → Bool) :
    ops.foldl outputAfter output pin = output pin := by
  refine output_kept (fun op hop out he => h op hop ?_) output
  rw [he]
  rfl

/-! ## The FIFOs -/

/-- The access is not to a strobe. -/
def PinOp.Quiet (op : PinOp) : Prop := op.target ≠ pinSi ∧ op.target ≠ pinSob

instance (op : PinOp) : Decidable op.Quiet := inferInstanceAs (Decidable (_ ∧ _))

theorem netOf_si {pin : ℕ} (h : netOf pin = some .slaveFifoSi) : pin = pinSi := by
  unfold netOf at h
  split at h <;> cases h
  rfl

theorem netOf_sob {pin : ℕ} (h : netOf pin = some .slaveFifoSob) : pin = pinSob := by
  unfold netOf at h
  split at h <;> cases h
  rfl

theorem digitalWrite_moved (floating : BYTE) {pin : ℕ} {high : Bool}
    (hsi : pin = pinSi → high = false ∨ g.level pin = true)
    (hsob : pin = pinSob → high = true ∨ g.level pin = false) :
    CpcMoved g (g.digitalWrite floating pin high) := by
  refine .of_eq (if_neg ?_) (if_neg ?_)
  · rintro ⟨hnet, -, hlevel, hhigh⟩
    rcases hsob (netOf_sob hnet) with h | h
    · rw [hhigh] at h
      cases h
    · rw [hlevel] at h
      cases h
  · rintro ⟨hnet, -, hlevel, hhigh⟩
    rcases hsi (netOf_si hnet) with h | h
    · rw [hhigh] at h
      cases h
    · rw [hlevel] at h
      cases h

/-- Only a rise of `SI` and a fall of `SOB` move a byte. -/
theorem access_moved_of (sched : Schedule) (op : PinOp)
    (hsi : op = .digitalWrite pinSi true → p.gpio.level pinSi = true)
    (hsob : op = .digitalWrite pinSob false → p.gpio.level pinSob = false) :
    CpcMoved p.gpio (p.access sched op).2.gpio := by
  have hlevel := (host_pins p.gpio (sched p.clock).host).2
  refine (CpcMoved.host p.gpio (sched p.clock).host).trans ?_
  cases op with
  | pinMode | digitalRead => exact .of_eq rfl rfl
  | digitalWrite pin high =>
    refine digitalWrite_moved _ ?_ ?_
    · rintro rfl
      rw [hlevel]
      cases high with
      | false => exact .inl rfl
      | true => exact .inr (hsi rfl)
    · rintro rfl
      rw [hlevel]
      cases high with
      | false => exact .inr (hsob rfl)
      | true => exact .inl rfl

theorem access_moved (sched : Schedule) (p : PiSide) {op : PinOp} (h : op.Quiet) :
    CpcMoved p.gpio (p.access sched op).2.gpio :=
  access_moved_of sched op (fun he => absurd (congrArg PinOp.target he) h.1)
    fun he => absurd (congrArg PinOp.target he) h.2

theorem accesses_moved (sched : Schedule) (p : PiSide) (h : ∀ op ∈ ops, op.Quiet) :
    CpcMoved p.gpio (p.accesses sched ops).gpio := by
  induction ops generalizing p with
  | nil => exact .refl _
  | cons op ops ih =>
    rw [List.forall_mem_cons] at h
    exact (access_moved sched p h.1).trans (ih _ h.2)

/-! ## What the CPC has done -/

/-- What an access does to the FIFOs, once the CPC has done its part. -/
theorem access_fifos (sched : Schedule) (p : PiSide) (op : PinOp) :
    ((p.access sched op).2.gpio.toPi = ((sched p.clock).host.foldl Gpio.host p.gpio).toPi ∨
      (p.access sched op).2.gpio.toPi = ((sched p.clock).host.foldl Gpio.host p.gpio).toPi.take) ∧
    ((p.access sched op).2.gpio.toCpc = ((sched p.clock).host.foldl Gpio.host p.gpio).toCpc ∨
      ∃ v, (p.access sched op).2.gpio.toCpc =
        ((sched p.clock).host.foldl Gpio.host p.gpio).toCpc.write v) := by
  cases op with
  | pinMode | digitalRead => exact ⟨.inl rfl, .inl rfl⟩
  | digitalWrite pin high =>
    dsimp only [PiSide.access, Gpio.pin, Gpio.digitalWrite]
    constructor
    · split
      · exact .inr rfl
      · exact .inl rfl
    · split
      · exact .inr ⟨_, rfl⟩
      · exact .inl rfl

/-- The CPC does not reset the FIFOs between two times. -/
def Undisturbed (sched : Schedule) (t t' : ℕ) : Prop :=
  ∀ i, t ≤ i → i < t' → .reset ∉ (sched i).host

theorem Undisturbed.mono {t t' u u' : ℕ} (h : Undisturbed sched t t') (ht : t ≤ u) (hu : u' ≤ t') :
    Undisturbed sched u u' := fun i hi hi' => h i (ht.trans hi) (hi'.trans_le hu)

/-- Some accesses later.  Only the CPC puts bytes into the FIFO to the Pi, and takes bytes
    out of the other one; only a reset drops any.  There is room when the CPC has taken a
    byte and none was put in since. -/
structure Later (sched : Schedule) (p p' : PiSide) : Prop where
  clock : p.clock ≤ p'.clock
  put : (∀ t ≥ p.clock, t < p'.clock → ∀ e ∈ (sched t).host, e = .take) →
    p'.gpio.toPi.put = p.gpio.toPi.put
  got : (∀ t ≥ p.clock, t < p'.clock → (sched t).host = []) →
    p'.gpio.toCpc.got = p.gpio.toCpc.got
  kept : Undisturbed sched p.clock p'.clock →
    p.gpio.toPi.Kept p'.gpio.toPi ∧ p.gpio.toCpc.Kept p'.gpio.toCpc
  grows : p.gpio.toCpc.put <+: p'.gpio.toCpc.put
  room : p'.gpio.toCpc.put = p.gpio.toCpc.put →
    (p.gpio.toCpc.hasRoom = true ∨ ∃ t ≥ p.clock, t < p'.clock ∧ .take ∈ (sched t).host) →
    p'.gpio.toCpc.hasRoom = true

theorem Later.refl (sched : Schedule) (p : PiSide) : Later sched p p where
  clock := le_rfl
  put _ := rfl
  got _ := rfl
  kept _ := ⟨.refl _, .refl _⟩
  grows := List.prefix_rfl
  room _ h := h.resolve_right fun ⟨_, ht, hlt, _⟩ => absurd hlt ht.not_gt

theorem Later.trans {p' p'' : PiSide} (h : Later sched p p') (h' : Later sched p' p'') :
    Later sched p p'' where
  clock := h.clock.trans h'.clock
  put hput := (h'.put fun t ht hlt => hput t (h.clock.trans ht) hlt).trans
    (h.put fun t ht hlt => hput t ht (hlt.trans_le h'.clock))
  got hgot := (h'.got fun t ht hlt => hgot t (h.clock.trans ht) hlt).trans
    (h.got fun t ht hlt => hgot t ht (hlt.trans_le h'.clock))
  kept hno := by
    obtain ⟨hpi, hcpc⟩ := h.kept (hno.mono le_rfl h'.clock)
    obtain ⟨hpi', hcpc'⟩ := h'.kept (hno.mono h.clock le_rfl)
    exact ⟨hpi.trans hpi', hcpc.trans hcpc'⟩
  grows := h.grows.trans h'.grows
  room hput hroom := by
    have hfirst : p'.gpio.toCpc.put = p.gpio.toCpc.put := (h.grows.eq_of_length_le
      (hput ▸ h'.grows.length_le)).symm
    refine h'.room (hput.trans hfirst.symm) ?_
    rcases hroom with hroom | ⟨t, ht, hlt, htake⟩
    · exact .inl (h.room hfirst (.inl hroom))
    · rcases Nat.lt_or_ge t p'.clock with hbefore | hafter
      · exact .inl (h.room hfirst (.inr ⟨t, ht, hbefore, htake⟩))
      · exact .inr ⟨t, hafter, hlt, htake⟩

theorem access_later (sched : Schedule) (p : PiSide) (op : PinOp) :
    Later sched p (p.access sched op).2 := by
  obtain ⟨hpi, hcpc⟩ := access_fifos sched p op
  have hmoved := CpcMoved.host p.gpio (sched p.clock).host
  refine ⟨Nat.le_succ _, fun hput => ?_, fun hgot => ?_, fun hno => ?_, ?_, fun hput hroom => ?_⟩
  · have hhost := host_put (hput p.clock le_rfl (Nat.lt_succ_self _)) p.gpio
    rcases hpi with hpi | hpi <;> rw [hpi]
    · exact hhost
    · exact hhost
  · have hhost := hgot p.clock le_rfl (Nat.lt_succ_self _)
    rw [hhost] at hcpc
    rcases hcpc with hcpc | ⟨v, hcpc⟩ <;> rw [hcpc]
    · rfl
    · exact Passage.write_got _ _
  · obtain ⟨hpi', hcpc'⟩ := host_kept (hno p.clock le_rfl (Nat.lt_succ_self _)) p.gpio
    constructor
    · rcases hpi with hpi | hpi <;> rw [hpi]
      · exact hpi'
      · exact hpi'.trans (.take _)
    · rcases hcpc with hcpc | ⟨v, hcpc⟩ <;> rw [hcpc]
      · exact hcpc'
      · exact hcpc'.trans (.write _ _)
  · rcases hcpc with hcpc | ⟨v, hcpc⟩ <;> rw [hcpc]
    · rw [hmoved.put]
    · rw [← hmoved.put]
      exact Passage.put_prefix_write _ _
  · have hhost : ((sched p.clock).host.foldl Gpio.host p.gpio).toCpc.hasRoom = true := by
      rcases hroom with hroom | ⟨t, ht, hlt, htake⟩
      · exact hmoved.room hroom
      · obtain rfl : t = p.clock := le_antisymm (Nat.lt_succ_iff.1 hlt) ht
        exact host_room htake _
    rcases hcpc with hcpc | ⟨v, hcpc⟩
    · rw [hcpc]
      exact hhost
    · rw [hcpc, (Passage.write_room hhost v).2, hmoved.put] at hput
      exact absurd hput (by simp)

theorem accesses_later (sched : Schedule) (p : PiSide) (ops : List PinOp) :
    Later sched p (p.accesses sched ops) := by
  induction ops generalizing p with
  | nil => exact .refl sched p
  | cons op ops ih => exact (access_later sched p op).trans (ih _)

theorem accesses_clock (sched : Schedule) (p : PiSide) (ops : List PinOp) :
    (p.accesses sched ops).clock = p.clock + ops.length := by
  induction ops generalizing p with
  | nil => rfl
  | cons op ops ih =>
    refine (ih (p.access sched op).2).trans ?_
    rw [List.length_cons]
    exact Nat.succ_add_eq_add_succ _ _

/-! ## The bits of a byte -/

theorem dataPin_injective : Function.Injective dataPin := by
  intro i j h
  revert h
  revert i j
  decide

theorem dataPin_quiet (i : Fin 8) (out : Bool) : (PinOp.pinMode (dataPin i) out).Quiet := by
  revert i
  decide +revert

theorem shiftRight_testBit (txdata : BYTE) (j : ℕ) :
    (txdata >>> 1).toNat.testBit j = txdata.toNat.testBit (j + 1) := by
  rw [UInt8.toNat_shiftRight]
  simp [Nat.testBit_shiftRight, Nat.add_comm]

theorem lowest_testBit (txdata : BYTE) : (txdata &&& 1 != 0) = txdata.toNat.testBit 0 := by
  rw [Bool.eq_iff_iff, bne_iff_ne, ne_eq, ← UInt8.toNat_inj, UInt8.toNat_and]
  simp [Nat.testBit_zero]

theorem writeBits_target {txdata : BYTE} {pins : List (Fin 8)} {op : PinOp}
    (h : op ∈ writeBits txdata pins) : ∃ i ∈ pins, op.target = dataPin i := by
  induction pins generalizing txdata with
  | nil => cases h
  | cons i pins ih =>
    rw [writeBits, List.mem_cons, List.mem_cons] at h
    rcases h with rfl | rfl | h
    · exact ⟨i, List.mem_cons_self, rfl⟩
    · exact ⟨i, List.mem_cons_self, rfl⟩
    · obtain ⟨j, hj, hop⟩ := ih h
      exact ⟨j, List.mem_cons_of_mem _ hj, hop⟩

/-- A data pin that the loop does not come to any more. -/
theorem writeBits_other {txdata : BYTE} {pins : List (Fin 8)} {i : Fin 8} (hi : i ∉ pins) :
    ∀ op ∈ writeBits txdata pins, op.target ≠ dataPin i := by
  intro op hop he
  obtain ⟨j, hj, hop'⟩ := writeBits_target hop
  rw [he] at hop'
  exact hi (dataPin_injective hop' ▸ hj)

/-- The loop puts bit after bit on its pins. -/
theorem writeBits_pins (txdata : BYTE) {pins : List (Fin 8)} (hnodup : pins.Nodup)
    (output level : ℕ → Bool) {j : ℕ} (hj : j < pins.length) :
    (writeBits txdata pins).foldl outputAfter output (dataPin pins[j]) = true ∧
      (writeBits txdata pins).foldl levelAfter level (dataPin pins[j]) = txdata.toNat.testBit j := by
  induction pins generalizing txdata output level j with
  | nil => cases hj
  | cons i pins ih =>
    obtain ⟨hi, hnodup⟩ := List.nodup_cons.1 hnodup
    rw [writeBits, List.foldl_cons, List.foldl_cons, List.foldl_cons, List.foldl_cons]
    cases j with
    | zero =>
      rw [List.getElem_cons_zero, output_untouched (writeBits_other hi),
        level_untouched (writeBits_other hi)]
      refine ⟨Function.update_self _ _ _, (Function.update_self _ _ _).trans ?_⟩
      exact lowest_testBit txdata
    | succ j =>
      rw [List.getElem_cons_succ]
      obtain ⟨hout, hlevel⟩ := ih (txdata >>> 1) hnodup _ _ (Nat.lt_of_succ_lt_succ hj)
      exact ⟨hout, hlevel.trans (shiftRight_testBit txdata j)⟩

/-- The byte is on the nets when the pins show its bits. -/
theorem sdByte_eq {txdata floating : BYTE} (hwrites : g.writes = true)
    (hout : ∀ i, g.output (dataPin i) = true)
    (hlevel : ∀ i : Fin 8, g.level (dataPin i) = txdata.toNat.testBit i) :
    g.sdByte floating = txdata := by
  have hsd : g.sd floating = fun i : Fin 8 => txdata.toNat.testBit i := by
    funext i
    rw [Gpio.sd, if_pos hwrites, if_pos (hout i), hlevel]
  rw [Gpio.sdByte, hsd, Nat.ofBits_testBit, Nat.mod_eq_of_lt txdata.toNat_lt, UInt8.ofNat_toNat]

/-! ## Writing a byte -/

theorem pinModes_output {pins : List (Fin 8)} {i : Fin 8} (hi : i ∈ pins) (output : ℕ → Bool) :
    (pins.map fun i => PinOp.pinMode (dataPin i) false).foldl outputAfter output (dataPin i) =
      false := by
  induction pins generalizing output with
  | nil => cases hi
  | cons j pins ih =>
    rw [List.map_cons, List.foldl_cons]
    by_cases hmem : i ∈ pins
    · exact ih hmem _
    · obtain rfl : i = j := (List.mem_cons.1 hi).resolve_right hmem
      rw [output_untouched]
      · exact Function.update_self _ _ _
      · intro op hop he
        obtain ⟨j, hj, rfl⟩ := List.mem_map.1 hop
        exact hmem (dataPin_injective he ▸ hj)

/-- The accesses before `SI` rises. -/
def writeFront (txdata : BYTE) : List PinOp :=
  .digitalWrite pinWnr true :: writeBits txdata (List.finRange 8)

/-- The accesses after it has fallen, but for the last one. -/
def writeBack : List PinOp := (List.finRange 8).map fun i => .pinMode (dataPin i) false

theorem writeFifoByte_eq (txdata : BYTE) : writeFifoByte txdata =
    writeFront txdata ++ [.digitalWrite pinSi true] ++ [.digitalWrite pinSi false] ++ writeBack ++
      [.digitalWrite pinWnr false] := by
  simp only [writeFifoByte, writeFront, writeBack, List.cons_append, List.append_assoc,
    List.nil_append]

theorem writeFront_target {txdata : BYTE} {op : PinOp} (h : op ∈ writeFront txdata) :
    op = .digitalWrite pinWnr true ∨ ∃ i, op.target = dataPin i := by
  rcases List.mem_cons.1 h with rfl | h
  · exact .inl rfl
  · obtain ⟨i, -, hi⟩ := writeBits_target h
    exact .inr ⟨i, hi⟩

theorem writeBack_target {op : PinOp} (h : op ∈ writeBack) : ∃ i, op.target = dataPin i := by
  obtain ⟨i, -, rfl⟩ := List.mem_map.1 h
  exact ⟨i, rfl⟩

theorem writeFront_quiet (txdata : BYTE) : ∀ op ∈ writeFront txdata, op.Quiet := by
  intro op hop
  rcases writeFront_target hop with rfl | ⟨i, hi⟩
  · decide
  · rw [PinOp.Quiet, hi]
    exact dataPin_quiet i true

theorem writeBack_quiet : ∀ op ∈ writeBack, op.Quiet := by
  intro op hop
  obtain ⟨i, hi⟩ := writeBack_target hop
  rw [PinOp.Quiet, hi]
  exact dataPin_quiet i false

/-- Only the pins of the data change their mode. -/
theorem writeFifoByte_modes {txdata : BYTE} {pin : ℕ} {out : Bool}
    (h : .pinMode pin out ∈ writeFifoByte txdata) : ∃ i, dataPin i = pin := by
  rw [writeFifoByte_eq] at h
  simp only [List.mem_append, List.mem_singleton] at h
  rcases h with (((h | h) | h) | h) | h
  · rcases writeFront_target h with he | ⟨i, hi⟩
    · cases he
    · exact ⟨i, hi.symm⟩
  · cases h
  · cases h
  · obtain ⟨i, hi⟩ := writeBack_target h
    exact ⟨i, hi.symm⟩
  · cases h

/-- Pins that are outputs only between a rise and a fall of `WNR` are not driven from the
    other side. -/
theorem guarded_no_contention (h : SetUp p.gpio) {body : List PinOp}
    (hwnr : ∀ op ∈ body, op.target ≠ pinWnr)
    (hinputs : ∀ output i, body.foldl outputAfter output (dataPin i) = false) (k : ℕ) :
    ¬ (p.accesses sched ((PinOp.digitalWrite pinWnr true :: body ++
      [PinOp.digitalWrite pinWnr false]).take k)).gpio.Contention := by
  obtain ⟨hout, hlevel⟩ := accesses_pins sched p
    ((PinOp.digitalWrite pinWnr true :: body ++ [PinOp.digitalWrite pinWnr false]).take k)
  rintro ⟨hwrites, i, hi⟩
  rw [hout] at hi
  rw [Gpio.writes, hout, hlevel] at hwrites
  cases k with
  | zero =>
    rw [List.take_zero, List.foldl_nil, h.inputs] at hi
    cases hi
  | succ k =>
    rw [List.cons_append, List.take_succ_cons, List.foldl_cons] at hi hwrites
    rcases Nat.lt_or_ge body.length k with hk | hk
    · rw [List.take_of_length_le (by rw [List.length_append]; exact hk), List.foldl_append] at hi
      exact Bool.false_ne_true ((hinputs _ i).symm.trans hi)
    · rw [List.take_append_of_le_length hk] at hwrites
      have htake : ∀ op ∈ body.take k, op.target ≠ pinWnr := fun op hop =>
        hwnr op (List.mem_of_mem_take hop)
      rw [output_untouched htake, List.foldl_cons, level_untouched htake] at hwrites
      simp [outputAfter, levelAfter, h.outputs.2.2] at hwrites

/-- **The data pins are never driven from both ends.** -/
theorem write_no_contention (h : SetUp p.gpio) (txdata : BYTE) (k : ℕ) :
    ¬ (p.accesses sched ((writeFifoByte txdata).take k)).gpio.Contention := by
  have hdata : ∀ i, dataPin i ≠ pinWnr := by decide
  have hlist : writeFifoByte txdata = PinOp.digitalWrite pinWnr true ::
      (writeBits txdata (List.finRange 8) ++
        [PinOp.digitalWrite pinSi true, PinOp.digitalWrite pinSi false] ++ writeBack) ++
      [PinOp.digitalWrite pinWnr false] := by
    simp only [writeFifoByte, writeBack, List.cons_append, List.append_assoc]
  rw [hlist]
  refine guarded_no_contention h (fun op hop => ?_) (fun output i => ?_) k
  · simp only [List.mem_append, List.mem_cons, List.not_mem_nil, or_false] at hop
    rcases hop with (hop | rfl | rfl) | hop
    · obtain ⟨i, -, hi⟩ := writeBits_target hop
      exact hi ▸ hdata i
    · decide
    · decide
    · obtain ⟨i, hi⟩ := writeBack_target hop
      exact hi ▸ hdata i
  · rw [List.foldl_append]
    exact pinModes_output (List.mem_finRange i) _

/-- The pins show a byte. -/
structure Shows (g : Gpio) (txdata : BYTE) : Prop where
  writes : g.writes = true
  output : ∀ i, g.output (dataPin i) = true
  level : ∀ i : Fin 8, g.level (dataPin i) = txdata.toNat.testBit i

/-- When `SI` rises, the byte on the nets goes in. -/
theorem si_rises (sched : Schedule) {txdata : BYTE} (hshows : Shows p.gpio txdata)
    (hsi : p.gpio.output pinSi = true ∧ p.gpio.level pinSi = false)
    (hroom : p.gpio.toCpc.hasRoom = true) :
    (p.access sched (.digitalWrite pinSi true)).2.gpio.toCpc.put = p.gpio.toCpc.put ++ [txdata] ∧
      (p.access sched (.digitalWrite pinSi true)).2.gpio.toPi.got = p.gpio.toPi.got := by
  obtain ⟨hout, hlevel⟩ := host_pins p.gpio (sched p.clock).host
  have hmoved := CpcMoved.host p.gpio (sched p.clock).host
  rw [PiSide.access, Gpio.pin]
  dsimp only [Gpio.digitalWrite]
  constructor
  · rw [if_pos ⟨rfl, by rw [hout]; exact hsi.1, by rw [hlevel]; exact hsi.2, rfl⟩,
      @sdByte_eq _ txdata, (Passage.write_room (hmoved.room hroom) _).2, hmoved.put]
    · rw [Gpio.writes, hout, hlevel]
      exact hshows.writes
    · rw [hout]
      exact hshows.output
    · rw [hlevel]
      exact hshows.level
  · rw [if_neg (by rintro ⟨hnet, -⟩; cases hnet), hmoved.got]

/-- The byte is on the pins before `SI` rises. -/
theorem shows_bits (sched : Schedule) (h : SetUp p.gpio) (txdata : BYTE) :
    Shows (p.accesses sched (writeFront txdata)).gpio txdata := by
  obtain ⟨hout, hlevel⟩ := accesses_pins sched p (writeFront txdata)
  have hbits : ∀ i : Fin 8, _ := fun i => writeBits_pins txdata (List.nodup_finRange 8)
    p.gpio.output (Function.update p.gpio.level pinWnr true) (j := i.val)
    (by rw [List.length_finRange]; exact i.isLt)
  have hwnr : ∀ op ∈ writeBits txdata (List.finRange 8), op.target ≠ pinWnr := by
    intro op hop he
    obtain ⟨i, -, hi⟩ := writeBits_target hop
    rw [he] at hi
    revert i
    decide
  constructor
  · rw [Gpio.writes, hout, hlevel, writeFront, List.foldl_cons, List.foldl_cons, output_untouched hwnr,
      level_untouched hwnr, outputAfter, levelAfter, Function.update_self, h.outputs.2.2]
    rfl
  · intro i
    rw [hout]
    simpa [writeFront, outputAfter] using (hbits i).1
  · intro i
    rw [hlevel]
    simpa [writeFront, levelAfter] using (hbits i).2

theorem writeFifoByte_setUp (h : SetUp p.gpio) (txdata : BYTE) :
    SetUp (p.accesses sched (writeFifoByte txdata)).gpio := by
  obtain ⟨hout, hlevel⟩ := accesses_pins sched p (writeFifoByte txdata)
  have hkept : ∀ {pin}, (∀ i, dataPin i ≠ pin) →
      (p.accesses sched (writeFifoByte txdata)).gpio.output pin = p.gpio.output pin := by
    intro pin hpin
    rw [hout]
    refine output_kept (fun op hop out he => ?_) _
    obtain ⟨i, hi⟩ := writeFifoByte_modes (he ▸ hop)
    exact hpin i hi
  have hback : ∀ {pin}, (∀ i, dataPin i ≠ pin) → ∀ op ∈ writeBack, op.target ≠ pin := by
    intro pin hpin op hop
    obtain ⟨i, hi⟩ := writeBack_target hop
    exact hi ▸ hpin i
  constructor
  · intro i
    rw [hout, writeFifoByte_eq, List.foldl_append, List.foldl_append]
    exact pinModes_output (List.mem_finRange i) _
  · rw [hkept (by decide), hkept (by decide), hkept (by decide)]
    exact h.outputs
  · rw [hlevel, writeFifoByte_eq]
    simp only [List.foldl_append, List.foldl_cons, List.foldl_nil, levelAfter]
    refine ⟨?_, ?_, Function.update_self _ _ _⟩
    · rw [Function.update_of_ne (by decide), level_untouched (hback (by decide)),
        Function.update_self]
    · rw [Function.update_of_ne (by decide), level_untouched (hback (by decide)),
        Function.update_of_ne (by decide), Function.update_of_ne (by decide),
        level_untouched fun op hop => (writeFront_quiet txdata op hop).2]
      exact h.low.2.1

/-- A call that found room puts its byte, and leaves the pins as it found them. -/
theorem writeFifoByte_spec (sched : Schedule) (h : SetUp p.gpio) (hroom : p.gpio.toCpc.hasRoom = true) (txdata : BYTE) :
    SetUp (p.accesses sched (writeFifoByte txdata)).gpio ∧
      (p.accesses sched (writeFifoByte txdata)).gpio.toCpc.put = p.gpio.toCpc.put ++ [txdata] ∧
      (p.accesses sched (writeFifoByte txdata)).gpio.toPi.got = p.gpio.toPi.got := by
  refine ⟨writeFifoByte_setUp h txdata, ?_⟩
  rw [writeFifoByte_eq, accesses_append, accesses_append, accesses_append, accesses_append]
  have hfront := accesses_moved sched p (writeFront_quiet txdata)
  obtain ⟨hout, hlevel⟩ := accesses_pins sched p (writeFront txdata)
  have hsi : ∀ op ∈ writeFront txdata, op.target ≠ pinSi := fun op hop =>
    (writeFront_quiet txdata op hop).1
  obtain ⟨hput, hgot⟩ := si_rises sched (shows_bits sched h txdata)
    ⟨by rw [hout, output_untouched hsi]; exact h.outputs.1,
      by rw [hlevel, level_untouched hsi]; exact h.low.1⟩ (hfront.room hroom)
  have hfalls : CpcMoved ((p.accesses sched (writeFront txdata)).accesses sched
      [.digitalWrite pinSi true]).gpio _ :=
    access_moved_of sched (.digitalWrite pinSi false) nofun nofun
  have hrest := (hfalls.trans (accesses_moved sched _ writeBack_quiet)).trans
    (access_moved_of sched (.digitalWrite pinWnr false) nofun nofun)
  exact ⟨hrest.put.trans (hput.trans (by rw [hfront.put])),
    hrest.got.trans (hgot.trans hfront.got)⟩

/-! ## Reading a byte -/

/-- An input shows the byte at the output of the FIFO. -/
theorem digitalRead_data (sched : Schedule) {v : BYTE} {rest : List BYTE} (hreads : p.gpio.writes = false)
    (hno : .reset ∉ (sched p.clock).host) (hheld : p.gpio.toPi.held = v :: rest) (i : Fin 8) :
    (p.access sched (.digitalRead (dataPin i))).1 = v.toNat.testBit i := by
  obtain ⟨hout, hlevel⟩ := host_pins p.gpio (sched p.clock).host
  obtain ⟨rest', hheld', -⟩ :=
    (CpcMoved.host p.gpio (sched p.clock).host).head (host_kept hno p.gpio).1 hheld
  have hnet : netOf (dataPin i) = some (.sd i) := by
    revert i
    decide
  have hreads' : ((sched p.clock).host.foldl Gpio.host p.gpio).writes = false := by
    rw [Gpio.writes, hout, hlevel]
    exact hreads
  rw [PiSide.access, Gpio.pin]
  simp only [Gpio.digitalRead, hnet, Gpio.sd, hreads', hheld', List.headD_cons, Bool.false_eq_true,
    if_false]

theorem readBits_accesses (sched : Schedule) (pins : List (Fin 8)) (rval : ℕ) (p : PiSide) :
    (readBits sched pins rval p).2 =
      p.accesses sched (pins.map fun i => .digitalRead (dataPin i)) := by
  induction pins generalizing rval p with
  | nil => rfl
  | cons i pins ih => exact ih _ _

theorem waitDor_accesses (sched : Schedule) (timeout : ℕ) (p : PiSide) :
    ∃ polls, waitDor sched timeout p = p.accesses sched (.replicate polls (.digitalRead pinDor)) := by
  induction timeout generalizing p with
  | zero => exact ⟨1, rfl⟩
  | succ timeout ih =>
    rw [waitDor]
    split
    · obtain ⟨polls, hpolls⟩ := ih (p.access sched (.digitalRead pinDor)).2
      exact ⟨polls + 1, hpolls⟩
    · exact ⟨1, rfl⟩

/-- Reading pins changes none of them and moves no byte. -/
theorem reads_kept (sched : Schedule) (p : PiSide) (hreads : ∀ op ∈ ops, ∃ pin, op = .digitalRead pin) :
    (p.accesses sched ops).gpio.output = p.gpio.output ∧
      (p.accesses sched ops).gpio.level = p.gpio.level ∧
      CpcMoved p.gpio (p.accesses sched ops).gpio := by
  induction ops generalizing p with
  | nil => exact ⟨rfl, rfl, .refl _⟩
  | cons op ops ih =>
    rw [List.forall_mem_cons] at hreads
    obtain ⟨⟨pin, rfl⟩, hreads⟩ := hreads
    obtain ⟨hout, hlevel⟩ := access_pins sched p (.digitalRead pin)
    obtain ⟨hout', hlevel', hmoved⟩ := ih (p.access sched (.digitalRead pin)).2 hreads
    refine ⟨hout'.trans hout, hlevel'.trans hlevel, CpcMoved.trans ?_ hmoved⟩
    exact access_moved_of sched _ nofun nofun

theorem readBits_kept (sched : Schedule) (pins : List (Fin 8)) (rval : ℕ) (p : PiSide) :
    (readBits sched pins rval p).2.gpio.output = p.gpio.output ∧
      (readBits sched pins rval p).2.gpio.level = p.gpio.level ∧
      CpcMoved p.gpio (readBits sched pins rval p).2.gpio := by
  rw [readBits_accesses]
  refine reads_kept sched p fun op hop => ?_
  obtain ⟨i, -, rfl⟩ := List.mem_map.1 hop
  exact ⟨_, rfl⟩

/-- Without a reset the pins show the bits of one byte. -/
theorem readBits_val (sched : Schedule) {v : BYTE} {rest : List BYTE} (hreads : p.gpio.writes = false)
    (pins : List (Fin 8)) (rval : ℕ) (hno : Undisturbed sched p.clock (p.clock + pins.length))
    (hheld : p.gpio.toPi.held = v :: rest) : (readBits sched pins rval p).1 =
      pins.foldl (fun r (i : Fin 8) => r * 2 + (v.toNat.testBit i).toNat) rval := by
  induction pins generalizing p rval rest with
  | nil => rfl
  | cons i pins ih =>
    rw [List.length_cons] at hno
    have hfirst : Undisturbed sched p.clock (p.clock + 1) := hno.mono le_rfl (by omega)
    obtain ⟨hout, hlevel⟩ := access_pins sched p (.digitalRead (dataPin i))
    have hlater := access_later sched p (.digitalRead (dataPin i))
    have hmoved := access_moved sched p (dataPin_quiet i false : (PinOp.digitalRead (dataPin i)).Quiet)
    obtain ⟨rest', hheld', -⟩ := hmoved.head (hlater.kept hfirst).1 hheld
    have hreads' : (p.access sched (.digitalRead (dataPin i))).2.gpio.writes = false := by
      rw [Gpio.writes, hout, hlevel]
      exact hreads
    rw [readBits, ih hreads' _ (hno.mono (Nat.le_succ _) (Nat.succ_add_eq_add_succ _ _).le) hheld',
      digitalRead_data sched hreads (hfirst p.clock le_rfl (Nat.lt_succ_self _)) hheld, List.foldl_cons]

/-- The bits from the highest one down are the number. -/
theorem bits_toNat (v : BYTE) :
    (List.finRange 8).reverse.foldl (fun r (i : Fin 8) => r * 2 + (v.toNat.testBit i).toNat) 0 = v.toNat := by
  have hbits : Nat.ofBits (fun i : Fin 8 => v.toNat.testBit i) = v.toNat := by
    rw [Nat.ofBits_testBit, Nat.mod_eq_of_lt v.toNat_lt]
  rw [Nat.ofBits, Fin.foldr_eq_finRange_foldr] at hbits
  rw [List.foldl_reverse]
  simpa only [Nat.mul_comm] using hbits

theorem waitDor_kept (sched : Schedule) (timeout : ℕ) (p : PiSide) :
    (waitDor sched timeout p).gpio.output = p.gpio.output ∧
      (waitDor sched timeout p).gpio.level = p.gpio.level ∧
      CpcMoved p.gpio (waitDor sched timeout p).gpio := by
  obtain ⟨polls, hpolls⟩ := waitDor_accesses sched timeout p
  rw [hpolls]
  exact reads_kept sched p fun op hop => ⟨_, List.eq_of_mem_replicate hop⟩

/-- When `SOB` falls, the byte at the output is gone. -/
theorem sob_falls (sched : Schedule)
    (hsob : p.gpio.output pinSob = true ∧ p.gpio.level pinSob = true) :
    (p.access sched (.digitalWrite pinSob false)).2.gpio.toPi =
        ((sched p.clock).host.foldl Gpio.host p.gpio).toPi.take ∧
      (p.access sched (.digitalWrite pinSob false)).2.gpio.toCpc.put = p.gpio.toCpc.put := by
  obtain ⟨hout, hlevel⟩ := host_pins p.gpio (sched p.clock).host
  constructor
  · exact if_pos ⟨rfl, by rw [hout]; exact hsob.1, by rw [hlevel]; exact hsob.2, rfl⟩
  · have hput : (p.access sched (.digitalWrite pinSob false)).2.gpio.toCpc =
        ((sched p.clock).host.foldl Gpio.host p.gpio).toCpc := by
      dsimp only [PiSide.access, Gpio.pin, Gpio.digitalWrite]
      exact if_neg (by rintro ⟨hnet, -⟩; cases hnet)
    rw [hput]
    exact (CpcMoved.host p.gpio (sched p.clock).host).put

/-- The pins between two calls. -/
theorem SetUp.of_pins {g g' : Gpio} (h : SetUp g) (hout : g'.output = g.output)
    (hlevel : g'.level pinSi = g.level pinSi ∧ g'.level pinSob = false ∧
      g'.level pinWnr = g.level pinWnr) : SetUp g' where
  inputs i := by rw [hout, h.inputs]
  outputs := by rw [hout]; exact h.outputs
  low := ⟨hlevel.1.trans h.low.1, hlevel.2.1, hlevel.2.2.trans h.low.2.2⟩

theorem SetUp.reads {g : Gpio} (h : SetUp g) : g.writes = false := by
  rw [Gpio.writes, h.low.2.2, Bool.and_false]

/-- The pins with `SOB` high, when a byte has been read. -/
theorem sob_high (sched : Schedule) (h : SetUp p.gpio) (rval : ℕ) :
    let q := ((readBits sched (List.finRange 8).reverse rval p).2.access sched
      (.digitalWrite pinSob true)).2
    (q.gpio.output pinSob = true ∧ q.gpio.level pinSob = true) ∧ CpcMoved p.gpio q.gpio := by
  obtain ⟨hout, -, hmoved⟩ := readBits_kept sched (List.finRange 8).reverse rval p
  set q := (readBits sched (List.finRange 8).reverse rval p).2
  obtain ⟨houtr, hlevelr⟩ := access_pins sched q (.digitalWrite pinSob true)
  refine ⟨⟨by rw [houtr, outputAfter, hout]; exact h.outputs.2.1,
    by rw [hlevelr, levelAfter, Function.update_self]⟩, hmoved.trans ?_⟩
  exact access_moved_of sched _ nofun nofun

/-- Reading a byte leaves the pins as they were, and puts nothing. -/
theorem readAtOnce_kept (sched : Schedule) (h : SetUp p.gpio) :
    SetUp (readAtOnce sched p).2.gpio ∧
      (readAtOnce sched p).2.gpio.toCpc.put = p.gpio.toCpc.put := by
  obtain ⟨hsob, hmoved⟩ := sob_high sched h 0
  obtain ⟨hout, hlevel, -⟩ := readBits_kept sched (List.finRange 8).reverse 0 p
  obtain ⟨houts, hlevels⟩ := accesses_pins sched (readBits sched (List.finRange 8).reverse 0 p).2
    [.digitalWrite pinSob true, .digitalWrite pinSob false]
  refine ⟨h.of_pins ?_ ?_, (sob_falls sched hsob).2.trans hmoved.put⟩
  · rw [readAtOnce, houts, ← hout]
    rfl
  · rw [readAtOnce, hlevels, ← hlevel]
    simp only [List.foldl_cons, List.foldl_nil, levelAfter]
    exact ⟨rfl, rfl, rfl⟩

/-- Reading is a sequence of accesses, none of which changes the mode of a pin. -/
theorem readAtOnce_accesses (sched : Schedule) (p : PiSide) : (readAtOnce sched p).2 =
    p.accesses sched (((List.finRange 8).reverse.map fun i => .digitalRead (dataPin i)) ++
      [.digitalWrite pinSob true, .digitalWrite pinSob false]) := by
  rw [readAtOnce, readBits_accesses, ← accesses_append]

theorem readAtOnce_clock (sched : Schedule) (p : PiSide) :
    (readAtOnce sched p).2.clock = p.clock + 10 := by
  rw [readAtOnce_accesses, accesses_clock]
  rfl

/-- Without a reset the byte in front is read and taken. -/
theorem readAtOnce_spec (sched : Schedule) (h : SetUp p.gpio)
    (hno : Undisturbed sched p.clock (readAtOnce sched p).2.clock) {v : BYTE} {rest : List BYTE}
    (hheld : p.gpio.toPi.held = v :: rest) :
    (readAtOnce sched p).1 = v.toNat ∧
      (readAtOnce sched p).2.gpio.toPi.got = p.gpio.toPi.got ++ [v] ∧
      rest <+: (readAtOnce sched p).2.gpio.toPi.held := by
  rw [readAtOnce_clock] at hno
  refine ⟨(readBits_val sched h.reads _ 0 (hno.mono le_rfl (by simp)) hheld).trans (bits_toNat v), ?_⟩
  obtain ⟨hsob, hmoved⟩ := sob_high sched h 0
  have hclock : ((readBits sched (List.finRange 8).reverse 0 p).2.access sched
      (.digitalWrite pinSob true)).2.clock = p.clock + 9 := by
    rw [readBits_accesses]
    exact congrArg (· + 1) (accesses_clock sched p _)
  have hlater : Later sched p ((readBits sched (List.finRange 8).reverse 0 p).2.access sched
      (.digitalWrite pinSob true)).2 := by
    rw [readBits_accesses]
    exact (accesses_later sched p _).trans (access_later sched _ _)
  have hkept := (hlater.kept (hno.mono le_rfl (by omega))).1
  rw [readAtOnce]
  set q := ((readBits sched (List.finRange 8).reverse 0 p).2.access sched
    (.digitalWrite pinSob true)).2 with hq
  -- in front of the last access the CPC may still do something
  have hhost := CpcMoved.host q.gpio (sched q.clock).host
  obtain ⟨rest', hheld', hrest⟩ := (hmoved.trans hhost).head
    (hkept.trans (host_kept (hno q.clock (by omega) (by omega)) q.gpio).1) hheld
  obtain ⟨htaken, hgot⟩ := Passage.take_cons hheld'
  have htake : ((readBits sched (List.finRange 8).reverse 0 p).2.accesses sched
      [.digitalWrite pinSob true, .digitalWrite pinSob false]).gpio.toPi = _ := (sob_falls sched hsob).1
  dsimp only
  rw [htake]
  exact ⟨hgot.trans (by rw [hhost.got, hmoved.got]), htaken ▸ hrest⟩

theorem readFifoByte_accesses (sched : Schedule) (p : PiSide) :
    ∃ ops, (readFifoByte sched p).2 = p.accesses sched ops ∧
      ∀ op ∈ ops, ∀ pin out, op ≠ .pinMode pin out := by
  obtain ⟨polls, hpolls⟩ := waitDor_accesses sched 3 (readAtOnce sched p).2
  rw [readAtOnce_accesses, ← accesses_append] at hpolls
  refine ⟨_, hpolls, ?_⟩
  rintro op hop pin out rfl
  simp at hop

theorem readFifoByte_later (sched : Schedule) (p : PiSide) :
    Later sched p (readFifoByte sched p).2 := by
  obtain ⟨ops, hops, -⟩ := readFifoByte_accesses sched p
  rw [hops]
  exact accesses_later sched p ops

/-- A call leaves the pins as it found them, and puts nothing. -/
theorem readFifoByte_kept (sched : Schedule) (h : SetUp p.gpio) :
    SetUp (readFifoByte sched p).2.gpio ∧
      (readFifoByte sched p).2.gpio.toCpc.put = p.gpio.toCpc.put := by
  obtain ⟨hsetup, hput⟩ := readAtOnce_kept sched h
  obtain ⟨hout, hlevel, hmoved⟩ := waitDor_kept sched 3 (readAtOnce sched p).2
  refine ⟨hsetup.of_pins hout ?_, hmoved.put.trans hput⟩
  exact ⟨congrFun hlevel _, (congrFun hlevel _).trans hsetup.low.2.1, congrFun hlevel _⟩

/-- A call that found a byte gets it, if there is no reset. -/
theorem readFifoByte_spec (sched : Schedule) (h : SetUp p.gpio)
    (hno : Undisturbed sched p.clock (readFifoByte sched p).2.clock) {v : BYTE} {rest : List BYTE}
    (hheld : p.gpio.toPi.held = v :: rest) :
    (readFifoByte sched p).1 = v.toNat ∧
      (readFifoByte sched p).2.gpio.toPi.got = p.gpio.toPi.got ++ [v] ∧
      rest <+: (readFifoByte sched p).2.gpio.toPi.held := by
  have hlater : Later sched (readAtOnce sched p).2 (readFifoByte sched p).2 := by
    obtain ⟨polls, hpolls⟩ := waitDor_accesses sched 3 (readAtOnce sched p).2
    rw [readFifoByte, hpolls]
    exact accesses_later sched _ _
  have hclock := readAtOnce_clock sched p
  obtain ⟨hval, hgot, hrest⟩ := readAtOnce_spec sched h (hno.mono le_rfl hlater.clock) hheld
  have hmoved : CpcMoved (readAtOnce sched p).2.gpio (readFifoByte sched p).2.gpio :=
    (waitDor_kept sched 3 (readAtOnce sched p).2).2.2
  have hkept := (hlater.kept (hno.mono (by omega) le_rfl)).1
  exact ⟨hval, hmoved.got.trans hgot, hrest.trans (hkept.held hmoved.got)⟩

/-- Where nothing changes the mode of a pin, the data pins stay inputs. -/
theorem read_no_contention (h : SetUp p.gpio) (hmodes : ∀ op ∈ ops, ∀ pin out, op ≠ .pinMode pin out)
    (k : ℕ) : ¬ (p.accesses sched (ops.take k)).gpio.Contention := by
  rintro ⟨-, i, hi⟩
  rw [(accesses_pins sched p _).1, output_kept, h.inputs] at hi
  · cases hi
  · intro op hop
    exact hmodes op (List.mem_of_mem_take hop) _

/-! ## Between the calls -/

theorem setupPins_spec (sched : Schedule) (p : PiSide) : SetUp (p.accesses sched setupPins).gpio := by
  obtain ⟨hout, hlevel⟩ := accesses_pins sched p setupPins
  have hrest : ∀ i, ∀ op ∈ setupPins.drop 8, op.target ≠ dataPin i := by decide
  constructor
  · intro i
    rw [hout, show setupPins = (List.finRange 8).map (fun i => .pinMode (dataPin i) false) ++
      setupPins.drop 8 from rfl, List.foldl_append, output_untouched (hrest i)]
    exact pinModes_output (List.mem_finRange i) _
  · rw [hout]
    exact ⟨rfl, rfl, rfl⟩
  · rw [hlevel]
    exact ⟨rfl, rfl, rfl⟩

/-- Reading a status pin. -/
theorem poll_kept (sched : Schedule) (h : SetUp p.gpio) {pin : ℕ} (hquiet : (PinOp.digitalRead pin).Quiet) :
    SetUp (p.access sched (.digitalRead pin)).2.gpio ∧
      CpcMoved p.gpio (p.access sched (.digitalRead pin)).2.gpio := by
  obtain ⟨hout, hlevel⟩ := access_pins sched p (.digitalRead pin)
  refine ⟨h.of_pins hout ?_, access_moved sched p hquiet⟩
  rw [hlevel]
  exact ⟨rfl, h.low.2.1, rfl⟩

/-- Before the pins were set up: nothing has gone through the FIFOs, and no output is high. -/
structure PowerUp (g : Gpio) : Prop where
  toPi : g.toPi.put = []
  toCpc : g.toCpc.put = []
  low : ∀ pin, g.level pin = false

theorem access_low {op : PinOp} (sched : Schedule) (h : ∀ pin, op ≠ .digitalWrite pin true)
    (hlow : ∀ pin, p.gpio.level pin = false) :
    CpcMoved p.gpio (p.access sched op).2.gpio ∧ ∀ pin, (p.access sched op).2.gpio.level pin = false := by
  refine ⟨access_moved_of sched op (fun he => absurd he (h _)) fun _ => hlow _, fun pin => ?_⟩
  rw [(access_pins sched p op).2]
  cases op with
  | pinMode | digitalRead => exact hlow pin
  | digitalWrite pin' high =>
    cases high with
    | true => exact absurd rfl (h pin')
    | false =>
      rw [levelAfter, Function.update_apply]
      split_ifs
      · rfl
      · exact hlow pin

/-- Setting the pins up moves no byte. -/
theorem setupPins_moved (sched : Schedule) (p : PiSide) (hlow : ∀ pin, p.gpio.level pin = false) :
    CpcMoved p.gpio (p.accesses sched setupPins).gpio := by
  have hlist : ∀ op ∈ setupPins, ∀ pin, op ≠ .digitalWrite pin true := by
    rintro op hop pin rfl
    simp [setupPins] at hop
  generalize setupPins = ops at hlist
  induction ops generalizing p with
  | nil => exact .refl _
  | cons op ops ih =>
    rw [List.forall_mem_cons] at hlist
    obtain ⟨hmoved, hlow'⟩ := access_low sched hlist.1 hlow
    exact hmoved.trans (ih _ hlow' hlist.2)

/-- After `setup_pins` no byte has been read or written. -/
theorem PowerUp.start {g : Gpio} (h : PowerUp g) (sched : Schedule) :
    (PiSide.accesses sched ⟨g, 0⟩ setupPins).gpio.toPi.got = [] ∧
      (PiSide.accesses sched ⟨g, 0⟩ setupPins).gpio.toCpc.put = [] := by
  have hmoved := setupPins_moved sched ⟨g, 0⟩ h.low
  refine ⟨hmoved.got.trans ?_, hmoved.put.trans h.toCpc⟩
  exact (Passage.nil_of_put h.toPi).1

theorem poll_dor (sched : Schedule) (p : PiSide) :
    (p.access sched (.digitalRead pinDor)).1 =
      (p.access sched (.digitalRead pinDor)).2.gpio.toPi.hasSome := rfl

theorem poll_dir (sched : Schedule) (p : PiSide) :
    (p.access sched (.digitalRead pinDir)).1 =
      (p.access sched (.digitalRead pinDir)).2.gpio.toCpc.hasRoom := rfl

/-- There is room when the CPC has just taken a byte. -/
theorem poll_dir_take (sched : Schedule) (p : PiSide) (h : .take ∈ (sched p.clock).host) :
    (p.access sched (.digitalRead pinDir)).1 = true := host_room h p.gpio

/-! ## One call, one byte -/

/-- **`write_fifo_byte`.**  While `write_fifo_byte` runs no net is driven from both ends.
    Whatever the CPC does meanwhile, a reset included, the byte is put exactly once when
    there was room, the other FIFO is left alone, and the pins are as before. -/
theorem write_one_byte (sched : Schedule) (h : SetUp p.gpio) (hroom : p.gpio.toCpc.hasRoom = true)
    (txdata : BYTE) :
    (∀ k, ¬ (p.accesses sched ((writeFifoByte txdata).take k)).gpio.Contention) ∧
      SetUp (p.accesses sched (writeFifoByte txdata)).gpio ∧
      (p.accesses sched (writeFifoByte txdata)).gpio.toCpc.put = p.gpio.toCpc.put ++ [txdata] ∧
      (p.accesses sched (writeFifoByte txdata)).gpio.toPi.got = p.gpio.toPi.got :=
  ⟨write_no_contention h txdata, writeFifoByte_spec sched h hroom txdata⟩

/-- A letter, to a CPC that reads all the time and resets the FIFOs once during the call. -/
theorem write_one_byte_letter :
    (((PiSide.accesses (fun t => ⟨[if t = 30 then .reset else .take], 0⟩) ⟨.reset, 0⟩
      setupPins).accesses (fun t => ⟨[if t = 30 then .reset else .take], 0⟩)
        (writeFifoByte 65)).gpio.toCpc.put) = [65] :=
  (write_one_byte (fun t => ⟨[if t = 30 then .reset else .take], 0⟩) (setupPins_spec _ _) rfl
    65).2.2.1

/-- **`read_fifo_byte`.**  Whatever the CPC does while `read_fifo_byte` runs, no net is
    driven from both ends, nothing is put, and the pins are as before.  Unless the CPC resets
    the FIFOs meanwhile, the call returns the byte that was in front, and exactly this byte
    has left the FIFO. -/
theorem read_one_byte (sched : Schedule) (h : SetUp p.gpio) :
    (∃ ops, (readFifoByte sched p).2 = p.accesses sched ops ∧
        ∀ k, ¬ (p.accesses sched (ops.take k)).gpio.Contention) ∧
      SetUp (readFifoByte sched p).2.gpio ∧
      (readFifoByte sched p).2.gpio.toCpc.put = p.gpio.toCpc.put ∧
      (Undisturbed sched p.clock (readFifoByte sched p).2.clock →
        ∀ v rest, p.gpio.toPi.held = v :: rest →
          (readFifoByte sched p).1 = v.toNat ∧
          (readFifoByte sched p).2.gpio.toPi.got = p.gpio.toPi.got ++ [v] ∧
          rest <+: (readFifoByte sched p).2.gpio.toPi.held) := by
  obtain ⟨ops, hops, hmodes⟩ := readFifoByte_accesses sched p
  obtain ⟨hsetup, hput⟩ := readFifoByte_kept sched h
  exact ⟨⟨ops, hops, read_no_contention h hmodes⟩, hsetup, hput,
    fun hno v rest hheld => readFifoByte_spec sched h hno hheld⟩

/-- A CPC that sends one letter, and then another one all the time. -/
def sender : Schedule := fun t => ⟨[.put (if t = 0 then 65 else 66)], 0⟩

/-- The first letter, from a full FIFO. -/
theorem read_one_byte_letter :
    (readFifoByte sender (PiSide.accesses sender ⟨.reset, 0⟩ setupPins)).1 = 65 ∧
    (readFifoByte sender (PiSide.accesses sender ⟨.reset, 0⟩ setupPins)).2.gpio.toPi.got = [65] := by
  have hheld : (PiSide.accesses sender ⟨.reset, 0⟩ setupPins).gpio.toPi.held =
      65 :: List.replicate 15 66 := by decide
  obtain ⟨hval, hgot, -⟩ := (read_one_byte sender (setupPins_spec _ ⟨.reset, 0⟩)).2.2.2
    (fun t _ _ h => by cases List.mem_singleton.1 h) 65 _ hheld
  exact ⟨hval, hgot⟩

end

end CpcLink
