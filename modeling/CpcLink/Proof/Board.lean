/-
  What do the two decoders make of the lines of the CPC?

  Both select the board by some of the address lines, and tell its two ports apart by the
  lowest one (`Decodes`).  They select different ports (`decoders_agree`).  Behind a
  decoder, cycle after cycle is what a device with two ports does (`board_refines`).
-/
import Mathlib.Tactic.IntervalCases
import Mathlib.Tactic.Tauto
import CpcLink.Board

namespace CpcLink

/-! ## The ports -/

/-- The outputs of a decoder that selects the board at some addresses. -/
def portDecoded (selected : BitVec 16 → Bool) (l : Lines) : Decoded :=
  let write := selected l.a && !l.ioreqB && !l.wrB
  let read := selected l.a && !l.ioreqB && !l.rdB
  { fifoSi := write && !lowestLine l.a
    fifoSob := read && !lowestLine l.a
    fifoOeb := !(read && !lowestLine l.a)
    fifoReset := write && lowestLine l.a
    fifoStatusOe := read && lowestLine l.a }

def Decodes (d : BusDecoder) (selected : BitVec 16 → Bool) : Prop :=
  ∀ l, d.decode l = portDecoded selected l

/-- `&FD80` to `&FD9F` -/
def cpldSelected (a : BitVec 16) : Bool := a &&& 0xFFE0#16 == 0xFD80#16

/-- `&FD80` to `&FD87` -/
def sn74Selected (a : BitVec 16) : Bool := a &&& 0xFFF8#16 == 0xFD80#16

theorem masked_eq_iff (a mask v : BitVec 16) :
    a &&& mask = v ↔ ∀ i : Fin 16, (a[i] && mask[i]) = v[i] := by
  constructor
  · rintro rfl i
    simp
  · intro h
    ext i hi
    simpa using h ⟨i, hi⟩

theorem cpldAddress_eq (a : BitVec 16) : cpldAddress a = a &&& 0xFFE1#16 := by
  ext i hi
  rw [← BitVec.getLsbD_eq_getElem, cpldAddress, BitVec.getLsbD_ofBoolListBE]
  interval_cases i <;> simp

theorem cpldData_iff (a : BitVec 16) :
    cpldAddress a = 0xFD80#16 ↔ cpldSelected a = true ∧ lowestLine a = false := by
  rw [cpldAddress_eq, cpldSelected, beq_iff_eq, masked_eq_iff, masked_eq_iff]
  simp [Fin.forall_fin_succ, lowestLine]
  tauto

theorem cpldStatus_iff (a : BitVec 16) :
    cpldAddress a = 0xFD81#16 ↔ cpldSelected a = true ∧ lowestLine a = true := by
  rw [cpldAddress_eq, cpldSelected, beq_iff_eq, masked_eq_iff, masked_eq_iff]
  simp [Fin.forall_fin_succ, lowestLine]
  tauto

theorem cpldOutputs_eq (l : Lines) (selected : BitVec 16 → Bool) :
    cpldOutputs l (!(selected l.a && !lowestLine l.a)) (!(selected l.a && lowestLine l.a)) =
      portDecoded selected l := by
  simp only [cpldOutputs, portDecoded]
  cases selected l.a <;> cases lowestLine l.a <;> cases l.ioreqB <;> cases l.wrB <;> cases l.rdB <;> rfl

theorem cpldFifo_decodes : Decodes cpldFifo cpldSelected := by
  intro l
  have hdata : (cpldAddress l.a == 0xFD80#16) = (cpldSelected l.a && !lowestLine l.a) := by
    rw [Bool.eq_iff_iff]
    simpa using cpldData_iff l.a
  have hstatus : (cpldAddress l.a == 0xFD81#16) = (cpldSelected l.a && lowestLine l.a) := by
    rw [Bool.eq_iff_iff]
    simpa using cpldStatus_iff l.a
  rw [cpldFifo]
  dsimp only
  rw [hdata, hstatus, cpldOutputs_eq]

/-- The nine lines behind the gate, with the lowest one `v`, are the address of a port. -/
theorem nand8_iff (a : BitVec 16) (v : Bool) :
    nand8Lines a = [false, false, false, false, false, false, false, false, v] ↔
    cpldSelected a = true ∧ lowestLine a = v := by
  rw [nand8Lines, cpldAddress_eq, cpldSelected, beq_iff_eq, masked_eq_iff]
  simp [Fin.forall_fin_succ, nand8, lowestLine]
  tauto

theorem cpldFifoNand8_decodes : Decodes cpldFifoNand8 cpldSelected := by
  intro l
  rw [← cpldOutputs_eq, cpldFifoNand8]
  dsimp only
  congr 2
  · rw [Bool.eq_iff_iff, beq_iff_eq, nand8_iff]
    simp
  · rw [Bool.eq_iff_iff, beq_iff_eq, nand8_iff]
    simp

/-- The line `n2` of the gates. -/
theorem sn74_n2 (a : BitVec 16) (ioreqB : Bool) :
    sn74N2 a ioreqB = !(sn74Selected a && !ioreqB) := by
  have hselected : sn74Selected a = !sn74N2 a false := by
    rw [Bool.eq_iff_iff, sn74Selected, beq_iff_eq, masked_eq_iff]
    simp [Fin.forall_fin_succ, sn74N2, nand8, or3]
    tauto
  cases ioreqB with
  | false => rw [hselected, Bool.not_false, Bool.and_true, Bool.not_not]
  | true => simp [sn74N2, or3]

theorem cpcFifoSn74_decodes : Decodes cpcFifoSn74 sn74Selected := by
  intro l
  rw [cpcFifoSn74]
  dsimp only
  rw [sn74_n2, portDecoded]
  cases sn74Selected l.a <;> cases lowestLine l.a <;> cases l.ioreqB <;> cases l.wrB <;> cases l.rdB <;> rfl

theorem sn74Selected_eq (a : BitVec 16) :
    sn74Selected a = (cpldSelected a && (a &&& 0x18#16 == 0#16)) := by
  rw [Bool.eq_iff_iff, Bool.and_eq_true, sn74Selected, cpldSelected, beq_iff_eq, beq_iff_eq,
    beq_iff_eq, masked_eq_iff, masked_eq_iff, masked_eq_iff]
  simp [Fin.forall_fin_succ]
  tauto

/-- Nothing is driven. -/
def released : Decoded := ⟨false, false, true, false, false⟩

theorem flags_kept (floating v : BYTE) : (floating &&& 0xFC ||| v) &&& 3 = v &&& 3 := by
  rw [← UInt8.toBitVec_inj]
  ext i hi
  interval_cases i <;> simp

/-- **The two decoders.**  They agree on the ports of which `a3` and `a4` are low; of the
    others of the CPLD the gates know nothing.  On both the two flags are the same bits. -/
theorem decoders_agree :
    (∀ l, cpldFifoNand8.decode l = cpldFifo.decode l) ∧
      (∀ l, cpcFifoSn74.decode l = if l.a &&& 0x18#16 = 0#16 then cpldFifo.decode l else released) ∧
      ∀ dir dor floating, cpcFifoSn74.status dir dor floating &&& 3 =
        cpldFifo.status dir dor floating &&& 3 := by
  refine ⟨fun l => ?_, fun l => ?_, fun dir dor floating => ?_⟩
  · rw [cpldFifoNand8_decodes, cpldFifo_decodes]
  · rw [cpcFifoSn74_decodes, cpldFifo_decodes, portDecoded, sn74Selected_eq]
    split
    · next h => simp [h, portDecoded]
    · next h => simp [beq_eq_false_iff_ne.2 h, released]
  · exact flags_kept floating (statusByte dir dor)

/-! ## Cycles -/

/-- The board, without its lines. -/
structure Ports where
  toPi : Fifo
  toCpc : Fifo

/-- A device with a data port at the even addresses and a status port at the odd ones. -/
def portStep (d : BusDecoder) (selected : BitVec 16 → Bool) (s : Ports) :
    BoardEvent → Option BYTE × Ports
  | .cycle (.ioWrite port v) _ =>
    if selected port.toBitVec then
      if lowestLine port.toBitVec then (none, ⟨.empty, .empty⟩)
      else (none, { s with toPi := s.toPi.write v })
    else (none, s)
  | .cycle (.ioRead port) floating =>
    if selected port.toBitVec then
      if lowestLine port.toBitVec then (some (d.status s.toPi.dir s.toCpc.dor floating), s)
      else (some (s.toCpc.out floating), { s with toCpc := s.toCpc.rest })
    else (none, s)
  | .cycle (.memoryWrite _ _) _ | .cycle (.memoryRead _) _ | .cycle (.interrupt _) _ => (none, s)
  | .take => (none, { s with toPi := s.toPi.rest })
  | .put v => (none, { s with toCpc := s.toCpc.write v })

def portRun (d : BusDecoder) (selected : BitVec 16 → Bool) : Ports → List BoardEvent →
    List (Option BYTE) × Ports
  | s, [] => ([], s)
  | s, e :: events =>
    let r := portStep d selected s e
    let rs := portRun d selected r.2 events
    (r.1 :: rs.1, rs.2)

/-- No strobe is active. -/
def Board.Idle (b : Board) : Prop :=
  b.lines.ioreqB = true ∧ b.lines.wrB = true ∧ b.lines.rdB = true

instance (b : Board) : Decidable b.Idle := inferInstanceAs (Decidable (_ ∧ _ ∧ _))

def Board.ports (b : Board) : Ports := ⟨b.toPi, b.toCpc⟩

section
variable {d : BusDecoder} {selected : BitVec 16 → Bool} {b : Board} {floating : BYTE}

/-- **A cycle is an access to a port.** -/
theorem cycle_refines (hd : Decodes d selected) (hidle : b.Idle) (c : Cycle) :
    (c.run d floating b).1 = (portStep d selected b.ports (.cycle c floating)).1 ∧
      (c.run d floating b).2.ports = (portStep d selected b.ports (.cycle c floating)).2 ∧
      (c.run d floating b).2.Idle := by
  obtain ⟨hioreq, -, -⟩ := hidle
  have hdecode : ∀ l, d.decode l = portDecoded selected l := hd
  cases c with
  | ioWrite port v =>
    cases hs : selected port.toBitVec <;> cases ha : lowestLine port.toBitVec <;>
      simp [Cycle.run, Cycle.opens, Cycle.idle, Cycle.address, Cycle.data, Board.drive,
        Board.dataBus, Board.ports, Board.Idle, portStep, portDecoded, hdecode, hs, ha, hioreq]
  | ioRead port =>
    cases hs : selected port.toBitVec <;> cases ha : lowestLine port.toBitVec <;>
      simp [Cycle.run, Cycle.opens, Cycle.idle, Cycle.address, Board.drive, Board.dataBus,
        Board.ports, Board.Idle, portStep, portDecoded, hdecode, hs, ha, hioreq]
  | memoryWrite address v | memoryRead address | interrupt address =>
    simp [Cycle.run, Cycle.opens, Cycle.idle, Cycle.address, Board.drive, Board.dataBus,
      Board.ports, Board.Idle, portStep, portDecoded, hdecode, hioreq]

/-- One thing that happens to the board. -/
theorem boardStep_refines (hd : Decodes d selected) (hidle : b.Idle) (e : BoardEvent) :
    (boardStep d b e).1 = (portStep d selected b.ports e).1 ∧
      (boardStep d b e).2.ports = (portStep d selected b.ports e).2 ∧ (boardStep d b e).2.Idle := by
  cases e with
  | cycle c floating => exact cycle_refines hd hidle c
  | take | put => exact ⟨rfl, rfl, hidle⟩

theorem boardRun_refines (hd : Decodes d selected) (events : List BoardEvent) (hidle : b.Idle) :
    (boardRun d b events).1 = (portRun d selected b.ports events).1 ∧
      (boardRun d b events).2.ports = (portRun d selected b.ports events).2 ∧
      (boardRun d b events).2.Idle := by
  induction events generalizing b with
  | nil => exact ⟨rfl, rfl, hidle⟩
  | cons e events ih =>
    obtain ⟨hvalue, hports, hidle'⟩ := boardStep_refines hd hidle e
    obtain ⟨hvalues, hrest, hend⟩ := ih hidle'
    rw [boardRun, portRun]
    dsimp only
    rw [hvalue, hvalues, hrest, hports]
    exact ⟨rfl, rfl, hend⟩

/-- The board drives the data bus when it is read, either from the FIFO or with the flags. -/
theorem Decodes.drives (hd : Decodes d selected) (l : Lines) :
    ((d.decode l).fifoOeb = false ↔ selected l.a = true ∧ l.ioreqB = false ∧ l.rdB = false ∧
        lowestLine l.a = false) ∧
      ((d.decode l).fifoStatusOe = true ↔ selected l.a = true ∧ l.ioreqB = false ∧ l.rdB = false ∧
        lowestLine l.a = true) := by
  rw [hd, portDecoded]
  simp [and_assoc]

end

/-- The decoders there are. -/
inductive Version where
  | cpld | cpldNand8 | sn74

def Version.decoder : Version → BusDecoder
  | cpld => cpldFifo
  | cpldNand8 => cpldFifoNand8
  | sn74 => cpcFifoSn74

def Version.selected : Version → BitVec 16 → Bool
  | cpld | cpldNand8 => cpldSelected
  | sn74 => sn74Selected

theorem Version.decodes (v : Version) : Decodes v.decoder v.selected := by
  cases v with
  | cpld => exact cpldFifo_decodes
  | cpldNand8 => exact cpldFifoNand8_decodes
  | sn74 => exact cpcFifoSn74_decodes

/-- **The board is a device with two ports**, whatever cycles come, and whatever the Pi does
    between them.  Its two outputs never drive the data bus together, and neither does
    unless the board is read. -/
theorem board_refines (v : Version) (b : Board) (hidle : b.Idle) (events : List BoardEvent) :
    ((boardRun v.decoder b events).1 = (portRun v.decoder v.selected b.ports events).1 ∧
      (boardRun v.decoder b events).2.ports = (portRun v.decoder v.selected b.ports events).2 ∧
      (boardRun v.decoder b events).2.Idle) ∧
    ∀ l, ((v.decoder.decode l).fifoOeb = false → (v.decoder.decode l).fifoStatusOe = false) ∧
      ((v.decoder.decode l).fifoOeb = false ∨ (v.decoder.decode l).fifoStatusOe = true →
        v.selected l.a = true ∧ l.ioreqB = false ∧ l.rdB = false) := by
  refine ⟨boardRun_refines v.decodes events hidle, fun l => ?_⟩
  obtain ⟨hfifo, hflags⟩ := v.decodes.drives l
  constructor
  · intro hoeb
    rw [← Bool.not_eq_true, hflags, (hfifo.1 hoeb).2.2.2]
    simp
  · rintro (hoeb | hoe)
    · obtain ⟨hs, hioreq, hrd, -⟩ := hfifo.1 hoeb
      exact ⟨hs, hioreq, hrd⟩
    · obtain ⟨hs, hioreq, hrd, -⟩ := hflags.1 hoe
      exact ⟨hs, hioreq, hrd⟩

/-- An instance: a byte to the Pi and one back, at an address that only the CPLD knows. -/
theorem board_refines_alias :
    let b : Board := ⟨.empty, .empty, Cycle.idle 0⟩
    let events : List BoardEvent := [.cycle (.ioWrite 0xFD88 7) 0, .put 9, .cycle (.ioRead 0xFD89) 0,
      .cycle (.ioRead 0xFD88) 0, .take]
    (boardRun Version.cpld.decoder b events).1 = [none, none, some 3, some 9, none] ∧
      (boardRun Version.sn74.decoder b events).1 = [none, none, none, none, none] := by
  intro b events
  have hidle : b.Idle := by decide
  obtain ⟨⟨hcpld, -⟩, -⟩ := board_refines .cpld b hidle events
  obtain ⟨⟨hsn74, -⟩, -⟩ := board_refines .sn74 b hidle events
  rw [hcpld, hsn74]
  decide

end CpcLink
