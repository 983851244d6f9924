/-
  How the Pi writes and reads a byte, pin by pin (commonlib/rpi_c/fifolib.h, fifolib.c,
  with the pins of later Pis), over the wires of the board (LS_0 and LS_1 of cpc_fifo.v).

  Between two pins the CPC may put bytes into its FIFO, take bytes out of the other one, and
  reset both.  What a line shows that nothing drives is left open (`floating`).
-/
import CpcLink.Board
import CpcLink.Lib.Passage

namespace CpcLink

/-! ## Wires -/

/-- The nets of the board on the side of the Pi. -/
inductive Net where
  | sd (i : Fin 8)
  | slaveFifoSi | slaveFifoDir | slaveFifoSob | slaveFifoDor | slaveFifoWnr
  deriving DecidableEq, Repr

/-- `PI_GPIO_02` to `PI_GPIO_24`, behind the level shifters. -/
def netOf : ℕ → Option Net
  | 24 => some .slaveFifoWnr
  | 23 => some .slaveFifoDor
  | 22 => some .slaveFifoSob
  | 18 => some .slaveFifoSi
  | 17 => some .slaveFifoDir
  | 11 => some (.sd 7)
  | 10 => some (.sd 6)
  | 9 => some (.sd 5)
  | 8 => some (.sd 4)
  | 7 => some (.sd 3)
  | 4 => some (.sd 2)
  | 3 => some (.sd 1)
  | 2 => some (.sd 0)
  | _ => none

/-- `DATA`: `PIN_D0` to `PIN_D7` -/
def dataPin (i : Fin 8) : ℕ :=
  match i with
  | 0 => 2 | 1 => 3 | 2 => 4 | 3 => 7 | 4 => 8 | 5 => 9 | 6 => 10 | 7 => 11

/-- `PIN_SI` -/
def pinSi : ℕ := 18
/-- `PIN_DIR` -/
def pinDir : ℕ := 17
/-- `PIN_SOB` -/
def pinSob : ℕ := 22
/-- `PIN_DOR` -/
def pinDor : ℕ := 23
/-- `PIN_WNR` -/
def pinWnr : ℕ := 24

/-! ## The pins and the FIFOs -/

/-- The pins, and the two FIFOs with what has gone through them. -/
structure Gpio where
  output : ℕ → Bool
  level : ℕ → Bool
  toPi : Passage BYTE fifoSize
  toCpc : Passage BYTE fifoSize

/-- Nothing has happened yet. -/
def Gpio.reset : Gpio where
  output := fun _ => false
  level := fun _ => false
  toPi := .new
  toCpc := .new

/-- What the CPC does: it writes to the data port or reads from it, or it writes to the
    status port (`host_fifo_reset`). -/
inductive HostEvent where
  | put (v : BYTE)
  | take
  | reset
  deriving DecidableEq

/-- What happens before the Pi comes to a pin, and what the open lines show then. -/
structure Moment where
  host : List HostEvent
  floating : BYTE

inductive PinOp where
  | pinMode (pin : ℕ) (output : Bool)
  | digitalWrite (pin : ℕ) (high : Bool)
  | digitalRead (pin : ℕ)

def PinOp.target : PinOp → ℕ
  | pinMode pin _ | digitalWrite pin _ | digitalRead pin => pin

/-- `WNR` is high: the pins drive the nets `sd`, and not the other way round. -/
def Gpio.writes (g : Gpio) : Bool := g.output pinWnr && g.level pinWnr

/-- A net that both sides drive. -/
def Gpio.Contention (g : Gpio) : Prop := g.writes = false ∧ ∃ i, g.output (dataPin i) = true

/-- What is on the net `sd i`. -/
def Gpio.sd (g : Gpio) (floating : BYTE) (i : Fin 8) : Bool :=
  if g.writes then
    if g.output (dataPin i) then g.level (dataPin i) else floating.toNat.testBit i
  else (g.toPi.held.headD floating).toNat.testBit i

/-- The byte on the nets `sd`. -/
def Gpio.sdByte (g : Gpio) (floating : BYTE) : BYTE :=
  UInt8.ofNat (Nat.ofBits (g.sd floating))

def Gpio.host (g : Gpio) : HostEvent → Gpio
  | .put v => { g with toPi := g.toPi.write v }
  | .take => { g with toCpc := g.toCpc.take }
  | .reset => { g with toPi := g.toPi.clear, toCpc := g.toCpc.clear }

/-- The output of a pin changes.  A byte goes into the FIFO to the CPC when `SI` rises, and
    leaves the one to the Pi when `SOB` falls. -/
def Gpio.digitalWrite (g : Gpio) (floating : BYTE) (pin : ℕ) (high : Bool) : Gpio :=
  { g with
    level := Function.update g.level pin high
    toCpc := if netOf pin = some .slaveFifoSi ∧ g.output pin ∧ g.level pin = false ∧ high then
      g.toCpc.write (g.sdByte floating) else g.toCpc
    toPi := if netOf pin = some .slaveFifoSob ∧ g.output pin ∧ g.level pin ∧ high = false then
      g.toPi.take else g.toPi }

def Gpio.digitalRead (g : Gpio) (floating : BYTE) (pin : ℕ) : Bool :=
  match netOf pin with
  | some .slaveFifoDir => g.toCpc.hasRoom
  | some .slaveFifoDor => g.toPi.hasSome
  | some (.sd i) => g.sd floating i
  | _ => g.level pin

/-- One access to a pin, and what was read. -/
def Gpio.pin (g : Gpio) (moment : Moment) (op : PinOp) : Bool × Gpio :=
  let g := moment.host.foldl Gpio.host g
  match op with
  | .pinMode pin output => (false, { g with output := Function.update g.output pin output })
  | .digitalWrite pin high => (false, g.digitalWrite moment.floating pin high)
  | .digitalRead pin => (g.digitalRead moment.floating pin, g)

/-! ## Programs -/

/-- The pins, and how many accesses there have been. -/
structure PiSide where
  gpio : Gpio
  clock : ℕ

/-- What goes on around the Pi: a moment for every access. -/
abbrev Schedule := ℕ → Moment

def PiSide.access (sched : Schedule) (p : PiSide) (op : PinOp) : Bool × PiSide :=
  let r := p.gpio.pin (sched p.clock) op
  (r.1, ⟨r.2, p.clock + 1⟩)

/-- One access after the other, without looking at what is read. -/
def PiSide.accesses (sched : Schedule) (p : PiSide) (ops : List PinOp) : PiSide :=
  ops.foldl (fun p op => (p.access sched op).2) p

/-- The accesses of `setup_pins`. -/
def setupPins : List PinOp :=
  ((List.finRange 8).map fun i => .pinMode (dataPin i) false) ++
    [.pinMode pinDir false, .pinMode pinDor false, .pinMode pinSi true, .digitalWrite pinSi false,
      .pinMode pinSob true, .digitalWrite pinSob false, .pinMode pinWnr true,
      .digitalWrite pinWnr false]

/-- The loop of `write_fifo_byte` over the pins, which shifts `txdata` down. -/
def writeBits (txdata : BYTE) : List (Fin 8) → List PinOp
  | [] => []
  | i :: pins =>
    .pinMode (dataPin i) true :: .digitalWrite (dataPin i) (txdata &&& 1 != 0) ::
      writeBits (txdata >>> 1) pins

/-- The accesses of `write_fifo_byte`. -/
def writeFifoByte (txdata : BYTE) : List PinOp :=
  .digitalWrite pinWnr true :: writeBits txdata (List.finRange 8) ++
    [.digitalWrite pinSi true, .digitalWrite pinSi false] ++
    ((List.finRange 8).map fun i => .pinMode (dataPin i) false) ++ [.digitalWrite pinWnr false]

/-- The loop of `read_fifo_byte` over the pins. -/
def readBits (sched : Schedule) : List (Fin 8) → ℕ → PiSide → ℕ × PiSide
  | [], rval, p => (rval, p)
  | i :: pins, rval, p =>
    let r := p.access sched (.digitalRead (dataPin i))
    readBits sched pins (rval * 2 + r.1.toNat) r.2

/-- The loop that waits for `DOR` to fall. -/
def waitDor (sched : Schedule) : ℕ → PiSide → PiSide
  | timeout, p =>
    let r := p.access sched (.digitalRead pinDor)
    match timeout with
    | 0 => r.2
    | timeout + 1 => if r.1 then waitDor sched timeout r.2 else r.2

/-- A byte is read, and taken with `SOB`. -/
def readAtOnce (sched : Schedule) (p : PiSide) : ℕ × PiSide :=
  let r := readBits sched (List.finRange 8).reverse 0 p
  (r.1, r.2.accesses sched [.digitalWrite pinSob true, .digitalWrite pinSob false])

/-- `read_fifo_byte`, as an `int` -/
def readFifoByte (sched : Schedule) (p : PiSide) : ℕ × PiSide :=
  let r := readAtOnce sched p
  (r.1, waitDor sched 3 r.2)

end CpcLink
