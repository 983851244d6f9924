/-
  The interface board between the CPC and the Raspberry Pi: the address decoder, as it
  is programmed into a CPLD (cpld_fifo.v) and as it is wired up from gates
  (cpc_fifo_sn74.v), and the two FIFOs behind it.

  A line whose name ends in `B` is active low.  A byte that goes into a FIFO is taken to
  be at its output at once.  What a line of the data bus shows when nothing drives it is
  left open (`floating`).
-/
import Mathlib.Data.BitVec
import CpcLink.Client

namespace CpcLink

/-- The lines of the CPC that the decoder looks at. -/
structure Lines where
  a : BitVec 16
  ioreqB : Bool
  wrB : Bool
  rdB : Bool

/-- What the decoder drives. -/
structure Decoded where
  /-- shift in, for the FIFO to the Pi -/
  fifoSi : Bool
  /-- shift out, for the FIFO to the CPC -/
  fifoSob : Bool
  /-- that FIFO drives the data bus -/
  fifoOeb : Bool
  /-- reset of both -/
  fifoReset : Bool
  /-- the flags are on the data bus -/
  fifoStatusOe : Bool

/-- The line that tells the two ports apart. -/
def lowestLine (a : BitVec 16) : Bool := a[0]

structure BusDecoder where
  decode : Lines → Decoded
  /-- the data bus when the flags are on it -/
  status : Bool → Bool → BYTE → BYTE

/-! ## The CPLD -/

/-- `{6'b0, fifo_host_dir, fifo_host_dor}` -/
def statusByte (fifoHostDir fifoHostDor : Bool) : BYTE :=
  UInt8.ofNat (2 * fifoHostDir.toNat + fifoHostDor.toNat)

/-- `a4` to `a1` are left out. -/
def cpldAddress (a : BitVec 16) : BitVec 16 :=
  BitVec.ofBoolListBE [a[15], a[14], a[13], a[12], a[11], a[10], a[9], a[8], a[7], a[6], a[5],
    false, false, false, false, a[0]]

/-- The outputs, by the two address lines that the module decodes. -/
def cpldOutputs (l : Lines) (fifoDataAdrB fifoStatusAdrB : Bool) : Decoded :=
  let fifoStatusOeb := l.rdB || l.ioreqB || fifoStatusAdrB
  let fifoSob := !(l.rdB || l.ioreqB || fifoDataAdrB)
  { fifoSi := !(l.wrB || l.ioreqB || fifoDataAdrB)
    fifoSob := fifoSob
    fifoOeb := !fifoSob
    fifoReset := !(l.wrB || l.ioreqB || fifoStatusAdrB)
    fifoStatusOe := !fifoStatusOeb }

/-- `cpld_fifo` -/
def cpldFifo : BusDecoder where
  decode l := cpldOutputs l (!(cpldAddress l.a == 0xFD80#16)) (!(cpldAddress l.a == 0xFD81#16))
  status fifoHostDir fifoHostDor _ := statusByte fifoHostDir fifoHostDor

/-! ## Gates -/

def nand8 (i0 i1 i2 i3 i4 i5 i6 i7 : Bool) : Bool := !(i0 && i1 && i2 && i3 && i4 && i5 && i6 && i7)
def or3 (i0 i1 i2 : Bool) : Bool := i0 || i1 || i2
def nor3 (i0 i1 i2 : Bool) : Bool := !(i0 || i1 || i2)

/-- `{decode_fd_b, address[9], address[6:0]}` -/
def nand8Lines (a : BitVec 16) : List Bool :=
  let address := cpldAddress a
  let decodeFdB := nand8 address[15] address[14] address[13] address[12] address[11] address[10]
    address[8] address[7]
  [decodeFdB, address[9], address[6], address[5], address[4], address[3], address[2], address[1],
    address[0]]

/-- `cpld_fifo` with `NAND8_D` -/
def cpldFifoNand8 : BusDecoder where
  decode l :=
    let low := nand8Lines l.a
    cpldOutputs l (!(low == [false, false, false, false, false, false, false, false, false]))
      (!(low == [false, false, false, false, false, false, false, false, true]))
  status := cpldFifo.status

/-- The line `n2`. -/
def sn74N2 (a : BitVec 16) (ioreqB : Bool) : Bool :=
  let n1 := nand8 a[15] a[14] a[13] a[12] a[11] a[7] a[8] a[10]
  let n3 := or3 n1 a[3] a[9]
  let n4 := or3 a[4] a[5] a[6]
  or3 ioreqB n4 n3

/-- `cpc_fifo` of cpc_fifo_sn74.v: the SN7430 `u_0`, the SN74HCT4075 `u_1` and the two
    SN7427 `u_3` and `u_4`.  The SN74126 `u_2` drives the two flags, and no other line. -/
def cpcFifoSn74 : BusDecoder where
  decode l :=
    let n2 := sn74N2 l.a l.ioreqB
    let a0 := lowestLine l.a
    let a0B := nor3 a0 a0 a0
    let hostFifoSob := nor3 n2 a0 l.rdB
    { fifoSi := nor3 l.wrB n2 a0
      fifoSob := hostFifoSob
      fifoOeb := nor3 hostFifoSob hostFifoSob hostFifoSob
      fifoReset := nor3 n2 l.wrB a0B
      fifoStatusOe := nor3 a0B n2 l.rdB }
  status fifoHostDir fifoHostDor floating :=
    floating &&& 0xFC ||| statusByte fifoHostDir fifoHostDor

/-! ## The FIFOs -/

namespace Fifo

/-- The flag of the FIFO: it has a byte. -/
def dor (f : Fifo) : Bool := !f.bytes.isEmpty

/-- Its output. -/
def out (f : Fifo) (floating : BYTE) : BYTE := f.bytes.headD floating

end Fifo

structure Board where
  /-- `FIFO0_0` and `FIFO0_1` -/
  toPi : Fifo
  /-- `FIFO1_0` and `FIFO1_1` -/
  toCpc : Fifo
  /-- the lines, as they are now -/
  lines : Lines

namespace Board

/-- The lines change, with a byte on the data bus.  A byte goes in when `SI` rises, and the
    next one comes to the output when `SOB` falls. -/
def drive (d : BusDecoder) (data : BYTE) (b : Board) (l : Lines) : Board :=
  let old := d.decode b.lines
  let new := d.decode l
  { toPi := if new.fifoReset then .empty else if !old.fifoSi && new.fifoSi then b.toPi.write data
      else b.toPi
    toCpc := if new.fifoReset then .empty else if old.fifoSob && !new.fifoSob then b.toCpc.rest
      else b.toCpc
    lines := l }

/-- What the board puts on the data bus, if anything. -/
def dataBus (d : BusDecoder) (floating : BYTE) (b : Board) : Option BYTE :=
  let now := d.decode b.lines
  if now.fifoOeb = false then some (b.toCpc.out floating)
  else if now.fifoStatusOe then some (d.status b.toPi.dir b.toCpc.dor floating)
  else none

end Board

/-! ## Cycles of the CPC -/

inductive Cycle where
  | ioWrite (port : UInt16) (v : BYTE)
  | ioRead (port : UInt16)
  | memoryWrite (address : UInt16) (v : BYTE)
  | memoryRead (address : UInt16)
  | interrupt (address : UInt16)

namespace Cycle

/-- No strobe is active. -/
def idle (address : UInt16) : Lines := ⟨address.toBitVec, true, true, true⟩

def address : Cycle → UInt16
  | ioWrite address _ | ioRead address | memoryWrite address _ | memoryRead address |
    interrupt address => address

/-- The lines until the strobes are active. -/
def opens : Cycle → List Lines
  | ioWrite port _ => [idle port, ⟨port.toBitVec, false, true, true⟩,
      ⟨port.toBitVec, false, false, true⟩]
  | ioRead port => [idle port, ⟨port.toBitVec, false, true, true⟩, ⟨port.toBitVec, false, true, false⟩]
  | memoryWrite address _ => [idle address, ⟨address.toBitVec, true, false, true⟩]
  | memoryRead address => [idle address, ⟨address.toBitVec, true, true, false⟩]
  | interrupt address => [idle address, ⟨address.toBitVec, false, true, true⟩]

/-- What the CPC puts on the data bus. -/
def data (floating : BYTE) : Cycle → BYTE
  | ioWrite _ v | memoryWrite _ v => v
  | ioRead _ | memoryRead _ | interrupt _ => floating

/-- A whole cycle.  The CPC takes what is on the bus before it ends. -/
def run (d : BusDecoder) (floating : BYTE) (c : Cycle) (b : Board) : Option BYTE × Board :=
  let active := c.opens.foldl (Board.drive d (c.data floating)) b
  (active.dataBus d floating, active.drive d (c.data floating) (idle c.address))

end Cycle

/-- What happens to the board. -/
inductive BoardEvent where
  | cycle (c : Cycle) (floating : BYTE)
  /-- the Pi takes a byte -/
  | take
  /-- the Pi puts a byte -/
  | put (v : BYTE)

/-- The board after it, and what was on the data bus at the end of a cycle. -/
def boardStep (d : BusDecoder) (b : Board) : BoardEvent → Option BYTE × Board
  | .cycle c floating => c.run d floating b
  | .take => (none, { b with toPi := b.toPi.rest })
  | .put v => (none, { b with toCpc := b.toCpc.write v })

def boardRun (d : BusDecoder) : Board → List BoardEvent → List (Option BYTE) × Board
  | b, [] => ([], b)
  | b, e :: events =>
    let r := boardStep d b e
    let rs := boardRun d r.2 events
    (r.1 :: rs.1, rs.2)

end CpcLink
