/-
  The program that sends the loader and a game to the CPC (examples/bootstrap/rpi_c/
  bootstrap.c), one round of its loops after the other.

  The files are what `fread` has put into the arrays.
-/
import CpcLink.Gpio

namespace CpcLink.Bootstrap

/-- `LOADER_LEN` -/
def loaderLen : ℕ := 45
/-- `BIN_LOAD_ADDR` -/
def binLoadAddr : ℕ := 0x4000
/-- `BIN_ENTRY_ADDR` -/
def binEntryAddr : ℕ := 0x4025
/-- `BIN_LEN` -/
def binLen : ℕ := 0x4380

/-- The arrays `loader` and `binary`. -/
structure Files where
  loader : ℕ → BYTE
  binary : ℕ → BYTE

/-- `header` -/
def header : List BYTE :=
  [byte (binLen &&& 0xff : ℕ), byte (binLen >>> 8 &&& 0xff : ℕ), byte (binLoadAddr &&& 0xff : ℕ),
    byte (binLoadAddr >>> 8 &&& 0xff : ℕ)]

/-- The entry address. -/
def entry : List BYTE := [byte (binEntryAddr &&& 0xff : ℕ), byte (binEntryAddr >>> 8 &&& 0xff : ℕ)]

/-- What is handed to `fifo_send_byte`. -/
def upload (files : Files) : List BYTE :=
  (List.range loaderLen).map files.loader ++ header ++ (List.range binLen).map files.binary ++ entry

/-- The loop that the program is in. -/
inductive Phase where
  /-- `while ( digitalRead(PIN_DOR) )` -/
  | flushing
  /-- `while ( digitalRead(PIN_DIR) )` -/
  | toppingUp
  /-- `while ( !digitalRead(PIN_DIR)){}` before the upload -/
  | waiting
  /-- `fifo_send_byte` of the first of these bytes -/
  | sending (rest : List BYTE)
  deriving DecidableEq

/-- Where the program is, and the pins. -/
structure Boot where
  phase : Phase
  pi : PiSide

/-- A round of the loop.  `read_fifo_byte` does not wait for `DOR` here. -/
def step (sched : Schedule) (files : Files) (s : Boot) : Boot :=
  match s.phase with
  | .flushing =>
    let dor := s.pi.access sched (.digitalRead pinDor)
    if dor.1 then ⟨.flushing, (readAtOnce sched dor.2).2⟩ else ⟨.toppingUp, dor.2⟩
  | .toppingUp =>
    let dir := s.pi.access sched (.digitalRead pinDir)
    if dir.1 then ⟨.toppingUp, dir.2.accesses sched (writeFifoByte 0xe5)⟩ else ⟨.waiting, dir.2⟩
  | .waiting =>
    let dir := s.pi.access sched (.digitalRead pinDir)
    if dir.1 then ⟨.sending (upload files), dir.2⟩ else ⟨.waiting, dir.2⟩
  | .sending [] => s
  | .sending (c :: rest) =>
    let dir := s.pi.access sched (.digitalRead pinDir)
    if dir.1 then ⟨.sending rest, dir.2.accesses sched (writeFifoByte c)⟩
    else ⟨.sending (c :: rest), dir.2⟩

/-- The state after some rounds. -/
def after (sched : Schedule) (files : Files) (gpio : Gpio) : ℕ → Boot
  | 0 => ⟨.flushing, PiSide.accesses sched ⟨gpio, 0⟩ setupPins⟩
  | n + 1 => step sched files (after sched files gpio n)

end CpcLink.Bootstrap
