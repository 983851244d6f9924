/-
  The program that sends every byte back (examples/loopback/rpi_c/loopback.c), on the pins.

  The dump of the first bytes on the screen is left out.
-/
import CpcLink.Gpio

namespace CpcLink

/-- `QUEUE_SZ` -/
def loopbackQueueSz : ℕ := 8192

/-- The variables of the program, and the pins. -/
structure Loopback where
  queue : ℤ → BYTE
  rptr : ℤ
  wptr : ℤ
  pi : PiSide

namespace Loopback

/-- `if (GET_DOR)` -/
def receive (sched : Schedule) (s : Loopback) : Loopback :=
  let dor := s.pi.access sched (.digitalRead pinDor)
  if dor.1 then
    let r := readFifoByte sched dor.2
    { s with
      queue := Function.update s.queue s.rptr (UInt8.ofNat r.1)
      rptr := (s.rptr + 1).tmod loopbackQueueSz
      pi := r.2 }
  else { s with pi := dor.2 }

/-- `if ( (wptr!=rptr) && GET_DIR)` -/
def send (sched : Schedule) (s : Loopback) : Loopback :=
  if s.wptr ≠ s.rptr then
    let dir := s.pi.access sched (.digitalRead pinDir)
    if dir.1 then
      { s with
        wptr := (s.wptr + 1).tmod loopbackQueueSz
        pi := dir.2.accesses sched (writeFifoByte (s.queue s.wptr)) }
    else { s with pi := dir.2 }
  else s

/-- One round of the loop. -/
def round (sched : Schedule) (s : Loopback) : Loopback := (s.receive sched).send sched

/-- Where the loop starts. -/
def start (sched : Schedule) (gpio : Gpio) : Loopback where
  queue := fun _ => 0
  rptr := 0
  wptr := 0
  pi := PiSide.accesses sched ⟨gpio, 0⟩ setupPins

/-- The state after some rounds. -/
def after (sched : Schedule) (gpio : Gpio) : ℕ → Loopback
  | 0 => start sched gpio
  | n + 1 => (after sched gpio n).round sched

end Loopback

end CpcLink
