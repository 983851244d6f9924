/-
  The loader that a line of BASIC gets from the interface (bootloader.s, and the line in
  bootstrap.c):

    FOR I=110 TO 170: POKE I,INP(&FD80): NEXT: CALL 126

  The first 16 bytes flush the FIFO.  The loader then takes the length of a program, its
  address, the program and the address of its first instruction.
-/
import CpcLink.Lib.Z80Stored
import CpcLink.Machine

namespace CpcLink.Bootloader

open Z80

/-- `LOADER_LEN` -/
def loaderLen : ℕ := 45

/-- `org 126` -/
def origin : UInt16 := 126

/-! ## Labels -/

def onemore : UInt16 := 136
def gethl : UInt16 := 151
def getbyte : UInt16 := 160

/-! ## The listing -/

/-- bootloader.s, each instruction with its address and the address of the next one -/
def listing : List (UInt16 × Coded × UInt16) := [
  (126, .plain (.ldPair .bc 0xfd81), 129),
  (129, .call gethl, 132),
  (132, .plain .exDeHl, 133),
  (133, .call gethl, 136),
  -- onemore
  (136, .call getbyte, 139),
  (139, .plain (.ldToHl .a), 140),
  (140, .plain (.incPair .hl), 141),
  (141, .plain (.decPair .de), 142),
  (142, .plain (.ldReg .a .d), 143),
  (143, .plain (.or .e), 144),
  (144, .jrNz onemore, 146),
  (146, .call gethl, 149),
  (149, .push .hl, 150),
  (150, .ret, 151),
  -- gethl
  (151, .call getbyte, 154),
  (154, .plain (.ldReg .l .a), 155),
  (155, .call getbyte, 158),
  (158, .plain (.ldReg .h .a), 159),
  (159, .ret, 160),
  -- getbyte
  (160, .plain (.inPort .a), 162),
  (162, .plain .rra, 163),
  (163, .jrNc getbyte, 165),
  (165, .plain (.dec .c), 166),
  (166, .plain (.inPort .a), 168),
  (168, .plain (.inc .c), 169),
  (169, .ret, 170),
  (170, .nop, 171)]

/-- Its bytes, as far as they are loaded (`loader`) -/
def loader : List BYTE := [
  0x01, 0x81, 0xfd,
  0xcd, 0x97, 0x00,
  0xeb,
  0xcd, 0x97, 0x00,
  0xcd, 0xa0, 0x00,
  0x77,
  0x23,
  0x1b,
  0x7a,
  0xb3,
  0x20, 0xf6,
  0xcd, 0x97, 0x00,
  0xe5,
  0xc9,
  0xcd, 0xa0, 0x00,
  0x6f,
  0xcd, 0xa0, 0x00,
  0x67,
  0xc9,
  0xed, 0x78,
  0x1f,
  0x30, 0xfb,
  0x0d,
  0xed, 0x78,
  0x0c,
  0xc9,
  0x00]

/-- `FOR I=110 TO 170: POKE I,INP(&FD80): NEXT` -/
def poked (mem : UInt16 → BYTE) (bytes : List BYTE) : UInt16 → BYTE := storeFrom mem 110 bytes

end CpcLink.Bootloader
