/-
  The commands that the FIFO library adds to BASIC (fiforsx.s, not as a ROM).

  An address is the place of an instruction or of a byte of data in the listing.
  BASIC passes the number of parameters in `a`, and `ix` is the address of the
  last one; the others are in front of it, so they have higher addresses.
-/
import CpcLink.Lib.Z80

namespace CpcLink.Fiforsx

open Z80 Z80.Instr

/-! ## Constants -/

/-- `FIFO_STATUS` -/
def fifoStatus : UInt16 := 0xFD81
/-- `FIFO_DATA` -/
def fifoData : UInt16 := 0xFD80
/-- `FIFO_DIR` -/
def fifoDir : UInt8 := 2
/-- `FIFO_DOR` -/
def fifoDor : UInt8 := 1
/-- `TXT_OUTPUT`, in the firmware -/
def txtOutput : UInt16 := 0xBB5A

/-! ## Labels -/

/-- `|FIFOPUTC,c`: a byte, once there is room -/
def fifoPutc : UInt16 := 0
/-- `|FIFOGETC,@c`: the next byte -/
def fifoGetc : UInt16 := 5
/-- `|FIFOPUTS,@A$`: the bytes of a string -/
def fifoPuts : UInt16 := 13
/-- `FPS1`: the loop over them -/
def fps1 : UInt16 := 27
/-- `PERROR`: the number of parameters is wrong -/
def perror : UInt16 := 37
/-- `PMSG`: the text for it -/
def pmsg : UInt16 := 38
/-- `|FIFOGETS,@A$,n`: the next `n` bytes, for a string -/
def fifoGets : UInt16 := 61
/-- `FGS1`: the loop over them -/
def fgs1 : UInt16 := 76
/-- `|FIFOOUTC,c%,@n%`: a byte, if there is room -/
def fifoOutc : UInt16 := 86
/-- `|FIFOINC,@c%,@n%`: a byte, if there is one -/
def fifoInc : UInt16 := 96
/-- `FIOC1`: it was moved -/
def fioc1 : UInt16 := 106
/-- `FIOC`: whether it was goes to `n%` -/
def fioc : UInt16 := 107
/-- `|FIFORST` -/
def fifoRst : UInt16 := 111
/-- `SPRINT`: print the text behind the call -/
def sprint : UInt16 := 114
/-- `SPLOOP`: a letter of it -/
def spLoop : UInt16 := 115
/-- `SPEND`: go on behind it -/
def spEnd : UInt16 := 121
/-- `_FIFO_PUT_BYTE`: the byte in `l`, once there is room -/
def fifoPutByte : UInt16 := 123
/-- `FPB_LOOP`: a look at `FIFO_DIR` -/
def fpbLoop : UInt16 := 124
/-- `_FIFO_GET_BYTE`: the next byte, in `l` -/
def fifoGetByte : UInt16 := 130
/-- `FGB_LOOP`: a look at `FIFO_DOR` -/
def fgbLoop : UInt16 := 131
/-- `VDUPARMS`: the number of parameters of each VDU command -/
def vduParms : UInt16 := 137
/-- `|VDU,n,...`: a VDU command with its parameters -/
def vdu : UInt16 := 169
/-- `VDU_L1`: not 25 -/
def vduL1 : UInt16 := 185
/-- `VDU_L2`: not 29 either -/
def vduL2 : UInt16 := 190
/-- `VDU_L3`: nor 127 -/
def vduL3 : UInt16 := 195
/-- `VDU_L4`: below 32, so its row of the table is read -/
def vduL4 : UInt16 := 250
/-- `VDU_L5`: there are as many parameters -/
def vduL5 : UInt16 := 261
/-- `VDU_L6`: the loop over the command and its parameters -/
def vduL6 : UInt16 := 262
/-- `|PLOT,k,x,y` -/
def plot : UInt16 := 274
/-- `VDU25` is the same. -/
def vdu25 : UInt16 := plot
/-- `|ORIGIN,x,y` -/
def origin : UInt16 := 280
/-- `VDU29` is the same. -/
def vdu29 : UInt16 := origin
/-- `VDU_2INT_PARAMS`: the byte in `l`, and two words -/
def vdu2IntParams : UInt16 := 283

/-! ## The listing -/

/-- The instructions and the data; a comment names the label of the next one. -/
def program : Program := [
  -- FIFOPUTC
  cp 1,
  jrNz perror,
  ldIx .l 0,
  call fifoPutByte,
  ret,
  -- FIFOGETC
  cp 1,
  jrNz perror,
  call fifoGetByte,
  ldReg .a .l,
  ldIx .h 1,
  ldIx .l 0,
  ldToHl .a,
  ret,
  -- FIFOPUTS
  cp 1,
  jrNz perror,
  ldIx .h 1,
  ldIx .l 0,
  ldHl .a,
  .and 0xff,
  retZ,
  incPair .hl,
  ldHl .e,
  incPair .hl,
  ldHl .d,
  exDeHl,
  ldReg .e .a,
  ldPair .bc fifoStatus,
  -- FPS1
  inPort .a,
  .and fifoDir,
  jrZ fps1,
  dec .c,
  inc .b,
  outi,
  inc .c,
  dec .e,
  jrNz fps1,
  ret,
  -- PERROR
  call sprint,
  -- PMSG
  -- "RSX PARAMETER ERROR"
  db 82, db 83, db 88, db 32, db 80, db 65, db 82, db 65,
  db 77, db 69, db 84, db 69, db 82, db 32, db 69, db 82,
  db 82, db 79, db 82, db 13, db 10, db 0,
  ret,
  -- FIFOGETS
  cp 2,
  jrNz perror,
  ldIx .a 0,
  .and 0xff,
  retZ,
  ldIx .h 3,
  ldIx .l 2,
  ldToHl .a,
  incPair .hl,
  ldHl .e,
  incPair .hl,
  ldHl .d,
  exDeHl,
  ldReg .e .a,
  ldPair .bc fifoStatus,
  -- FGS1
  inPort .a,
  rra,
  jrNc fgs1,
  dec .c,
  ini,
  inc .b,
  inc .c,
  dec .e,
  jrNz fgs1,
  ret,
  -- FIFOOUTC
  cp 2,
  jrNz perror,
  ldPair .bc fifoStatus,
  inPort .a,
  .and fifoDir,
  jrZ fioc,
  dec .c,
  ldIx .a 2,
  outPort .a,
  jr fioc1,
  -- FIFOINC
  cp 2,
  jrNz perror,
  ldPair .bc fifoStatus,
  inPort .a,
  .and fifoDor,
  jrZ fioc,
  dec .c,
  ldIx .h 3,
  ldIx .l 2,
  ini,
  -- FIOC1
  ldNum .a 1,
  -- FIOC
  ldIx .h 1,
  ldIx .l 0,
  ldToHl .a,
  ret,
  -- FIFORST
  ldNum .a 0xfd,
  outNum 0x81,
  ret,
  -- SPRINT
  pop .hl,
  -- SPLOOP
  ldHl .a,
  .or .a,
  jrZ spEnd,
  call txtOutput,
  incPair .hl,
  jr spLoop,
  -- SPEND
  incPair .hl,
  jpHl,
  -- _FIFO_PUT_BYTE
  ldPair .bc fifoStatus,
  -- FPB_LOOP
  inPort .a,
  .and 0x2,
  jrZ fpbLoop,
  dec .c,
  outPort .l,
  ret,
  -- _FIFO_GET_BYTE
  ldPair .bc fifoStatus,
  -- FGB_LOOP
  inPort .a,
  .and 0x1,
  jrZ fgbLoop,
  dec .c,
  inPort .l,
  ret,
  -- VDUPARMS
  db 0, db 1, db 0, db 0, db 0, db 0, db 0, db 0,
  db 0, db 0, db 0, db 0, db 0, db 0, db 0, db 0,
  db 0, db 1, db 2, db 5, db 0, db 0, db 1, db 9,
  db 8, db 5, db 0, db 0, db 4, db 4, db 0, db 2,
  -- VDU
  cp 0,
  jpZ perror,
  ldReg .e .a,
  pushIx,
  pop .hl,
  dec .a,
  sla .a,
  ldNum .b 0,
  ldReg .c .a,
  addHl .bc,
  ldHl .a,
  cp 25,
  jrNz vduL1,
  ldReg .a .e,
  dec .a,
  jp vdu25,
  -- VDU_L1
  cp 29,
  jrNz vduL2,
  ldReg .a .e,
  dec .a,
  jp vdu29,
  -- VDU_L2
  cp 127,
  jrNz vduL3,
  ldReg .l .a,
  call fifoPutByte,
  ret,
  -- VDU_L3
  cp 32,
  jrC vduL4,
  call sprint,
  -- "ERROR - Only VDU commands 0-31 and 127 are valid"
  db 69, db 82, db 82, db 79, db 82, db 32, db 45, db 32,
  db 79, db 110, db 108, db 121, db 32, db 86, db 68, db 85,
  db 32, db 99, db 111, db 109, db 109, db 97, db 110, db 100,
  db 115, db 32, db 48, db 45, db 51, db 49, db 32, db 97,
  db 110, db 100, db 32, db 49, db 50, db 55, db 32, db 97,
  db 114, db 101, db 32, db 118, db 97, db 108, db 105, db 100,
  db 13, db 10, db 0,
  ret,
  -- VDU_L4
  push .hl,
  ldNum .b 0,
  ldReg .c .a,
  ldPair .hl vduParms,
  addHl .bc,
  ldHl .a,
  inc .a,
  cpReg .e,
  jpZ vduL5,
  pop .hl,
  jp perror,
  -- VDU_L5
  pop .hl,
  -- VDU_L6
  ldPair .bc fifoStatus,
  inPort .a,
  .and fifoDir,
  jrZ vduL6,
  dec .c,
  ldHl .a,
  outPort .a,
  decPair .hl,
  decPair .hl,
  dec .e,
  jrNz vduL6,
  ret,
  -- PLOT
  -- VDU25
  cp 3,
  jpNz perror,
  ldNum .l 25,
  call fifoPutByte,
  ldIx .l 4,
  jr vdu2IntParams,
  -- ORIGIN
  -- VDU29
  cp 2,
  jpNz perror,
  ldNum .l 29,
  -- VDU_2INT_PARAMS
  call fifoPutByte,
  ldIx .l 2,
  call fifoPutByte,
  ldIx .l 3,
  call fifoPutByte,
  ldIx .l 0,
  call fifoPutByte,
  ldIx .l 1,
  call fifoPutByte,
  ret]

end CpcLink.Fiforsx
