/-
  The FIFO library of the loopback tests (fifolib.s).

  An address is the place of an instruction in the listing.  The routines for
  more than one byte find their buffer and the number of bytes on the stack,
  behind the return address.
-/
import CpcLink.Lib.Z80Stack

namespace CpcLink.Fifolib

open Z80 Z80.StackInstr

/-- The status register of the interface. -/
def fifoStatus : UInt16 := 0xFD81
/-- Its data register. -/
def fifoData : UInt16 := 0xFD80

/-! ## Labels -/

/-- `_fifo_reset` -/
def fifoReset : UInt16 := 0
/-- `_fifo_get_dor`: whether there is a byte, in `l` -/
def fifoGetDor : UInt16 := 3
/-- `_fifo_get_dir`: whether there is room, in `l` -/
def fifoGetDir : UInt16 := 8
/-- `_fifo_in_byte`: a byte to the address in `hl`, if there is one -/
def fifoInByte : UInt16 := 14
/-- `fib_end`: `l` says whether there was -/
def fibEnd : UInt16 := 22
/-- `_fifo_get_byte`: the next byte, in `l` -/
def fifoGetByte : UInt16 := 24
/-- `fgb_loop`: a look at `DOR` -/
def fgbLoop : UInt16 := 25
/-- `_fifo_out_byte`: the byte in `l`, if there is room -/
def fifoOutByte : UInt16 := 31
/-- `fob_end`: `l` says whether there was -/
def fobEnd : UInt16 := 38
/-- `_fifo_put_byte`: the byte in `l`, once there is room -/
def fifoPutByte : UInt16 := 40
/-- `fpb_loop`: a look at `DIR` -/
def fpbLoop : UInt16 := 41
/-- `fifo_ext_param`: the parameters, from the stack -/
def fifoExtParam : UInt16 := 47
/-- `fep_get_lowb`: less than 256 bytes -/
def fepGetLowb : UInt16 := 60
/-- `fep_end`: the number is in `a`, 255 for a larger one -/
def fepEnd : UInt16 := 61
/-- `fep_end0`: a negative number is 0 -/
def fepEnd0 : UInt16 := 65
/-- `_fifo_in_bytes`: bytes to the buffer, until none is there -/
def fifoInBytes : UInt16 := 69
/-- `fibs_top4`: the loop, four bytes a round -/
def fibsTop4 : UInt16 := 80
/-- `fibs_top3`: the first round, for three bytes over -/
def fibsTop3 : UInt16 := 88
/-- `fibs_top2`: for two -/
def fibsTop2 : UInt16 := 96
/-- `fibs_top1`: for one -/
def fibsTop1 : UInt16 := 104
/-- `fibs_end`: the number of bytes read is in `l` -/
def fibsEnd : UInt16 := 113
/-- `_fifo_out_bytes`: bytes from the buffer, until there is no room -/
def fifoOutBytes : UInt16 := 117
/-- `fobs_top4`: the loop, four bytes a round -/
def fobsTop4 : UInt16 := 128
/-- `fobs_top3`: the first round, for three bytes over -/
def fobsTop3 : UInt16 := 136
/-- `fobs_top2`: for two -/
def fobsTop2 : UInt16 := 144
/-- `fobs_top1`: for one -/
def fobsTop1 : UInt16 := 152
/-- `fobs_end`: the number of bytes written is in `l` -/
def fobsEnd : UInt16 := 161
/-- `_fifo_in_nc_bytes`: bytes to the buffer, without a look at `DOR` -/
def fifoInNcBytes : UInt16 := 165
/-- `finbs_top4`: the loop, four bytes a round -/
def finbsTop4 : UInt16 := 175
/-- `finbs_top3`: the first round, for three bytes over -/
def finbsTop3 : UInt16 := 178
/-- `finbs_top2`: for two -/
def finbsTop2 : UInt16 := 181
/-- `finbs_top1`: for one -/
def finbsTop1 : UInt16 := 184
/-- `finbs_end`: the number of bytes read is in `l` -/
def finbsEnd : UInt16 := 188
/-- `_fifo_out_nc_bytes`: bytes from the buffer, without a look at `DIR` -/
def fifoOutNcBytes : UInt16 := 192
/-- `fonbs_top4`: the loop, four bytes a round -/
def fonbsTop4 : UInt16 := 202
/-- `fonbs_top3`: the first round, for three bytes over -/
def fonbsTop3 : UInt16 := 205
/-- `fonbs_top2`: for two -/
def fonbsTop2 : UInt16 := 208
/-- `fonbs_top1`: for one -/
def fonbsTop1 : UInt16 := 211
/-- `fonbs_end`: the number of bytes written is in `l` -/
def fonbsEnd : UInt16 := 215

/-! ## The listing -/

/-- The instructions; a comment names the label of the next one. -/
def program : StackProgram := [
  -- _fifo_reset
  plain (.ldNum .a 0xfd),
  plain (.outNum 0x81),
  ret,
  -- _fifo_get_dor
  plain (.ldNum .a 0xfd),
  plain (.inNum 0x81),
  plain (.and 0x1),
  plain (.ldReg .l .a),
  ret,
  -- _fifo_get_dir
  plain (.ldNum .a 0xfd),
  plain (.inNum 0x81),
  plain (.and 0x2),
  plain .rra,
  plain (.ldReg .l .a),
  ret,
  -- _fifo_in_byte
  plain (.ldNum .a 0xfd),
  plain (.inNum 0x81),
  plain (.and 0x1),
  plain (.jrZ fibEnd),
  plain (.ldNum .a 0xfd),
  plain (.inNum 0x80),
  plain (.ldToHl .a),
  plain (.ldNum .a 1),
  -- fib_end
  plain (.ldReg .l .a),
  ret,
  -- _fifo_get_byte
  plain (.ldPair .bc 0xfd81),
  -- fgb_loop
  plain (.inPort .a),
  plain (.and 0x1),
  plain (.jrZ fgbLoop),
  plain (.dec .c),
  plain (.inPort .l),
  ret,
  -- _fifo_out_byte
  plain (.ldPair .bc 0xfd81),
  plain (.inPort .a),
  plain (.and 0x2),
  plain (.jrZ fobEnd),
  plain (.dec .c),
  plain (.outPort .l),
  plain (.ldNum .a 0x1),
  -- fob_end
  plain (.ldReg .l .a),
  ret,
  -- _fifo_put_byte
  plain (.ldPair .bc 0xfd81),
  -- fpb_loop
  plain (.inPort .a),
  plain (.and 0x2),
  plain (.jrZ fpbLoop),
  plain (.dec .c),
  plain (.outPort .l),
  ret,
  -- fifo_ext_param
  pushIx,
  plain (.ldIxNum 6),
  addIxSp,
  plain (.ldPair .bc 0xfd80),
  plain (.ldIx .l 0),
  plain (.ldIx .h 1),
  plain (.ldIx .a 3),
  plain (.and 0xff),
  plain (.jrZ fepGetLowb),
  plain .rla,
  plain (.jrC fepEnd0),
  plain (.ldNum .a 0xff),
  plain (.jr fepEnd),
  -- fep_get_lowb
  plain (.ldIx .a 2),
  -- fep_end
  plain (.ldReg .d .a),
  plain (.ldReg .e .a),
  popIx,
  ret,
  -- fep_end0
  plain (.ldPair .de 0x0000),
  plain (.ldNum .a 0),
  popIx,
  ret,
  -- _fifo_in_bytes
  call fifoExtParam,
  plain (.and 0xFF),
  plain (.jrZ fibsEnd),
  plain (.inc .c),
  plain (.and 0x03),
  plain (.cp 1),
  plain (.jrZ fibsTop1),
  plain (.cp 2),
  plain (.jrZ fibsTop2),
  plain (.cp 3),
  plain (.jrZ fibsTop3),
  -- fibs_top4
  plain (.inPort .a),
  plain .rra,
  plain (.jrNc fibsEnd),
  plain (.dec .c),
  plain .ini,
  plain (.inc .b),
  plain (.inc .c),
  plain (.dec .e),
  -- fibs_top3
  plain (.inPort .a),
  plain .rra,
  plain (.jrNc fibsEnd),
  plain (.dec .c),
  plain .ini,
  plain (.inc .b),
  plain (.inc .c),
  plain (.dec .e),
  -- fibs_top2
  plain (.inPort .a),
  plain .rra,
  plain (.jrNc fibsEnd),
  plain (.dec .c),
  plain .ini,
  plain (.inc .b),
  plain (.inc .c),
  plain (.dec .e),
  -- fibs_top1
  plain (.inPort .a),
  plain .rra,
  plain (.jrNc fibsEnd),
  plain (.dec .c),
  plain .ini,
  plain (.inc .b),
  plain (.inc .c),
  plain (.dec .e),
  plain (.jrNz fibsTop4),
  -- fibs_end
  plain (.ldReg .a .d),
  plain (.sub .e),
  plain (.ldReg .l .a),
  ret,
  -- _fifo_out_bytes
  call fifoExtParam,
  plain (.and 0xFF),
  plain (.jrZ fobsEnd),
  plain (.inc .c),
  plain (.and 0x03),
  plain (.cp 1),
  plain (.jrZ fobsTop1),
  plain (.cp 2),
  plain (.jrZ fobsTop2),
  plain (.cp 3),
  plain (.jrZ fobsTop3),
  -- fobs_top4
  plain (.inPort .a),
  plain (.and 0x2),
  plain (.jrZ fobsEnd),
  plain (.dec .c),
  plain (.inc .b),
  plain .outi,
  plain (.inc .c),
  plain (.dec .e),
  -- fobs_top3
  plain (.inPort .a),
  plain (.and 0x2),
  plain (.jrZ fobsEnd),
  plain (.dec .c),
  plain (.inc .b),
  plain .outi,
  plain (.inc .c),
  plain (.dec .e),
  -- fobs_top2
  plain (.inPort .a),
  plain (.and 0x2),
  plain (.jrZ fobsEnd),
  plain (.dec .c),
  plain (.inc .b),
  plain .outi,
  plain (.inc .c),
  plain (.dec .e),
  -- fobs_top1
  plain (.inPort .a),
  plain (.and 0x2),
  plain (.jrZ fobsEnd),
  plain (.dec .c),
  plain (.inc .b),
  plain .outi,
  plain (.inc .c),
  plain (.dec .e),
  plain (.jrNz fobsTop4),
  -- fobs_end
  plain (.ldReg .a .d),
  plain (.sub .e),
  plain (.ldReg .l .a),
  ret,
  -- _fifo_in_nc_bytes
  call fifoExtParam,
  plain (.and 0xFF),
  plain (.jrZ finbsEnd),
  plain (.and 0x03),
  plain (.cp 1),
  plain (.jrZ finbsTop1),
  plain (.cp 2),
  plain (.jrZ finbsTop2),
  plain (.cp 3),
  plain (.jrZ finbsTop3),
  -- finbs_top4
  plain .ini,
  plain (.inc .b),
  plain (.dec .e),
  -- finbs_top3
  plain .ini,
  plain (.inc .b),
  plain (.dec .e),
  -- finbs_top2
  plain .ini,
  plain (.inc .b),
  plain (.dec .e),
  -- finbs_top1
  plain .ini,
  plain (.inc .b),
  plain (.dec .e),
  plain (.jrNz finbsTop4),
  -- finbs_end
  plain (.ldReg .a .d),
  plain (.sub .e),
  plain (.ldReg .l .a),
  ret,
  -- _fifo_out_nc_bytes
  call fifoExtParam,
  plain (.and 0xFF),
  plain (.jrZ fonbsEnd),
  plain (.and 0x03),
  plain (.cp 1),
  plain (.jrZ fonbsTop1),
  plain (.cp 2),
  plain (.jrZ fonbsTop2),
  plain (.cp 3),
  plain (.jrZ fonbsTop3),
  -- fonbs_top4
  plain (.inc .b),
  plain .outi,
  plain (.dec .e),
  -- fonbs_top3
  plain (.inc .b),
  plain .outi,
  plain (.dec .e),
  -- fonbs_top2
  plain (.inc .b),
  plain .outi,
  plain (.dec .e),
  -- fonbs_top1
  plain (.inc .b),
  plain .outi,
  plain (.dec .e),
  plain (.jrNz fonbsTop4),
  -- fonbs_end
  plain (.ldReg .a .d),
  plain (.sub .e),
  plain (.ldReg .l .a),
  ret]

end CpcLink.Fifolib
