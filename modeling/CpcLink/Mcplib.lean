/-
  How the CPC sends and receives a packet (mcplib.s, fifolib_slim.s).

  An address is the place of an instruction in the listing.  The packet type is
  in `e`.  For `SendPacket` the words at `ix + 2` and `ix + 4` are the length and
  the address of the buffer.  The receiving commands have the addresses of the
  error and of the length at `ix` and `ix + 4`, whether to print at `ix + 2`, and
  the address of the buffer at `ix + 6`.
-/
import CpcLink.Lib.Z80

namespace CpcLink.Mcplib

open Z80 Z80.Instr

/-! ## Constants -/

/-- `PACKET_OVERHEAD` -/
def packetOverhead : UInt8 := 3
/-- `DELIMITER_SIZE` -/
def delimiterSize : UInt8 := 3
/-- `FRONT_PACKET_OVERHEAD` -/
def frontPacketOverhead : UInt8 := 6
/-- `BUFFER_MAX_SIZE_HI` -/
def bufferMaxSizeHi : UInt8 := 0x10
/-- `TEXTCOMMAND` -/
def textCommand : UInt8 := 1
/-- `BINARYCOMMAND` -/
def binaryCommand : UInt8 := 2
/-- `BINARYDATA` -/
def binaryData : UInt8 := 3
/-- `FW_PrintChar`, in the firmware: printing is not followed any further. -/
def fwPrintChar : UInt16 := 0xBB5A
/-- `FIFO_STATUS` -/
def fifoStatus : UInt16 := 0xFD81
/-- `FIFO_DATA` -/
def fifoData : UInt16 := 0xFD80
/-- `FIFO_DIR` -/
def fifoDir : UInt8 := 2
/-- `FIFO_DOR` -/
def fifoDor : UInt8 := 1

/-! ## Labels -/

/-- `SendPacket` -/
def sendPacket : UInt16 := 0
/-- `inc_again`: the overhead is added to the length of the buffer -/
def incAgain : UInt16 := 7
/-- `SkipAddingNewLine`: only a text command gets one -/
def skipAddingNewLine : UInt16 := 14
/-- `LoopSendNextByte`: the loop over the buffer -/
def loopSendNextByte : UInt16 := 24
/-- `WriteTerminator` -/
def writeTerminator : UInt16 := 41
/-- `SendByte`: the byte in `d`, tried until there is room -/
def sendByte : UInt16 := 46
/-- `_fifo_out_byte`: the byte in `d`, if there is room -/
def fifoOutByte : UInt16 := 50
/-- `ReceiveTextCommandResponse` -/
def receiveTextCommandResponse : UInt16 := 58
/-- `ReceiveBinaryCommandResponse` -/
def receiveBinaryCommandResponse : UInt16 := 64
/-- `ReceiveBinaryData` -/
def receiveBinaryData : UInt16 := 70
/-- `ReceivePacket`: a packet of the type in `e` -/
def receivePacket : UInt16 := 76
/-- `LoopReceiveNextByte`: the loop over the header -/
def loopReceiveNextByte : UInt16 := 79
/-- `dec_again`: the overhead is taken off the size -/
def decAgain : UInt16 := 91
/-- `BufferCheckOK`: the body fits into the buffer -/
def bufferCheckOk : UInt16 := 102
/-- `NextDelimiterByte`: the loop over the `+++` of the header -/
def nextDelimiterByte : UInt16 := 103
/-- `NextBodyByte`: the loop over the body -/
def nextBodyByte : UInt16 := 112
/-- `NextEndDelimiter`: the loop over the `---` -/
def nextEndDelimiter : UInt16 := 122
/-- `DrainPacketFromQueue`: the rest of a packet that is too large -/
def drainPacketFromQueue : UInt16 := 126
/-- `NextLongBodyByte`: the loop over its body -/
def nextLongBodyByte : UInt16 := 128
/-- `NextLongBodyDelimiter`: the loop over its `---` -/
def nextLongBodyDelimiter : UInt16 := 137
/-- `SetBufferLengthParam`: the length of the body is returned -/
def setBufferLengthParam : UInt16 := 141
/-- `CheckPrintReq`: whether the body is printed -/
def checkPrintReq : UInt16 := 147
/-- `ContinuePrint`: a new line, and it is printed -/
def continuePrint : UInt16 := 161
/-- `ReceiveByte`: a byte, tried until there is one -/
def receiveByte : UInt16 := 165
/-- `ParamError`: 1 -/
def paramError : UInt16 := 169
/-- `PacketTypeError`: 2 -/
def packetTypeError : UInt16 := 171
/-- `BadDelimiterError`: 3 -/
def badDelimiterError : UInt16 := 173
/-- `PacketSizeTooLargeError`: 4 -/
def packetSizeTooLargeError : UInt16 := 175
/-- `SetError`: the error is returned -/
def setError : UInt16 := 177
/-- `_fifo_in_byte`: a byte, if there is one -/
def fifoInByte : UInt16 := 183

/-! ## The listing -/

/-- The instructions; a comment names the label of the next one, or what is done. -/
def program : Program := [
  -- SendPacket: write +++
  ldNum .d 43,
  call sendByte,
  call sendByte,
  call sendByte,
  -- write packet size
  ldIx .l 2,
  ldIx .h 3,
  ldNum .a packetOverhead,
  -- inc_again
  incPair .hl,
  dec .a,
  jrNz incAgain,
  ldReg .a .e,
  cp textCommand,
  jrNz skipAddingNewLine,
  incPair .hl,
  -- SkipAddingNewLine
  ldReg .d .l,
  call sendByte,
  ldReg .d .h,
  call sendByte,
  -- write packet type
  ldReg .d .e,
  call sendByte,
  -- write packet body
  ldIx .l 4,
  ldIx .h 5,
  ldIx .c 2,
  ldIx .b 3,
  -- LoopSendNextByte
  ldHl .d,
  push .bc,
  call sendByte,
  pop .bc,
  incPair .hl,
  decPair .bc,
  ldReg .a .c,
  or .a,
  jrNz loopSendNextByte,
  ldReg .a .b,
  or .a,
  jrNz loopSendNextByte,
  ldReg .a .e,
  cp textCommand,
  jrNz writeTerminator,
  ldNum .d 10,
  call sendByte,
  -- WriteTerminator: write ---
  ldNum .d 45,
  call sendByte,
  call sendByte,
  call sendByte,
  ret,
  -- SendByte
  call fifoOutByte,
  dec .a,
  jrNz sendByte,
  ret,
  -- _fifo_out_byte
  ldPair .bc 0xFD81,
  inPort .a,
  and 2,
  retZ,
  dec .c,
  outPort .d,
  ldNum .a 1,
  ret,
  -- ReceiveTextCommandResponse
  cp 4,
  jpNz paramError,
  ldNum .e textCommand,
  call receivePacket,
  call checkPrintReq,
  ret,
  -- ReceiveBinaryCommandResponse
  cp 3,
  jpNz paramError,
  ldNum .e binaryCommand,
  call receivePacket,
  call checkPrintReq,
  ret,
  -- ReceiveBinaryData
  cp 3,
  jpNz paramError,
  ldNum .e binaryData,
  call receivePacket,
  call checkPrintReq,
  ret,
  -- ReceivePacket
  ldIx .l 6,
  ldIx .h 7,
  ldNum .b frontPacketOverhead,
  -- LoopReceiveNextByte
  call receiveByte,
  incPair .hl,
  djnz loopReceiveNextByte,
  -- read packet type
  decPair .hl,
  ldHl .a,
  cpReg .e,
  jpNz packetTypeError,
  -- read packet size
  decPair .hl,
  ldHl .b,
  decPair .hl,
  ldHl .c,
  ldNum .a packetOverhead,
  -- dec_again
  decPair .bc,
  dec .a,
  jrNz decAgain,
  ldReg .a .b,
  cp bufferMaxSizeHi,
  jrC bufferCheckOk,
  call drainPacketFromQueue,
  ldNum .b 0,
  ldNum .c 0,
  call setBufferLengthParam,
  jp packetSizeTooLargeError,
  -- BufferCheckOK: check for +++
  ldNum .d delimiterSize,
  -- NextDelimiterByte
  decPair .hl,
  ldHl .a,
  cp 43,
  jpNz badDelimiterError,
  dec .d,
  jrNz nextDelimiterByte,
  call setBufferLengthParam,
  -- read packet body
  ldIx .l 6,
  ldIx .h 7,
  -- NextBodyByte
  call receiveByte,
  incPair .hl,
  decPair .bc,
  ldReg .a .c,
  or .a,
  jrNz nextBodyByte,
  ldReg .a .b,
  or .a,
  jrNz nextBodyByte,
  -- read ---
  ldNum .b delimiterSize,
  -- NextEndDelimiter
  call receiveByte,
  djnz nextEndDelimiter,
  ldToHlNum 0,
  ret,
  -- DrainPacketFromQueue
  ldIx .l 6,
  ldIx .h 7,
  -- NextLongBodyByte
  call receiveByte,
  decPair .bc,
  ldReg .a .c,
  or .a,
  jrNz nextLongBodyByte,
  ldReg .a .b,
  or .a,
  jrNz nextLongBodyByte,
  ldNum .b delimiterSize,
  -- NextLongBodyDelimiter
  call receiveByte,
  djnz nextLongBodyDelimiter,
  ldToHlNum 0,
  ret,
  -- SetBufferLengthParam
  ldIx .l 4,
  ldIx .h 5,
  ldToHl .c,
  incPair .hl,
  ldToHl .b,
  ret,
  -- CheckPrintReq
  ldIx .a 2,
  cp 1,
  retNz,
  ldIx .l 4,
  ldIx .h 5,
  ldHl .c,
  incPair .hl,
  ldHl .b,
  ldReg .a .c,
  or .a,
  jrNz continuePrint,
  ldReg .a .b,
  or .a,
  retZ,
  -- ContinuePrint
  ldIx .l 6,
  ldIx .h 7,
  ldNum .a 13,
  call fwPrintChar,
  -- ReceiveByte
  call fifoInByte,
  dec .a,
  jrNz receiveByte,
  ret,
  -- ParamError
  ldNum .a 1,
  jr setError,
  -- PacketTypeError
  ldNum .a 2,
  jr setError,
  -- BadDelimiterError
  ldNum .a 3,
  jr setError,
  -- PacketSizeTooLargeError
  ldNum .a 4,
  jr setError,
  -- SetError
  ldIx .l 0,
  ldIx .h 1,
  ldToHl .a,
  incPair .hl,
  ldToHlNum 0,
  ret,
  -- _fifo_in_byte
  ldNum .a 0xFD,
  inNum 0x81,
  and 1,
  retZ,
  ldNum .a 0xFD,
  inNum 0x80,
  ldToHl .a,
  ldNum .a 1,
  ret]

end CpcLink.Mcplib
