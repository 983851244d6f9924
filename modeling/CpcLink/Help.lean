/-
  The help texts (command_general.c, command_memory.c, command_file.c) and the
  functions that send them.

  A help function gets the out queue and returns whether it is complete, and
  the queue.  Three of them are still to be written: they send nothing and are
  never complete.
-/
import CpcLink.Server

namespace CpcLink

/-- A help function whose text goes out in one piece. -/
def helpText (q : Queue) (response : List BYTE) : Bool × Queue :=
  (true, (writeDataToPacket q response textCommand).2)

/-! ## Basic services -/

/-- Help for an unknown command. -/
def commandUnknownHelp (q : Queue) : Bool × Queue :=
  helpText q (bytes "\rAn UNKNOWN command was entered\r\rTry entering HELP\\n.\n")

/-- Help for `PING`. -/
def commandPingHelp (q : Queue) : Bool × Queue :=
  helpText q (bytes "\rPING\r\rFunction: Used to test pi is responding to CPC commands.\r\rFormat: PING\\n\r\rReturn: PONG!\\n\r\n")

/-- Help for `SHUTDOWN`. -/
def commandShutdownHelp (q : Queue) : Bool × Queue :=
  helpText q (bytes "\rSHUTDOWN\r\rFunction: Command to shutdown the raspberry pi before powering off CPC.\rYou need to wait the number of seconds specified then check the pi is inactive    i.e. red led only on.\r\rFormat: SHUTDOWN\\n\r\rReturn: SHUTDOWN in x seconds\\n\r\n")

/-- Help for `TIME`. -/
def commandTimeHelp (q : Queue) : Bool × Queue :=
  helpText q (bytes "\rTIME\r\rFunction: Returns pi current time.  Will need time on pi to be set e.g. via ntp.\r\rFormat: TIME\\n\r\rReturn: HH:MM:SS\\n\r\n")

/-- Help for `DATE`. -/
def commandDateHelp (q : Queue) : Bool × Queue :=
  helpText q (bytes "\rDATE\r\rFunction: Returns pi current date.  Will need date on pi to be set e.g. via ntp.\r\rFormat: DATE\\n\r\rReturn: DD:MM:YYYY\\n\r\n")

/-- Help for `RESET`. -/
def commandResetHelp (q : Queue) : Bool × Queue :=
  writeOutHelpTextArray q [
    bytes "\rRESET\r\r",
    bytes "Function: Reset MCP data structures, flushes queues, closes files, frees        allocated memory etc.\r\rUse this to bring the MCP back to a clean known state.\r\r",
    bytes "Format: RESET\\n\r\r",
    bytes "Return: OK\\n\r\n"]

/-! The texts around the list of commands in the help of `HELP`. -/

def response1Text : List BYTE := bytes "\rHELP\r\r"
def response2Text : List BYTE := bytes "Function: Provides help on the COMMAND_NAME provided.\r\r"
def response3Text : List BYTE := bytes "Help is available for the following commands:\r\r"
def response4Text : List BYTE := bytes "\r\rFormat: HELP COMMAND_NAME\\n\r\r"
def response5Text : List BYTE := bytes "Return: String of text terminated with \\n\r\n"

/-- The rows of the loops of `command_help_help`, which start at index 1. -/
def listedCommands (defs : List CommandDef) : List (List BYTE × ℕ) :=
  (defs.map (·.commandText)).zipIdx.tail

/-- One round of the loop that lists the commands, seven on a line. -/
def listCommand (q : Queue) (command : List BYTE × ℕ) : Queue :=
  let q := addDataToPacket q command.1
  let q := addDataToPacket q (bytes " ")
  if command.2 % 7 = 0 then addDataToPacket q (bytes "\r") else q

/-- The payload size that `command_help_help` announces, an `int`. -/
def commandTextSize (defs : List CommandDef) : ℤ :=
  let commandTextSize := (listedCommands defs).foldl
    (fun commandTextSize command => wrap32 (commandTextSize + (command.1.length : ℤ) + 1)) 0
  wrap32 (commandTextSize + response1Text.length + response2Text.length + response3Text.length +
    response4Text.length + response5Text.length + ((defs.length : ℤ) - 1) / 7)

/-- `command_help_help` over a table `defs` of `MaxCommands` rows. -/
def commandHelpHelpOf (defs : List CommandDef) (q : Queue) : Bool × Queue :=
  let r := startBuildDataPacket q (commandTextSize defs) textCommand
  if r.1 then
    let q := addDataToPacket r.2 response1Text
    let q := addDataToPacket q response2Text
    let q := addDataToPacket q response3Text
    let q := (listedCommands defs).foldl listCommand q
    let q := addDataToPacket q response4Text
    let q := addDataToPacket q response5Text
    (true, finishBuildDataPacketAndSend q)
  else (false, r.2)

/-- Help for `HELP`. -/
def commandHelpHelp (q : Queue) : Bool × Queue := commandHelpHelpOf commandDefs q

/-- Help for `REBOOT`. -/
def commandRebootHelp (q : Queue) : Bool × Queue :=
  helpText q (bytes "\rREBOOT\r\rFunction: Command to reboot the raspberry pi.\rYou need to wait the number of seconds before the reboot starts.\r\rFormat: REBOOT\\n\r\rReturn: REBOOT PI in x seconds\\n\r\n")

/-- Help for `TRON`. -/
def commandTronHelp (q : Queue) : Bool × Queue :=
  helpText q (bytes "\rTRON\r\rFunction: Turns on debugging information sent to pi console.\r\rFormat: TRON\\n\r\rReturn: OK\\n\r\n")

/-- Help for `TROFF`. -/
def commandTroffHelp (q : Queue) : Bool × Queue :=
  helpText q (bytes "\rTROFF\r\rFunction: Turns off debugging information sent to pi console.\r\rFormat: TROFF\\n\r\rReturn: OK\\n\r\n")

/-- Help for `VERSION`. -/
def commandVersionHelp (q : Queue) : Bool × Queue :=
  helpText q (bytes "\rVERSION\r\rFunction: Returns MCP current build version.\r\rFormat: VERSION\\n\r\rReturn: MCP v0.3\\n\r\n")

/-- Help for `WIFIIP`. -/
def commandWifiIpHelp (q : Queue) : Bool × Queue :=
  helpText q (bytes "\rWIFIIP\r\rFunction: Returns the ip address of the pi's wifi.\r\rFormat: WIFIIP\\n\r\rReturn: WIFI IP_ADDRESS\\n\r\n")

/-- Help for `SHELLEXEC`. -/
def commandShellexecHelp (q : Queue) : Bool × Queue :=
  helpText q (bytes "\rSHELLEXEC\r\rFunction: Calls a command as if run from a shell and returns the shell output.\r\rFormat: SHELLEXEC SHELL_COMMAND\\n\r\rReturn: Text from the shell\\n\r\n")

/-! ## Memory services -/

/-- Help for `CALLOC`. -/
def commandCreateAllocHelp (q : Queue) : Bool × Queue :=
  writeOutHelpTextArray q [
    bytes "\rCALLOC\r\r",
    bytes "Function: API call that Creates an ALLOCation of memory on the pi.\r\r",
    bytes "Format: CALLOC NUM_PAGES PAGE_SIZE\r\r",
    bytes "  Where CALLOC is 1 byte value 21\r",
    bytes "  Where NUM_PAGES is 2 bytes (lo/high) value 1 to 9999\r",
    bytes "  Where PAGE_SIZE is 1 bytes value 1 to 32 (in KB)\r\r",
    bytes "  Example 21 03 00 08 which is allocate 3 pages of 8KB\r\r",
    bytes "Return: CALLOC ALLOC_ID ERROR_NUM\r",
    bytes "  Where CALLOC is 1 byte value 21\r",
    bytes "  Where ALLOC_ID is 1 byte 0 to 20, 0 indicating an error\r",
    bytes "  Where ERROR_NUM is 1 byte, 0 no error, 1 invalid params, 2 pi memory alloc failed\r",
    bytes "  Example 21 01 00  allocation 01 was successful\r",
    bytes "  Example 21 00 02 failed to allocate memory on pi\r\n"]

/-- Help for `FALLOC`. -/
def commandFreeAllocHelp (q : Queue) : Bool × Queue :=
  writeOutHelpTextArray q [
    bytes "\rFALLOC\r\r",
    bytes "Function: API call that frees an ALLOCation of memory on the pi.\r\r",
    bytes "Format: FALLOC ALLOC_ID\r\r",
    bytes "  Where FALLOC is 1 byte value 22\r",
    bytes "  Where ALLOC_ID is 1 bytes value 1 to 20\r\r",
    bytes "  Example 22 01 which is free allocation_id 1\r\r",
    bytes "Return: FALLOC ALLOC_ID ERROR_NUM\r",
    bytes "  Where FALLOC is 1 byte value 22\r",
    bytes "  Where ALLOC_ID is 1 byte 0 to 20, 0 indicating an error, 1 to 20 alloc freed\r",
    bytes "  Where ERROR_NUM is 1 byte, 0 no error, 1 invalid params\r",
    bytes "  Example 22 01 00  allocation 01 was successful freed\r",
    bytes "  Example 22 00 01 invalid parameters (allocation_id)\r\n"]

/-- Help for `RALLOC`. -/
def commandRetrieveAllocHelp (q : Queue) : Bool × Queue :=
  writeOutHelpTextArray q [
    bytes "\rRALLOC\r\r",
    bytes "Function: API call that retrieves a page of data from the ALLOCation of memory on the pi.\r\r",
    bytes "Format: RALLOC ALLOC_ID PAGE_NUMBER\r\r",
    bytes "  Where RALLOC is 1 byte value 23\r",
    bytes "  Where ALLOC_ID is 1 bytes value 1 to 20\r",
    bytes "  Where PAGE_NUMBER is 2 bytes (lo/hi) value 0 to 9999\r\r",
    bytes "  Example 23 01 04 00 which is retrieve page 04 of alloc_id 01 \r\r",
    bytes "Return: RALLOC ALLOC_ID PAGE_NUMBER ERROR_ID\r",
    bytes "  Where RALLOC is 1 byte value 23\r",
    bytes "  Where ALLOC_ID is 1 byte 0 to 20, 0 indicating an error, 1 to 20 alloc_id requested\r",
    bytes "  Where PAGE_NUMBER is 2 bytes (lo/hi) of page requested\r",
    bytes "  Where ERROR_NUM is 1 byte, 0 no error, 1 invalid params\r",
    bytes "  Example 23 01 04 00 00  retrieved alloc_id 01, page 04 with no errors\r",
    bytes "  The next packet will be a BinaryData packet containing the data requested.\r\n"]

/-- Help for `SALLOC`. -/
def commandStoreAllocHelp (q : Queue) : Bool × Queue :=
  writeOutHelpTextArray q [
    bytes "\rSALLOC\r\r",
    bytes "Function: API call that stores a page of data from CPC to the ALLOCation of memory on the pi.\r\r",
    bytes "Format: SALLOC ALLOC_ID PAGE_NUMBER\r\r",
    bytes "  Where SALLOC is 1 byte value 24\r",
    bytes "  Where ALLOC_ID is 1 bytes value 1 to 20\r",
    bytes "  Where PAGE_NUMBER is 2 bytes (lo/hi) value 0 to 9999\r\r",
    bytes "  Example 24 01 04 00 which is store page 04 in alloc_id 01 \r",
    bytes "  The BinaryData to store is expected in the following BinaryData packet following this command.\r\rReturn: SALLOC ALLOC_ID PAGE_NUMBER ERROR_ID\r",
    bytes "  Where SALLOC is 1 byte value 24\r",
    bytes "  Where ALLOC_ID is 1 byte 0 to 20, 0 indicating an error, 1 to 20 alloc_id requested\r",
    bytes "  Where PAGE_NUMBER is 2 bytes (lo/hi) of page requested\r",
    bytes "  Where ERROR_NUM is 1 byte, 0 no error, 1 invalid params\r",
    bytes "  Example 24 01 04 00 00  stored alloc_id 01, page 04 with no errors\r\n"]

/-- Help for `IALLOC`. -/
def commandInsertAllocHelp (q : Queue) : Bool × Queue :=
  writeOutHelpTextArray q [
    bytes "\rIALLOC\r\r",
    bytes "Function: API call that inserts a chunk of data into the memory allocation on the pi.\r\r",
    bytes "Format: IALLOC ALLOC_ID INSERT_AT INSERT_LENGTH \r\r",
    bytes "  Where IALLOC is 1 byte value 25\r",
    bytes "  Where ALLOC_ID is 1 bytes value 1 to 20\r",
    bytes "  Where INSERT_AT is 4 bytes format high16bit(lo/high) low16bit(lo/high) range 0 to sizeof(int)\r",
    bytes "  Where INSERT_LENGTH is 4 bytes format high16bit(lo/high) low16bit(lo/high) range 0 to sizeof(int)\r\r",
    bytes "  Example 25 01 00 00 02 00 00 00 10 00 which is insert at memory position 2, in alloc_id 01, 10 bytes \r",
    bytes "  The BinaryData to insert is expected in the following BinaryData packet following this command.\r\rReturn: IALLOC ALLOC_ID ERROR_ID\r",
    bytes "  Where IALLOC is 1 byte value 25\r",
    bytes "  Where ALLOC_ID is 1 byte 0 to 20, 0 indicating an error, 1 to 20 alloc_id requested\r",
    bytes "  Where ERROR_NUM is 1 byte, 0 no error, 1 invalid params,\r",
    bytes "  2 unable to allocate memory on pi, 3 insert out side allocation memory\r",
    bytes "  Example 25 01 00 inserted the following BinaryData packet data into alloc_id 01 with no errors\r\n"]

/-- Help for `XALLOC`. -/
def commandCutAllocHelp (q : Queue) : Bool × Queue :=
  writeOutHelpTextArray q [
    bytes "\rXALLOC\r\r",
    bytes "Function: API call that cuts a chunk of data from a memory allocation on the pi.\r\r",
    bytes "Format: XALLOC ALLOC_ID CUT_FROM CUT_LENGTH \r\r",
    bytes "  Where XALLOC is 1 byte value 26\r",
    bytes "  Where ALLOC_ID is 1 bytes value 1 to 20\r",
    bytes "  Where CUT_FROM is 4 bytes format high16bit(lo/high) low16bit(lo/high) range 0 to sizeof(int)\r",
    bytes "  Where CUT_LENGTH is 4 bytes format high16bit(lo/high) low16bit(lo/high) range 0 to sizeof(int)\r\r",
    bytes "  Example 26 01 00 00 08 00 00 00 10 00 which is cut from memory position 8, in alloc_id 01, 10 bytes \r",
    bytes "Return: XALLOC ALLOC_ID ERROR_ID\r",
    bytes "  Where XALLOC is 1 byte value 26\r",
    bytes "  Where ALLOC_ID is 1 byte 0 to 20, 0 indicating an error, 1 to 20 alloc_id requested\r",
    bytes "  Where ERROR_NUM is 1 byte, 0 no error, 1 invalid params, 2 cut outside memory allocation\r",
    bytes "  Example 26 01 00 cut data requested from alloc_id 01 with no errors\r\n"]

/-- Help for `PILALLOC`. -/
def commandLoadAllocHelp (q : Queue) : Bool × Queue :=
  writeOutHelpTextArray q [
    bytes "\rPILALLOC\r\r",
    bytes "Function: API call that loads a file from the pi storage into a memory allocation on the pi.\r\r",
    bytes "Format: PILALLOC ALLOC_ID /PATH/TO/FILE\n\r\r",
    bytes "  Where PILALLOC is 1 byte value 27\r",
    bytes "  Where ALLOC_ID is 1 bytes value 1 to 20\r",
    bytes "  Where /PATH/TO/FILE is a \n terminated string\r\r",
    bytes "  Example 27 01 BINARY_STRING_OF_TEXT 10 which is load file into allocation 01\r",
    bytes "Return: PILALLOC ALLOC_ID FILE_SIZE ERROR_ID\r",
    bytes "  Where PILALLOC is 1 byte value 27\r",
    bytes "  Where ALLOC_ID is 1 byte 0 to 20, 0 indicating an error, 1 to 20 alloc_id requested\r",
    bytes "  Where FILE_SIZE is 4 bytes format high16bit(lo/high) low16bit(lo/high) range 0 to sizeof(int) of file loaded\r",
    bytes "  Where ERROR_NUM is 1 byte, 0 no error, 1 invalid params, 2 unable to load file, 3 file to large for allocation\r",
    bytes "  Example 27 01 00 00 FF 7F 00 loaded the file, 32K in size into memory alloc_id 01 with no errors\r\n"]

/-- Help for `PISALLOC`. -/
def commandSaveAllocHelp (q : Queue) : Bool × Queue :=
  writeOutHelpTextArray q [
    bytes "\rPISALLOC\r\r",
    bytes "Function: API call that saves a file from a pi memory allocation to pi storage.\r\r",
    bytes "Format: PISALLOC ALLOC_ID FILE_SIZE /PATH/TO/FILE\n\r\r",
    bytes "  Where PISALLOC is 1 byte value 28\r",
    bytes "  Where ALLOC_ID is 1 bytes value 1 to 20\r",
    bytes "  Where FILE_SIZE is 4 bytes format high16bit(lo/high) low16bit(lo/high) range 0 to sizeof(int)\r",
    bytes "  of bytes to save from the pi memory allocation to the file on pi storage\r",
    bytes "  Where /PATH/TO/FILE is a \n terminated string of the file to save too.\r\r",
    bytes "  Example 28 01 00 00 FF 04 BINARY_STRING_OF_TEXT 10 which is save a 1K file from allocation 01 to file name\r",
    bytes "Return: PISALLOC ALLOC_ID ERROR_ID\r",
    bytes "  Where PISALLOC is 1 byte value 28\r",
    bytes "  Where ALLOC_ID is 1 byte 0 to 20, 0 indicating an error, 1 to 20 alloc_id requested\r",
    bytes "  Where ERROR_NUM is 1 byte, 0 no error, 1 invalid params, 2 unable to save file\r",
    bytes "  Example 28 01 00 save the allocation 01 to the requested file with no errors\r\n"]

/-! ## File services -/

/-- Help for `GETFILE`. -/
def commandGetFileHelp (q : Queue) : Bool × Queue :=
  writeOutHelpTextArray q [
    bytes "\rGETFILE\r\r",
    bytes "Function: Retrieves a file from pi storage and stores it on cpc storage.\r\r",
    bytes "Format: GETFILE /PATH/TO/FILE\n\r\r",
    bytes "Return: GETFILE\r\r\n"]

/-- Help for `PUTFILE`. -/
def commandPutFileHelp (q : Queue) : Bool × Queue := (false, q)

/-- Help for `GETMEMFILE`. -/
def commandGetMemFileHelp (q : Queue) : Bool × Queue := (false, q)

/-- Help for `PUTMEMFILE`. -/
def commandPutMemFileHelp (q : Queue) : Bool × Queue := (false, q)

/-- `help_function(in_queue, out_queue)` -/
def callHelpFunction : HelpFunction → Queue → Bool × Queue
  | .commandUnknownHelp => commandUnknownHelp
  | .commandPingHelp => commandPingHelp
  | .commandShutdownHelp => commandShutdownHelp
  | .commandTimeHelp => commandTimeHelp
  | .commandDateHelp => commandDateHelp
  | .commandResetHelp => commandResetHelp
  | .commandHelpHelp => commandHelpHelp
  | .commandRebootHelp => commandRebootHelp
  | .commandTronHelp => commandTronHelp
  | .commandTroffHelp => commandTroffHelp
  | .commandVersionHelp => commandVersionHelp
  | .commandWifiIpHelp => commandWifiIpHelp
  | .commandShellexecHelp => commandShellexecHelp
  | .commandCreateAllocHelp => commandCreateAllocHelp
  | .commandFreeAllocHelp => commandFreeAllocHelp
  | .commandRetrieveAllocHelp => commandRetrieveAllocHelp
  | .commandStoreAllocHelp => commandStoreAllocHelp
  | .commandInsertAllocHelp => commandInsertAllocHelp
  | .commandCutAllocHelp => commandCutAllocHelp
  | .commandLoadAllocHelp => commandLoadAllocHelp
  | .commandSaveAllocHelp => commandSaveAllocHelp
  | .commandGetFileHelp => commandGetFileHelp
  | .commandPutFileHelp => commandPutFileHelp
  | .commandGetMemFileHelp => commandGetMemFileHelp
  | .commandPutMemFileHelp => commandPutMemFileHelp

end CpcLink
