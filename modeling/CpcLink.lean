import CpcLink.Lib.CircularBuffer
import CpcLink.Lib.Decoder
import CpcLink.Lib.Reach
import CpcLink.Main
import CpcLink.Proof.Recognise
import CpcLink.Proof.HelpTexts
import CpcLink.Proof.Answers
import CpcLink.Proof.Overtake
import CpcLink.Proof.Stream
import CpcLink.Proof.Retry
import CpcLink.Proof.TickInput
import CpcLink.Proof.Lookups
import CpcLink.Proof.SendLock
import CpcLink.Proof.Staged
import CpcLink.Proof.StoreBounds
import CpcLink.Proof.StoreMap
import CpcLink.Proof.ReadBack
import CpcLink.Proof.Indices
import CpcLink.Proof.Lock
import CpcLink.Proof.Grammar
import CpcLink.Proof.Reserved
import CpcLink.Proof.InsertCut
import CpcLink.Proof.RangeAnswers
import CpcLink.Proof.DataPackets
import CpcLink.Proof.ShellRuns
import CpcLink.Proof.SendPacket
import CpcLink.Proof.Agreement
import CpcLink.Lib.Ownership
import CpcLink.Lib.Sessions
import CpcLink.Proof.Liveness
import CpcLink.Proof.Handles
import CpcLink.Proof.Files
import CpcLink.Proof.Stages
import CpcLink.Proof.Deadlines
import CpcLink.Proof.ShellText
import CpcLink.Proof.TextParams
import CpcLink.Proof.Names
import CpcLink.Proof.Building
import CpcLink.Proof.Integers
import CpcLink.Proof.HelpSizes
import CpcLink.Proof.Unrolled
import CpcLink.Proof.Vdu
import CpcLink.Proof.BasicStrings
import CpcLink.Proof.WholePackets
import CpcLink.Lib.Passage
import CpcLink.Lib.Overrun
import CpcLink.Lib.Z80Stored
import CpcLink.Proof.Board
import CpcLink.Proof.Gpio
import CpcLink.Proof.Loopback
import CpcLink.Proof.Station
import CpcLink.Proof.Bootloader
import CpcLink.Proof.Bootstrap
import CpcLink.Proof.Reader
import CpcLink.Proof.Display
import CpcLink.Lib.Dialogue
import CpcLink.Line
import CpcLink.Program
import CpcLink.Proof.Line
import CpcLink.Proof.Requests
import CpcLink.Proof.Pages
