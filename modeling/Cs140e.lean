import Cs140e.Libpi.CircularQueue
import Cs140e.Libpi.CircularInterrupt
import Cs140e.FakePi.PiSteps
import Cs140e.FakePi.UnixSteps
import Cs140e.FakePi.RemoteExecution
import Cs140e.FakePi.Handshake
import Cs140e.Esp.Lex
import Cs140e.Esp.Readin
import Cs140e.Esp.LexSimple
import Cs140e.Esp.LexCirc
import Cs140e.Esp.Parse
import Cs140e.Esp.Text
import Cs140e.Esp.ParseOnText
import Cs140e.Esp.Commands
import Cs140e.Esp.RunOnText
import Cs140e.Esp.Chunking
import Cs140e.Esp.Lines
import Cs140e.Esp.Response
import Cs140e.Esp.Ack
import Cs140e.Esp.Numbers
import Cs140e.Esp.Receive
import Cs140e.Esp.Format
import Cs140e.Library.Takes
import Cs140e.Esp.Consumed
import Cs140e.Esp.Send
import Cs140e.Libpi.CircularBlock
import Cs140e.Bootloader.SimpleBoot
import Cs140e.Bootloader.Codec
import Cs140e.Bootloader.Drain
import Cs140e.Bootloader.Transparent
import Cs140e.Replay.Log
import Cs140e.Replay.LogText
import Cs140e.Replay.RoundTrip
import Cs140e.Replay.ParseTrace
import Cs140e.Library.Matcher
import Cs140e.Libunix.PiEcho
import Cs140e.Libpi.Printk
import Cs140e.Libpi.Emit
import Cs140e.Libpi.Render
import Cs140e.Library.Linked
import Cs140e.Threads.Queue
import Cs140e.Threads.QueueSteps
import Cs140e.Threads.QueueRuns
import Cs140e.Fat32.Utf8
import Cs140e.Library.Strings
import Cs140e.Fat32.LongName
import Cs140e.Library.Allocator
import Cs140e.Vm.PageTable
import Cs140e.Esp.FailedMatch
import Cs140e.Libpi.CircularPeek
import Cs140e.Esp.NonblankLine
import Cs140e.Esp.Announced
import Cs140e.Esp.HardReset
import Cs140e.Libunix.ReadExact
import Cs140e.Replay.Corruptible
import Cs140e.Library.Stops
import Cs140e.Esp.Connect
import Cs140e.Library.Pattern
import Cs140e.Esp.Language
import Cs140e.Library.Reading
import Cs140e.Replay.Entries
import Cs140e.Replay.Words
import Cs140e.Replay.Truncated
import Cs140e.Libpi.CircularPeekSteps
import Cs140e.Library.Counted
import Cs140e.Library.Memory
import Cs140e.Libpi.Memcpy
import Cs140e.Libpi.Strncmp
import Cs140e.Libpi.CircularSizes
import Cs140e.Libpi.Timer
import Cs140e.Libpi.Truncation
import Cs140e.Vm.Sections
import Cs140e.Esp.Truncated
import Cs140e.Fat32.ShortName
import Cs140e.Libunix.Forward
import Cs140e.Libpi.Rand
import Cs140e.Libpi.Crc
import Cs140e.LibpiFake.Random
import Cs140e.LibpiFake.RandomDraws
import Cs140e.LibpiFake.RandomPeriod
import Cs140e.LibpiFake.RandomSeed
import Cs140e.LibpiFake.RandomState
import Cs140e.LibpiFake.RandomSwitch
import Cs140e.LibpiFake.PiTest
import Cs140e.Library.Keyed
import Cs140e.Libunix.LogFns
import Cs140e.Replay.UniqueLogs
import Cs140e.Fat32.Directory
import Cs140e.Fat32.DirectoryFormat
import Cs140e.Fat32.DirectoryPrint
import Cs140e.Fat32.DirectoryLookup
import Cs140e.Esp.PingPong
import Cs140e.FakePi.Progress
