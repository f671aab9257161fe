import Opencore.Machine.Extent
import Opencore.Elf.Reader
import Opencore.Dumper.Layout
import Opencore.Dumper.MemoryImage
import Opencore.Dumper.NoteStream
import Opencore.Dumper.NtFile
import Opencore.Dumper.Maps
import Opencore.Dumper.MapsText
import Opencore.Dumper.Rounds
import Opencore.Dumper.SecondRound
import Opencore.Dumper.CoreReader
import Opencore.Dumper.HeaderFields
import Opencore.Dumper.FailingWrites
import Opencore.Dumper.SegmentBytes
import Opencore.Dumper.Recovery
import Opencore.Dumper.FullDisk
import Opencore.Dumper.CoreNotes
import Opencore.Dumper.FilterOrder
import Opencore.Dumper.FileVerdict
import Opencore.Dumper.Minidump
import Opencore.Dumper.SignalContext
import Opencore.Control.Singleton
import Opencore.Control.CorePath
import Opencore.Control.Release
import Opencore.Control.Wait
import Opencore.Control.Termination
import Opencore.Control.Timeout
import Opencore.Control.HandOver
import Opencore.Control.SignalRounds
import Opencore.Control.SignalDeadlock
import Opencore.Control.CrashHandler
import Opencore.Control.Dumpable
import Opencore.Control.Overlap
import Opencore.Jni.Strings
import Opencore.Jni.CallbackThread
import Opencore.Sdk.Acknowledge
import Opencore.Sdk.Delivery
import Opencore.Sdk.Deadlock
import Opencore.Sdk.Queues
import Opencore.Sdk.Lifecycle
import Opencore.Sdk.Status
import Opencore.Sdk.Undisturbed
import Opencore.Sdk.JavaCrash
