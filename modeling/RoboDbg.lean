import RoboDbg.Foundation.Overlay
import RoboDbg.Foundation.BitFields
import RoboDbg.Win32
import RoboDbg.Debugger
import RoboDbg.Breakpoints
import RoboDbg.PatchTable
import RoboDbg.DebugRegisters
import RoboDbg.HardwareBreakpoints
import RoboDbg.HostileImports
import RoboDbg.Foundation.Blocks
import RoboDbg.NameReads
import RoboDbg.ModuleList
import RoboDbg.HardwareAddress
import RoboDbg.Foundation.Fields
import RoboDbg.CsvGrammar
import RoboDbg.Foundation.CommandLine
import RoboDbg.StartArguments
import RoboDbg.MemorySearch
import RoboDbg.RegisterReaders
import RoboDbg.SlotIsolation
import RoboDbg.SlotMap
import RoboDbg.ProcessBreakpoints
import RoboDbg.Watchpoints
import RoboDbg.Foundation.Runs
import RoboDbg.Loop
import RoboDbg.Delivery
import RoboDbg.PendingRestore
import RoboDbg.ListedArmed
import RoboDbg.Interleaving
import RoboDbg.MixedBreakpoints
import RoboDbg.Orphans
import RoboDbg.Rewind
import RoboDbg.Foundation.Stutter
import RoboDbg.Machine
import RoboDbg.Intact
import RoboDbg.Simulation
import RoboDbg.InForce
import RoboDbg.Transparency
import RoboDbg.Freezer
import RoboDbg.FreezeRestore
import RoboDbg.FreezeRace
import RoboDbg.FreezerCsv
import RoboDbg.Imports
import RoboDbg.ImportTable
import RoboDbg.Tracker
import RoboDbg.Coverage
import RoboDbg.ThreadList
import RoboDbg.HardwareRestore
import RoboDbg.SingleSteps
import RoboDbg.Arrivals
import RoboDbg.FailedFreeze
import RoboDbg.FailedOperations
import RoboDbg.RestoreEnds
import RoboDbg.DeadEntries
import RoboDbg.Notifications
import RoboDbg.Uninitialised
import RoboDbg.Processes
import RoboDbg.Reentry
import RoboDbg.Session
import RoboDbg.Lifecycle
import RoboDbg.Detaching
import RoboDbg.Foundation.Closing
import RoboDbg.ProcessHandle
import RoboDbg.ImportLookup
import RoboDbg.ImportSlots
import RoboDbg.Foundation.Terminated
import RoboDbg.StringKinds
import RoboDbg.NameBuffers
import RoboDbg.Foundation.LastWrites
import RoboDbg.Foundation.Segments
import RoboDbg.PageTable
import RoboDbg.Protection
import RoboDbg.RegisterRuns
import RoboDbg.HookedRuns
import RoboDbg.Faults
import RoboDbg.ImportHooks
import RoboDbg.FreezeArchive
import RoboDbg.FreezeDepth
import RoboDbg.RemoteCode
import RoboDbg.RemoteRuns
import RoboDbg.ThreadHandles
import RoboDbg.Inspection
import RoboDbg.Plugins
import RoboDbg.SharedCounts
