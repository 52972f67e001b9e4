import RdReplay.Lib.CmpList
import RdReplay.Lib.CmpListOrder
import RdReplay.Lib.PageMap
import RdReplay.Util
import RdReplay.AddressSpace.MemoryRange
import RdReplay.AddressSpace.KernelMapping
import RdReplay.AddressSpace.Mapping
import RdReplay.AddressSpace.Basic
import RdReplay.AddressSpace.Ops
import RdReplay.AddressSpace.Invariant
import RdReplay.AddressSpace.Loop
import RdReplay.AddressSpace.View
import RdReplay.AddressSpace.Splice
import RdReplay.AddressSpace.Coalesce
import RdReplay.AddressSpace.Unmap
import RdReplay.AddressSpace.Protect
import RdReplay.AddressSpace.Map
import RdReplay.AddressSpace.EnsureReplay
import RdReplay.AddressSpace.Run
import RdReplay.AddressSpace.Refinement
import RdReplay.AddressSpace.DontFork
import RdReplay.AddressSpace.KernelMapIterator
import RdReplay.AddressSpace.Maps
import RdReplay.AddressSpace.LocalUnmap
import RdReplay.Gdb.Connection
import RdReplay.Breakpoint.Basic
import RdReplay.Breakpoint.Transparency
import RdReplay.Gdb.Expression
import RdReplay.Timeline.Basic
import RdReplay.Timeline.Conditions
import RdReplay.Timeline.Breakpoints
import RdReplay.AddressSpace.Watchpoints
import RdReplay.AddressSpace.WatchRegisters
import RdReplay.Timeline.Checkpoints
import RdReplay.Syscallbuf.Recv
import RdReplay.Task.Ptrace
import RdReplay.Scheduler.Basic
import RdReplay.Scheduler.Invariant
import RdReplay.FdTable.Basic
import RdReplay.FdTable.Bookkeeping
import RdReplay.FastForward.StringInstruction
import RdReplay.FastForward.Iterations
import RdReplay.Timeline.ReverseExecCheckpoints
import RdReplay.Timeline.Marks
import RdReplay.Dump.SyscallbufData
import RdReplay.Record.RobustFutex
import RdReplay.FileMonitor.MmappedFile
import RdReplay.ExtraRegisters.FpRegs
import RdReplay.Scheduler.Runnable
import RdReplay.Record.ScratchLayout
import RdReplay.Record.SyscallAbort
import RdReplay.Record.ParamSizes
import RdReplay.Record.RecvMsg
import RdReplay.Gdb.BinaryData
import RdReplay.FileMonitor.ProcFdDir
import RdReplay.Trace.CompressedReader
import RdReplay.Gdb.SearchMemory
import RdReplay.Record.SeccompFilterRewriter
import RdReplay.ExtraRegisters.XSave
import RdReplay.MonkeyPatcher.AssemblyTemplates
import RdReplay.MonkeyPatcher.ExtendedJump
import RdReplay.MonkeyPatcher.Redirect
import RdReplay.MonkeyPatcher.TryPatch
import RdReplay.MonkeyPatcher.LibraryPath
