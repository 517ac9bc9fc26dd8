import Doors.Run
import Doors.ClusterWalk
import Doors.FatWrite
import Doors.FatRemove
import Doors.FatRuns
import Doors.ParentCheck
import Doors.FileTree
import Doors.FolderCopy
import Doors.TreeCopy
import Doors.Bitmap
import Doors.Paging
import Doors.Process
import Doors.ProcessSteps
import Doors.PagingSteps
import Doors.ProcessTable
import Doors.KernelRuns
import Doors.ContextSwitch
import Doors.AddressSpace
import Doors.KernelFrame
import Doors.FrameAccounting
import Doors.FrameRuns
import Doors.Dispatch
import Doors.FrameBuffer
import Doors.Redraw
import Doors.ConsoleBounds
import Doors.Typing
import Doors.FatReadBack
import Doors.ReservedClusters
import Doors.CopyReport
import Doors.Shell
import Doors.WorkDir
import Doors.PlainText
import Doors.Scrollback
import Doors.ReadBuffer
import Doors.FolderLookup
import Doors.FileOverwrite
import Doors.MoveFile
import Doors.ProcessCreation
import Doors.ProgramPages
import Doors.PathWalk
import Doors.MoveFolder
import Doors.PrintInt
import Doors.Cmos
import Doors.RoundRobin
import Doors.Backspacing
import Doors.CommandGrammar
import Doors.PathPrefix
import Doors.PromptPath
import Doors.FindReport
import Doors.ShellBuffers
import Doors.CommandTargets
import Doors.Itoa
import Doors.TreeRefinement
import Doors.Remount
import Doors.Session
import Doors.ProgramMemory
import Doors.AtaDisk
import Doors.KernelSetup
import Doors.ProcessCommands
import Doors.ListCommand
import Doors.ShellPaths
import Doors.DiskSpace
import Doors.ClockDisplay
import Doors.InterruptLines
import Doors.TypedCommands
import Doors.ExecCommand
