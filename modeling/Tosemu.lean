import Tosemu.Runs
import Tosemu.Ranges
import Tosemu.Allocator
import Tosemu.AllocatorInvariant
import Tosemu.AllocatorRuns
import Tosemu.AllocatorRefinement
import Tosemu.Cpu
import Tosemu.Machine
import Tosemu.Memory
import Tosemu.BigEndian
import Tosemu.MemoryBytes
import Tosemu.GuestMemory
import Tosemu.Endian
import Tosemu.Loader
import Tosemu.LoaderBounds
import Tosemu.TosMap
import Tosemu.RelocationTable
import Tosemu.Relocation
import Tosemu.Supexec
import Tosemu.SupexecRuns
import Tosemu.SystemCalls
import Tosemu.EnvironmentBlock
import Tosemu.HostFiles
import Tosemu.FileHandles
import Tosemu.HostFrames
import Tosemu.FileHandlesRuns
import Tosemu.HostTree
import Tosemu.GemdosPaths
import Tosemu.HostPaths
import Tosemu.Sandbox
import Tosemu.SandboxCreate
import Tosemu.SandboxGlob
import Tosemu.Confinement
import Tosemu.AllocatorSearch
import Tosemu.AllocatorAgreement
import Tosemu.AllocatorStretches
import Tosemu.BssSegment
import Tosemu.HandleTable
import Tosemu.GemdosTrap
import Tosemu.SuperCall
import Tosemu.CurrentDirectory
import Tosemu.PathMeaning
import Tosemu.StreamContents
import Tosemu.FileRoundTrip
import Tosemu.RefusedReads
import Tosemu.RefusedCalls
import Tosemu.HostPointers
import Tosemu.DirectorySearch
import Tosemu.DirectorySearchRuns
import Tosemu.CommandLine
import Tosemu.BasepageFields
import Tosemu.LoadFaults
import Tosemu.MainStart
import Tosemu.SupervisorStack
import Tosemu.TargetStack
import Tosemu.DtaBounds
import Tosemu.FsnextSafety
import Tosemu.HandleStreams
import Tosemu.FailedOpens
import Tosemu.LinkedList
import Tosemu.MemoryAreas
import Tosemu.ExceptionVectors
import Tosemu.TrapDispatch
import Tosemu.OpenEffects
import Tosemu.TransferResults
import Tosemu.BaseSpelling
import Tosemu.Fields
import Tosemu.PathComponents
import Tosemu.PathReport
import Tosemu.LineInput
import Tosemu.AddressBus
import Tosemu.BitFields
import Tosemu.DateWords
import Tosemu.CharArrays
import Tosemu.PathBuffers
import Tosemu.ConsoleOutput
import Tosemu.HostOrder
import Tosemu.AllocatorCells
import Tosemu.Alu
import Tosemu.Operands
import Tosemu.Arithmetic
import Tosemu.DataMovement
import Tosemu.ProgramControl
import Tosemu.ConditionCodes
import Tosemu.CarryChain
import Tosemu.MemoryNumbers
import Tosemu.ExtendedArithmetic
import Tosemu.DecimalArithmetic
import Tosemu.BitSerial
import Tosemu.Shifts
import Tosemu.ShiftsRight
import Tosemu.ShiftsLeft
import Tosemu.ShiftRotate
import Tosemu.MultiplyDivide
import Tosemu.OpcodeTable
import Tosemu.Overlay
import Tosemu.JumpTable
import Tosemu.Programs
import Tosemu.Actions
import Tosemu.InstructionActions
import Tosemu.Interpreter
import Tosemu.UserPrograms
import Tosemu.Exceptions
import Tosemu.NestedFrames
