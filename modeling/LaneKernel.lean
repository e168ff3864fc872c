import LaneKernel.Disassembly
import LaneKernel.Machine.Registers
import LaneKernel.Main
import LaneKernel.Proofs.Calls
import LaneKernel.Proofs.KernelRun
import LaneKernel.Proofs.Arrangements
import LaneKernel.Proofs.CallResults
import LaneKernel.Proofs.CallingConvention
import LaneKernel.Proofs.Assembling
import LaneKernel.Proofs.BuildHistory
import LaneKernel.Proofs.DrawnExecutors
import LaneKernel.Proofs.Encodable
import LaneKernel.Proofs.Expressible
import LaneKernel.Proofs.LoadHoisting
import LaneKernel.Proofs.MemoryMap
import LaneKernel.Proofs.BranchTargets
import LaneKernel.Proofs.BroadcastRuns
import LaneKernel.Proofs.TailMoves
import LaneKernel.Proofs.IntegerMeaning
import LaneKernel.Proofs.EffectValues
import LaneKernel.Proofs.FieldReading
import LaneKernel.Proofs.NormalForm
import LaneKernel.Proofs.RunDecomposition
import LaneKernel.Proofs.BoundedRuns
import LaneKernel.Proofs.PreciseTraps
import LaneKernel.Proofs.OperandRanges
import LaneKernel.Proofs.AtomicEmission
import LaneKernel.Proofs.RecordLayout
import LaneKernel.Proofs.ParameterSlots
import LaneKernel.Proofs.CodeLayouts
import LaneKernel.Proofs.Listings
import LaneKernel.Proofs.RegisterAccess
import LaneKernel.Proofs.ElfImages
import LaneKernel.Proofs.UnalignedWords
import LaneKernel.Proofs.UnusedArrays
import LaneKernel.Proofs.ShortestConstants
import LaneKernel.Proofs.LaneIndependence
import LaneKernel.Proofs.RegisterAssignment
import LaneKernel.Proofs.Padding
