import RincOs.Arch.Features
import RincOs.Arch.Gdt
import RincOs.Arch.HardwareWalk
import RincOs.Arch.Idt
import RincOs.Arch.InterruptStubs
import RincOs.Arch.Lapic
import RincOs.Arch.Smp
import RincOs.Arch.Tsc
import RincOs.Arch.Tss
import RincOs.Arch.X86Mmu
import RincOs.Boot.Abi
import RincOs.Boot.Limine
import RincOs.Boot.Strings
import RincOs.Hal.Mmu
import RincOs.Kernel.Boot
import RincOs.Kernel.BootPtAlloc
import RincOs.Kernel.Console
import RincOs.Kernel.Interrupts
import RincOs.Kernel.Node
import RincOs.Kernel.VmService
import RincOs.Library.ByteMemory
import RincOs.Library.Delimited
import RincOs.Library.ForestPostorder
import RincOs.Library.Interleaving
import RincOs.Library.PartialCalls
import RincOs.Library.PushStack
import RincOs.Library.RadixForest
import RincOs.Library.ReprC
import RincOs.Library.TableFill
import RincOs.Library.WordField
import RincOs.Machine.Memory
import RincOs.Proofs.ActiveTables
import RincOs.Proofs.ApicDriver
import RincOs.Proofs.BootLog
import RincOs.Proofs.BootOutcome
import RincOs.Proofs.BootOwnership
import RincOs.Proofs.BootPages
import RincOs.Proofs.BootStrings
import RincOs.Proofs.BootToService
import RincOs.Proofs.BufferedMap
import RincOs.Proofs.BumpAlloc
import RincOs.Proofs.ConcurrentVm
import RincOs.Proofs.ConsoleWire
import RincOs.Proofs.CurrentSpace
import RincOs.Proofs.CursorSafety
import RincOs.Proofs.Descriptors
import RincOs.Proofs.EntryBits
import RincOs.Proofs.FrameConservation
import RincOs.Proofs.FrameOwnership
import RincOs.Proofs.FreedTables
import RincOs.Proofs.HardwareAgreement
import RincOs.Proofs.InterruptFrames
import RincOs.Proofs.InterruptProgress
import RincOs.Proofs.InterruptRuns
import RincOs.Proofs.InterruptTransparency
import RincOs.Proofs.KernelHalf
import RincOs.Proofs.KernelRoot
import RincOs.Proofs.KernelSide
import RincOs.Proofs.KernelTables
import RincOs.Proofs.LargePages
import RincOs.Proofs.LeafEntries
import RincOs.Proofs.LowerForest
import RincOs.Proofs.MalformedEntries
import RincOs.Proofs.MapExactness
import RincOs.Proofs.MemoryMap
import RincOs.Proofs.NewAtomicity
import RincOs.Proofs.Operations
import RincOs.Proofs.PageMapRefinement
import RincOs.Proofs.Recorder
import RincOs.Proofs.Rights
import RincOs.Proofs.Runs
import RincOs.Proofs.SegmentLoads
import RincOs.Proofs.SlotTable
import RincOs.Proofs.SpaceLifecycle
import RincOs.Proofs.SpaceSteps
import RincOs.Proofs.StringArena
import RincOs.Proofs.StringReads
import RincOs.Proofs.TableLevels
import RincOs.Proofs.TickChain
import RincOs.Proofs.Ticks
import RincOs.Proofs.TlbCoherence
import RincOs.Proofs.TlbShootdown
import RincOs.Proofs.TssLayout
import RincOs.Proofs.UserAccess
import RincOs.Proofs.VmAccounts
import RincOs.Proofs.VmFootprints
import RincOs.Proofs.VmPrograms
import RincOs.Proofs.VmRefinement
import RincOs.Proofs.WalkStability
import RincOs.Spec.PageMap
import RincOs.Spec.VmMachine
