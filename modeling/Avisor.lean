import Avisor.Cpu.Barrier
import Avisor.Cpu.DataAborts
import Avisor.Cpu.ExceptionFrame
import Avisor.Cpu.MessageDelivery
import Avisor.Cpu.MessageOrder
import Avisor.Cpu.ObjectPool
import Avisor.Cpu.SyncAndClear
import Avisor.Data.BitmapRanges
import Avisor.Data.Bits
import Avisor.Data.LogNumbers
import Avisor.Data.BitmapSearch
import Avisor.Gic.CpuTargets
import Avisor.Gic.Initialisation
import Avisor.Vgic.Delegation
import Avisor.Vgic.OneVcpu
import Avisor.Vgic.Presenting
import Avisor.Irq.Arrival
import Avisor.Lcm.RoundTrip
import Avisor.Lcm.Room
import Avisor.Lcm.RunningContext
import Avisor.Lcm.Lookup
import Avisor.Lcm.Reset
import Avisor.Mem.Pages
import Avisor.Mem.StageTwo
import Avisor.Sched.Assertions
import Avisor.Sched.Holding
import Avisor.Sched.NodePools
import Avisor.Sched.Placement
import Avisor.Sched.Selection
import Avisor.Sched.Context
import Avisor.Vm.VmList
import Avisor.Lib.DemotionQueue
import Avisor.Mem.PageTrees
import Avisor.Sched.Overtaking
import Avisor.Lib.DeadlineQueue
import Avisor.Sched.Deadlines
import Avisor.Mem.Growing
import Avisor.Mem.Mapping
import Avisor.Cpu.Hypercalls
import Avisor.Lib.PriorityQueue
import Avisor.Lib.RunningMax
import Avisor.Lib.PackedFields
import Avisor.Mem.Completeness
import Avisor.Mem.RootPool
import Avisor.Mem.Unmapping
import Avisor.Mem.Detaching
import Avisor.Mem.Reserving
import Avisor.Mem.AddressSpaces
import Avisor.Mem.RequestQueues
import Avisor.Sched.EarliestDeadline
import Avisor.Sched.MultiQueue
import Avisor.Sched.Priorities
import Avisor.Sched.ReadyCounter
import Avisor.Lib.TernaryPattern
import Avisor.Smmu.Contexts
import Avisor.Vgic.SgiDelivery
import Avisor.Vgic.Redistributor
import Avisor.Vgic.SpillOrder
import Avisor.Vgic.Targets
import Avisor.Vgic.Moves
import Avisor.Vgic.Emulation
import Avisor.Vgic.Banks
import Avisor.Vgic.ReadBack
import Avisor.Vgic.LrWords
import Avisor.Vgic.Linking
import Avisor.Cpu.Spinlock
import Avisor.Lib.RingQueue
import Avisor.Smmu.Commands
import Avisor.Smmu.CommandRuns
import Avisor.Smmu.StreamTable
import Avisor.Smmu.StreamLookup
import Avisor.Smmu.StreamRuns
import Avisor.Lib.Publication
import Avisor.Smmu.StreamPublication
import Avisor.Lib.Isolation
import Avisor.Mem.Roots
import Avisor.Vm.Creation
import Avisor.Vm.Isolation
import Avisor.Vm.Images
import Avisor.Vm.Booting
