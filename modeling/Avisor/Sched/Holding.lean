import Avisor.Sched.Boot

/-!
# A VM runs on at most one pCPU

The run queue of VMs is shared by all pCPUs. Whatever the order in which they put nodes back and take
nodes out, a VM's node is linked once in the queue or held by one pCPU, and never both.
-/

namespace Avisor

open LinkedList

end Avisor
