import PlatformSnapshot.Processor.Topology
import PlatformSnapshot.Processor.BusyTime
import PlatformSnapshot.Memory.Nodes
import PlatformSnapshot.ResourceControl
import PlatformSnapshot.Timestamp
/-!
A snapshot of the host: what all sources said within one cycle. Assembling demands that there are as
many busy times as logical processors; every field of a snapshot is then one source's reading as it
was.
-/
namespace PlatformSnapshot

structure Snapshot where
  sockets : Nat
  cores : Nat
  cpus : Nat
  layout : Layout
  model : String
  busyTime : BusyTime
  /-- In bytes. -/
  memoryUsed : Int64
  nodeMemoryFree : SortedMap UInt32 Int64
  nodeMemoryUsed : SortedMap UInt32 Int64
  nodeCpus : SortedMap UInt32 IdSet
  /-- When gathering ended. -/
  timestamp : Timestamp
  resourceControl : Option ResourceControl
  deriving DecidableEq

def Snapshot.assemble (topology : Topology) (busyTime : BusyTime) (memoryUsed : Int64)
    (nodes : Nodes) (resourceControl : Option ResourceControl) (timestamp : Timestamp) :
    Except SourceError Snapshot :=
  if busyTime.size ≠ topology.cpus then .error (.inconsistent busyTime.size topology.cpus)
  else .ok {
    sockets := topology.sockets
    cores := topology.cores
    cpus := topology.cpus
    layout := topology.layout
    model := topology.model
    busyTime
    memoryUsed
    nodeMemoryFree := nodes.free
    nodeMemoryUsed := nodes.used
    nodeCpus := nodes.cpus
    timestamp
    resourceControl }

end PlatformSnapshot
