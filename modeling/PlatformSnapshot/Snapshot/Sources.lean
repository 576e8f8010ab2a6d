import PlatformSnapshot.Memory.Nodes
import PlatformSnapshot.ResourceControl
import PlatformSnapshot.Snapshot.Roots
/-!
The paths that a cycle can look at below its roots. Those of the memory nodes are known only once the
node directory has been listed.
-/
namespace PlatformSnapshot.Roots

/-- What is read of the resource control file system. -/
def resourceControlFiles (r : Roots) : List String :=
  ["schemata", "info/L3/cbm_mask", "info/L3/min_cbm_bits", "info/L3/num_closids",
    "info/MB/bandwidth_gran", "info/MB/min_bandwidth", "info/MB/num_closids"].map (Path.join r.resctrl)

/-- What is looked for there but not read. -/
def monitors (r : Roots) : List String :=
  ["llc_occupancy", "mbm_total_bytes"].map (Path.join (Path.join r.resctrl "mon_data/mon_L3_00"))

def nodeFiles (r : Roots) (entries : List String) : List String :=
  (entries.filter fun name => (Nodes.id? name).isSome).flatMap fun name =>
    ["meminfo", "cpulist"].map (Path.join (Path.join r.node name))

/-- All that is read, given the entries of the node directory. -/
def files (r : Roots) (entries : List String) : List String :=
  [r.cpuinfo, r.stat, r.meminfo] ++ r.nodeFiles entries ++ r.resourceControlFiles

end PlatformSnapshot.Roots
