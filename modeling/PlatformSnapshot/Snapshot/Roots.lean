import PlatformSnapshot.Files.Path
/-!
Where the sources are. Only the three roots move, as for a host whose file systems are mounted
elsewhere; the names below each root are fixed.
-/
namespace PlatformSnapshot

structure Roots where
  proc : String := "/proc"
  node : String := "/sys/devices/system/node"
  resctrl : String := "/sys/fs/resctrl"
  deriving DecidableEq, Repr

namespace Roots

def cpuinfo (r : Roots) : String := Path.join r.proc "cpuinfo"

def stat (r : Roots) : String := Path.join r.proc "stat"

def meminfo (r : Roots) : String := Path.join r.proc "meminfo"

end Roots
end PlatformSnapshot
