/-!
Who took a snapshot: the host's name and the version of the collector, both given by the caller.
-/
namespace PlatformSnapshot

/-- The version of this collector. -/
def collectorVersion : String := "0.1.0"

structure Host where
  name : String
  version : String
  deriving DecidableEq, Repr

end PlatformSnapshot
