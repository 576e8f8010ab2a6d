import PlatformSnapshot.Fault
import PlatformSnapshot.IdList
import PlatformSnapshot.Files.Access
/-!
Why a snapshot could not be taken. Every failure ends the cycle; one that a single source is to
blame for names that source as its path was joined.
-/
namespace PlatformSnapshot

inductive SourceError where
  | unreadable (path : String) (cause : Files.ReadFailure)
  | malformed (source : String) (fault : Fault)
  | badList (source : String) (error : IdList.Error)
  | duplicateProcessor (id : UInt32)
  | inconsistent (usageEntries cpus : Nat)
  deriving DecidableEq, Repr

def SourceError.message : SourceError → String
  | .unreadable path cause => s!"failed to read {path}: {cause.message}"
  | .malformed source fault => s!"failed to parse {source}: {fault.message}"
  | .badList source error => s!"invalid list format in {source}: {error.message}"
  | .duplicateProcessor id =>
    s!"processor {id} is listed more than once in the processor descriptor"
  | .inconsistent usageEntries cpus =>
    s!"inconsistency in cpu data returned by kernel: {usageEntries} per-cpu usage entries, {cpus} logical processors"

end PlatformSnapshot
