import PlatformSnapshot.Snapshot.Cycle
import PlatformSnapshot.Document
/-!
The settings of the collector. Each may be left unset, which is not the same as set to its default:
only when a cycle or an output asks for a setting does the default stand in.
-/
namespace PlatformSnapshot

structure Settings where
  procRoot : Option String := none
  nodeRoot : Option String := none
  resctrlRoot : Option String := none
  resourceControl : Option Bool := none
  parallel : Option Bool := none
  outputFormat : Option String := none
  logLevel : Option String := none
  deriving DecidableEq, Repr

namespace Settings

def outputFormats : List String := ["json", "yaml", "prometheus"]

def logLevels : List String := ["off", "error", "warn", "info", "debug", "trace"]

/-- The settings where there is no settings file. -/
def standard : Settings where
  procRoot := some ({} : Roots).proc
  nodeRoot := some ({} : Roots).node
  resctrlRoot := some ({} : Roots).resctrl
  resourceControl := some true
  parallel := some false
  outputFormat := some "json"
  logLevel := some "info"

def roots (s : Settings) : Roots where
  proc := s.procRoot.getD ({} : Roots).proc
  node := s.nodeRoot.getD ({} : Roots).node
  resctrl := s.resctrlRoot.getD ({} : Roots).resctrl

def collector (s : Settings) : Collector where
  roots := s.roots
  withResourceControl := s.resourceControl.getD true
  parallel := s.parallel.getD false

/-- Why settings cannot be used. -/
inductive Invalid where
  | emptyRoot (name : String)
  | unknownFormat (format : String)
  | unknownLevel (level : String)
  deriving DecidableEq, Repr

def choices (names : List String) : String := ", ".intercalate names

def Invalid.message : Invalid → String
  | .emptyRoot name => s!"{name} must not be empty"
  | .unknownFormat format =>
    s!"Invalid output_format '{format}', expected one of: {choices outputFormats}"
  | .unknownLevel level =>
    s!"Invalid log_level '{level}', expected one of: {choices logLevels}"

def lowerCase (s : String) : String := .ofList (s.toList.map Char.toLower)

def checkRoot (name : String) (root : Option String) : Except Invalid Unit :=
  if root = some "" then .error (.emptyRoot name) else .ok ()

/-- Levels are known in any case of their letters, formats only as they are. -/
def validate (s : Settings) : Except Invalid Unit := do
  checkRoot "proc_root" s.procRoot
  checkRoot "node_root" s.nodeRoot
  checkRoot "resctrl_root" s.resctrlRoot
  match s.outputFormat with
  | some format => if format ∉ outputFormats then .error (.unknownFormat format)
  | none => pure ()
  match s.logLevel with
  | some level => if lowerCase level ∉ logLevels then .error (.unknownLevel level)
  | none => pure ()

open Document in
def document (s : Settings) : Document := record [
  ("proc_root", ofOption .text s.procRoot),
  ("node_root", ofOption .text s.nodeRoot),
  ("resctrl_root", ofOption .text s.resctrlRoot),
  ("enable_rdt", ofOption .flag s.resourceControl),
  ("parallel_collection", ofOption .flag s.parallel),
  ("output_format", ofOption .text s.outputFormat),
  ("log_level", ofOption .text s.logLevel)]

end Settings
end PlatformSnapshot
