import PlatformSnapshot.Settings.Document
import PlatformSnapshot.Files.Access
import PlatformSnapshot.Files.Path
/-!
Loading settings from a file: a given one, or the first that exists in some usual places. Without
any file the standard settings hold. The extension of the file's name tells its format.
-/
namespace PlatformSnapshot.Settings

def locations : List String := [
  "/etc/herakles/platform-collector.yaml",
  "/etc/herakles/platform-collector.yml",
  "/etc/herakles/platform-collector.json",
  "./herakles-platform-collector.yaml",
  "./herakles-platform-collector.yml",
  "./herakles-platform-collector.json"]

inductive LoadError where
  | unreadable (path : String) (cause : Files.ReadFailure)
  | malformed (format : Format)
  deriving DecidableEq, Repr

def Format.name : Format → String
  | .json => "JSON"
  | .yaml => "YAML"
  | .toml => "TOML"

def LoadError.message : LoadError → String
  | .unreadable path _ => s!"Failed to read config {path}"
  | .malformed format => s!"the settings are not well-formed {format.name}"

def parse (s : String) (format : Format) : Except LoadError Settings :=
  match parse? s format with
  | some settings => .ok settings
  | none => .error (.malformed format)

def loadFile (view : Files.Access) (path : String) : Except LoadError Settings := do
  let content ← (view.read path).mapError (.unreadable path)
  parse content (.ofName (Path.extension? path))

def load (view : Files.Access) (path : Option String) : Except LoadError Settings :=
  match path with
  | some path => loadFile view path
  | none =>
    match locations.find? view.has with
    | some path => loadFile view path
    | none => .ok standard

end PlatformSnapshot.Settings
