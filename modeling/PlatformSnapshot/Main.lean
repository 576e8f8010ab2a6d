import PlatformSnapshot.CommandLine.Run
import PlatformSnapshot.Snapshot.Sources
import PlatformSnapshot.Files.Recorded
import Std.Time.DateTime.Timestamp
/-!
The program. It gathers the answers that a run can ask for, first about the settings file and then
about the sources below the roots that the settings name, and hands them to the pure run.
-/
namespace PlatformSnapshot.Program

open Files

/-- The cause that an error number of the system stands for; some come with a minus sign. -/
def failureOf (code : UInt32) (reason : String) : ReadFailure :=
  match code.toInt32.toInt.natAbs with
  | 2 => .notFound
  | 20 => .notADirectory
  | 21 => .isADirectory
  | 36 => .nameTooLong
  | n => .system reason n

def failure : IO.Error → ReadFailure
  | .noFileOrDirectory .. => .notFound
  | .invalidArgument _ code reason | .permissionDenied _ code reason
  | .resourceExhausted _ code reason | .inappropriateType _ code reason
  | .noSuchThing _ code reason | .alreadyExists _ code reason | .otherError code reason
  | .interrupted _ code reason | .resourceBusy code reason | .resourceVanished code reason
  | .unsupportedOperation code reason | .hardwareFault code reason
  | .unsatisfiedConstraints code reason | .illegalOperation code reason
  | .protocolError code reason | .timeExpired code reason => failureOf code reason
  | .unexpectedEof => .system "Unexpected end of file" 0
  | .userError reason => .system reason 0

/-- What comes of an action on a path; no file has a name with the character zero. -/
def attempt (path : String) (action : IO (Except ReadFailure α)) : IO (Except ReadFailure α) := do
  if path.contains '\x00' then return .error .nameWithNul
  try action catch e => return .error (failure e)

def readFile (path : String) : IO (Except ReadFailure String) :=
  attempt path do
    let bytes ← (← IO.FS.Handle.mk path .read).readBinToEnd
    match String.fromUTF8? bytes with
    | some text => return .ok text
    | none => return .error .notText

/-- The path is opened first since that tells best why it cannot be listed. -/
def listDirectory (path : String) : IO (Except ReadFailure (List String)) :=
  attempt path do
    let _ ← IO.FS.Handle.mk path .read
    let entries ← (← IO.FS.realPath path).readDir
    return .ok (entries.toList.map (·.fileName))

def pathExists (path : String) : IO Bool := do
  try
    let _ ← IO.FS.realPath path
    return true
  catch _ => return false

def record (files looked : List String) : IO Recorded := do
  return {
    contents := ← files.mapM fun path => return (path, ← readFile path)
    existing := ← (files ++ looked).filterM pathExists }

/-- The answers about the settings file, which are asked for only if there are settings to load. -/
def recordSettings (a : CommandLine.Arguments) : IO Recorded :=
  if a.noConfig then return {} else record (a.config.elim Settings.locations fun path => [path]) []

def recordSources (r : Roots) : IO Recorded := do
  let entries ← listDirectory r.node
  let names := match entries with
    | .ok names => names
    | .error _ => []
  return { listings := [(r.node, entries)] } ++ (← record (r.files names) r.monitors)

/-- The answers that a run with some arguments can ask for. -/
def recordAll (args : List String) : IO Recorded := do
  match CommandLine.Arguments.read args with
  | .error _ => return {}
  | .ok a =>
    let r ← recordSettings a
    match CommandLine.settings a r.access with
    | .error _ => return r
    | .ok s => return r ++ (← recordSources s.roots)

def hostName : IO String := do
  match ← readFile "/proc/sys/kernel/hostname" with
  | .ok text => return .ofList (Text.trim text.toList)
  | .error _ => return "localhost"

def now : IO Timestamp := do
  return .ofEpoch (← Std.Time.Timestamp.now).toNanosecondsSinceUnixEpoch.val.toNat

end PlatformSnapshot.Program

open PlatformSnapshot in
def main (args : List String) : IO UInt32 := do
  let r ← Program.recordAll args
  let outcome := CommandLine.run args r.access ⟨← Program.hostName, collectorVersion⟩ (← Program.now)
  IO.print outcome.out
  IO.eprint outcome.err
  return .ofNat outcome.exit
