import PlatformSnapshot.CommandLine.Arguments
import PlatformSnapshot.CommandLine.Check
import PlatformSnapshot.Settings.Load
import PlatformSnapshot.Snapshot.Document
import PlatformSnapshot.Exposition
/-!
What the program prints and how it ends, as a function of its arguments, the files that it sees, the
host's name and the time. Arguments override the settings of a file, which are checked before
anything else is done with them.
-/
namespace PlatformSnapshot.CommandLine

structure Outcome where
  exit : Nat := 0
  out : String := ""
  err : String := ""
  /-- The level that logging is set up with, if the run comes to that. -/
  logLevel : Option LogLevel := none
  deriving DecidableEq, Repr

def programName : String := "herakles-platform-collector"

def helpText : String :=
  s!"Usage: {programName} [OPTIONS] [COMMAND]\n\nCommands:\n" ++
    "  collect  Run one collection cycle and print the report\n" ++
    "  check    Check that every kernel source is readable\n"

def versionText : Option String → String
  | none => s!"{programName} {collectorVersion}\n"
  | some command => s!"{programName}-{command} {collectorVersion}\n"

def Stop.outcome : Stop → Outcome
  | .help => { out := helpText }
  | .version command => { out := versionText command }
  | .misuse => { exit := 2, err := s!"error: wrong arguments; see {programName} --help\n" }

/-- A message whose further lines are indented. -/
def indentLines (indent : Nat) (message : String) : String :=
  .ofList (message.toList.flatMap fun c => if c = '\n' then '\n' :: List.replicate indent ' ' else [c])

/-- An error and its causes; several causes are numbered from zero. -/
def errorText (message : String) (causes : List String) : String :=
  match causes with
  | [] => s!"Error: {message}\n"
  | [cause] => s!"Error: {message}\n\nCaused by:\n    {indentLines 4 cause}\n"
  | causes =>
    let numbered := (List.range causes.length).zipWith (fun i cause => s!"    {i}: {indentLines 7 cause}\n") causes
    s!"Error: {message}\n\nCaused by:\n" ++ String.join numbered

def loadFailure (e : Settings.LoadError) : Outcome :=
  let causes := match e with
    | .unreadable _ cause => [cause.message]
    | .malformed _ => []
  { exit := 1, err := errorText e.message causes }

def sourceFailure (e : SourceError) : Outcome :=
  let causes := match e with
    | .unreadable _ cause => [e.message, cause.message]
    | e => [e.message]
  { exit := 1, err := errorText "Platform collection failed" causes }

/-- The settings with what the arguments say in their place. -/
def override (a : Arguments) (s : Settings) : Settings := {
  procRoot := a.procRoot <|> s.procRoot
  nodeRoot := a.nodeRoot <|> s.nodeRoot
  resctrlRoot := a.resctrlRoot <|> s.resctrlRoot
  resourceControl := if a.withoutResourceControl then some false else s.resourceControl
  parallel := if a.parallel then some true else s.parallel
  outputFormat :=
    match a.command with
    | some (.collect (some format) _) => some format.name
    | _ => s.outputFormat
  logLevel := a.logLevel.map LogLevel.name <|> s.logLevel }

def settings (a : Arguments) (view : Files.Access) : Except Settings.LoadError Settings :=
  (if a.noConfig then .ok .standard else Settings.load view a.config).map (override a)

def outputFormat (s : Settings) : OutputFormat := (s.outputFormat.bind OutputFormat.ofText?).getD .json

def logLevel (a : Arguments) (s : Settings) : LogLevel :=
  (a.logLevel <|> s.logLevel.bind LogLevel.ofText?).getD .info

def reportText (r : Report) (format : OutputFormat) (platformOnly : Bool) :
    Except Exposition.Error String :=
  let document := if platformOnly then r.snapshot.document else r.document
  match format with
  | .json => .ok (Json.renderPretty document)
  | .yaml => .ok (Yaml.render document)
  | .prometheus => Exposition.render r.metrics r.labels

def collect (c : Collector) (format : OutputFormat) (platformOnly : Bool) (view : Files.Access) (host : Host)
    (now : Timestamp) : Outcome :=
  match c.collect view now with
  | .error e => sourceFailure e
  | .ok snapshot =>
    match reportText (snapshot.report host) format platformOnly with
    | .ok text => { out := text ++ "\n" }
    | .error e => { exit := 1, err := errorText "Prometheus encoding failed" [e.message] }

def check (probe : Bool) (s : Settings) (view : Files.Access) (host : Host) : Outcome :=
  let ss := sections probe s view host
  { exit := if passes ss then 0 else 1, out := checkText ss }

/-- Does what the command says; without a command a cycle is run. -/
def dispatch (command : Option Command) (s : Settings) (view : Files.Access) (host : Host) (now : Timestamp) :
    Outcome :=
  match command with
  | some (.check probe) => check probe s view host
  | some (.collect _ platformOnly) => collect s.collector (outputFormat s) platformOnly view host now
  | none => collect s.collector (outputFormat s) false view host now

def perform (a : Arguments) (s : Settings) (view : Files.Access) (host : Host) (now : Timestamp) :
    Outcome :=
  match s.validate with
  | .error e => { exit := 1, err := s!"❌ Configuration invalid: {e.message}\n" }
  | .ok _ =>
    if a.checkConfig then { out := "✅ Configuration is valid\n" }
    else if a.showConfig then { out := s.render (a.configFormat.getD .yaml) ++ "\n" }
    else { dispatch a.command s view host now with logLevel := some (logLevel a s) }

def run (args : List String) (view : Files.Access) (host : Host) (now : Timestamp) : Outcome :=
  match Arguments.read args with
  | .error stop => stop.outcome
  | .ok a =>
    match settings a view with
    | .error e => loadFailure e
    | .ok s => perform a s view host now

end PlatformSnapshot.CommandLine
