import PlatformSnapshot.Settings.Basic
import PlatformSnapshot.Host
/-!
Checking the sources one by one. The outcome is a list of sections with findings, and the check
passes unless one of the findings is bad. Resource control is looked at whenever a cycle would read
it, or when that is asked for.
-/
namespace PlatformSnapshot.CommandLine

inductive Finding where
  | good (text : String)
  | notable (text : String)
  | bad (text : String)
  deriving DecidableEq, Repr

def Finding.line : Finding → String
  | .good text => s!"   ✅ {text}\n"
  | .notable text => s!"   ⚠️  {text}\n"
  | .bad text => s!"   ❌ {text}\n"

def Finding.isBad : Finding → Bool
  | .bad _ => true
  | _ => false

structure Section where
  title : String
  findings : List Finding
  deriving DecidableEq, Repr

/-- One bad finding for a failure, other findings for a result. -/
def findings (r : Except SourceError α) (f : α → List Finding) : List Finding :=
  match r with
  | .ok a => f a
  | .error e => [.bad e.message]

def topologyFindings (t : Topology) : List Finding :=
  [.good s!"{t.sockets} sockets, {t.cores} cores, {t.cpus} cpus ({t.model})"]

/-- The number of busy times has to be that of the processors, where these are known. -/
def busyTimeFindings (topology : Except SourceError Topology) (b : BusyTime) : List Finding :=
  match topology with
  | .ok t =>
    if t.cpus ≠ b.size then
      [.bad s!"{b.size} per-CPU entries but {t.cpus} processors in cpuinfo"]
    else [.good s!"{b.size} per-CPU entries"]
  | .error _ => [.good s!"{b.size} per-CPU entries"]

/-- Whole units of 2^20 bytes, toward zero. -/
def memoryFindings (used : Int64) : List Finding :=
  [.good s!"{(used.toInt.tdiv 1024).tdiv 1024} MB used"]

def nodeFinding (e : UInt32 × IdSet) : Finding := .good s!"node{e.1}: cpus {IdList.encode e.2}"

def nodeFindings (n : Nodes) : List Finding :=
  if n.cpus.size = 0 then [.notable "No NUMA nodes found"] else n.cpus.entries.map nodeFinding

def resourceControlFindings (r : ResourceControl) : List Finding :=
  .good s!"monitoring: {r.hasMonitoring}, allocation: {r.hasControl}" ::
    match r.classCount with
    | some n => [.good s!"{n} CLOSids available"]
    | none => []

def settingsFindings (s : Settings) : List Finding :=
  match s.validate with
  | .ok _ => [.good "Configuration is valid"]
  | .error e => [.bad s!"Configuration invalid: {e.message}"]

def looksAtResourceControl (probe : Bool) (s : Settings) : Bool := probe || s.collector.withResourceControl

def sections (probe : Bool) (s : Settings) (view : Files.Access) (host : Host) : List Section :=
  let c := s.collector
  let topology := Cycle.readTopology c view
  [⟨s!"🧩 Checking {c.roots.cpuinfo}...", findings topology topologyFindings⟩,
    ⟨s!"📈 Checking {c.roots.stat}...",
      findings (Cycle.readBusyTime c view) (busyTimeFindings topology)⟩,
    ⟨s!"💾 Checking {c.roots.meminfo}...", findings (Cycle.readMemory c view) memoryFindings⟩,
    ⟨s!"🗺️  Checking {c.roots.node}...", findings (Cycle.readNodes c view) nodeFindings⟩] ++
  (if looksAtResourceControl probe s then
    [⟨s!"🧮 Checking {c.roots.resctrl}...",
      findings (ResourceControl.read view c.roots.resctrl) resourceControlFindings⟩]
  else []) ++
  [⟨"🏷️  Checking hostname...", [.good s!"{host.name} (collector {host.version})"]⟩,
    ⟨"⚙️  Checking configuration...", settingsFindings s⟩]

def passes (ss : List Section) : Bool := ss.all fun s => s.findings.all fun f => !f.isBad

def Section.text (s : Section) : String :=
  s!"\n{s.title}\n" ++ String.join (s.findings.map Finding.line)

def heading : String :=
  "🔍 Herakles Platform Collector - System Check\n=============================================\n"

def summary (passed : Bool) : Section :=
  ⟨"📋 Summary:",
    [if passed then .good "All checks passed - platform sources are readable"
      else .bad "Some checks failed - please review the errors above"]⟩

def checkText (ss : List Section) : String :=
  heading ++ String.join (ss.map Section.text) ++ (summary (passes ss)).text

end PlatformSnapshot.CommandLine
