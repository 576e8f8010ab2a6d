import PlatformSnapshot.Number.Binary64
import PlatformSnapshot.Snapshot.Basic
import PlatformSnapshot.Host
/-!
Measurement points derived from a snapshot: one for the used memory and one for the busy time of
every processor, all with the snapshot's time, and the labels that describe the host. Values are
binary floating-point numbers, so large counters are rounded here and nowhere else.
-/
namespace PlatformSnapshot

inductive MetricName where
  | memoryUsage
  | cpuUsage
  deriving DecidableEq, Repr

inductive MetricKind where
  | gauge
  | counter
  deriving DecidableEq, Repr

def MetricKind.text : MetricKind → String
  | .gauge => "gauge"
  | .counter => "counter"

namespace MetricName

def text : MetricName → String
  | .memoryUsage => "memory_usage"
  | .cpuUsage => "cpu_usage_per_cpu"

def kind : MetricName → MetricKind
  | .memoryUsage => .gauge
  | .cpuUsage => .counter

def help : MetricName → String
  | .memoryUsage =>
    "Total memory used by platform in bytes based on /proc/meminfo (MemTotal - MemFree - Buffers - Cached)"
  | .cpuUsage =>
    "Logical CPU busy time based on /proc/stat (user + nice + system + irq + softirq + steal), USER_HZ ticks"

end MetricName

abbrev Labels := SortedMap String String

structure Metric where
  name : MetricName
  value : Binary64
  kind : MetricKind
  help : String
  labels : Labels
  timestamp : Timestamp
  deriving DecidableEq

namespace Metric

/-- A point with the kind and the help text of its name. -/
def ofName (name : MetricName) (value : Binary64) (labels : Labels) (timestamp : Timestamp) : Metric :=
  ⟨name, value, name.kind, name.help, labels, timestamp⟩

end Metric

namespace Snapshot

def busyMetric (s : Snapshot) (e : UInt32 × UInt64) : Metric :=
  .ofName .cpuUsage (.ofNat e.2.toNat) (.ofList [("cpu", .ofList (Numeral.ofNat e.1.toNat))])
    s.timestamp

def metrics (s : Snapshot) : List Metric :=
  .ofName .memoryUsage (.ofInt s.memoryUsed.toInt) ∅ s.timestamp ::
    s.busyTime.entries.map s.busyMetric

/-- The labels that every metric of the host carries. -/
def labels (s : Snapshot) (h : Host) : Labels :=
  .ofList [
    ("sockets", .ofList (Numeral.ofNat s.sockets)),
    ("cores", .ofList (Numeral.ofNat s.cores)),
    ("cpus", .ofList (Numeral.ofNat s.cpus)),
    ("host", h.name),
    ("version", h.version),
    ("cpu_model", s.model)]

end Snapshot

/-- Everything that one cycle yields. -/
structure Report where
  snapshot : Snapshot
  metrics : List Metric
  labels : Labels
  deriving DecidableEq

def Snapshot.report (s : Snapshot) (h : Host) : Report := ⟨s, s.metrics, s.labels h⟩

end PlatformSnapshot
