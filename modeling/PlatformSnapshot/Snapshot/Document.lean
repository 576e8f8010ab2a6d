import PlatformSnapshot.Document
import PlatformSnapshot.Snapshot.Roots
import PlatformSnapshot.Metric
import PlatformSnapshot.Text.Numeral
/-!
Snapshots and reports as documents: the names and the order of their fields.
-/
namespace PlatformSnapshot

namespace Document

def ofWord32 (n : UInt32) : Document := .integer n.toNat

def ofNat (n : Nat) : Document := .integer n

def ofInt64 (n : Int64) : Document := .integer n.toInt

def ofIdMap (f : α → Document) (m : SortedMap UInt32 α) : Document :=
  .table (m.entries.map fun e => (.id e.1.toNat, f e.2))

def ofIds (ids : List UInt32) : Document := .list (ids.map ofWord32)

def ofLabels (labels : Labels) : Document := record (labels.entries.map fun e => (e.1, .text e.2))

end Document

open Document

def ResourceControl.document (r : ResourceControl) : Document := record [
  ("rdt_cache_monitoring_enabled", .flag r.cacheMonitoring),
  ("rdt_mb_monitoring_enabled", .flag r.bandwidthMonitoring),
  ("rdt_cache_control_enabled", .flag r.cacheControl),
  ("rdt_mb_control_enabled", .flag r.bandwidthControl),
  ("cbm_mask", ofOption .text r.cacheMask),
  ("min_cbm_bits", ofOption .text r.minCacheBits),
  ("num_closids", ofOption ofWord32 r.classCount),
  ("mb_bandwidth_gran", ofOption ofWord32 r.bandwidthStep),
  ("mb_min_bandwidth", ofOption ofWord32 r.minBandwidth)]

def Snapshot.document (s : Snapshot) : Document := record [
  ("sockets", ofNat s.sockets),
  ("cores", ofNat s.cores),
  ("cpus", ofNat s.cpus),
  ("topology", ofIdMap (ofIdMap ofIds) s.layout),
  ("cpu_model", .text s.model),
  ("cpus_usage", ofIdMap (fun n => ofNat n.toNat) s.busyTime),
  ("total_memory_used", ofInt64 s.memoryUsed),
  ("node_memory_free", ofIdMap ofInt64 s.nodeMemoryFree),
  ("node_memory_used", ofIdMap ofInt64 s.nodeMemoryUsed),
  ("node_cpus", ofIdMap (fun set => ofIds set.ids) s.nodeCpus),
  ("timestamp", .text s.timestamp.text),
  ("rdt_information", ofOption ResourceControl.document s.resourceControl)]

def Host.document (h : Host) : Document := record [
  ("hostname", .text h.name),
  ("version", .text h.version)]

def Roots.document (r : Roots) : Document := record [
  ("proc_root", .text r.proc),
  ("node_root", .text r.node),
  ("resctrl_root", .text r.resctrl)]

def Metric.document (m : Metric) : Document := record [
  ("name", .text m.name.text),
  ("value", .number m.value),
  ("type", .text m.kind.text),
  ("help", .text m.help),
  ("labels", ofLabels m.labels),
  ("timestamp", .text m.timestamp.text)]

def Report.document (r : Report) : Document := record [
  ("platform", r.snapshot.document),
  ("metrics", .list (r.metrics.map Metric.document)),
  ("labels", ofLabels r.labels)]

end PlatformSnapshot
