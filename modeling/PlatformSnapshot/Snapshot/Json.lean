import PlatformSnapshot.Snapshot.Document
import PlatformSnapshot.Json.Decode
import PlatformSnapshot.Json.Writer
/-!
Reading snapshots, resource control records, hosts and roots back from JSON. The fields are asked
for in the order in which they are written.
-/
namespace PlatformSnapshot

open Json Term

def ResourceControl.ofTerm? (t : Term) : Option ResourceControl := do
  let [a, b, c, d, e, f, g, h, i] ← t.fields? [
      ["rdt_cache_monitoring_enabled"], ["rdt_mb_monitoring_enabled"],
      ["rdt_cache_control_enabled"], ["rdt_mb_control_enabled"], ["cbm_mask"], ["min_cbm_bits"],
      ["num_closids"], ["mb_bandwidth_gran"], ["mb_min_bandwidth"]]
    | none
  return {
    cacheMonitoring := ← required? flag? a
    bandwidthMonitoring := ← required? flag? b
    cacheControl := ← required? flag? c
    bandwidthControl := ← required? flag? d
    cacheMask := ← optional? text? e
    minCacheBits := ← optional? text? f
    classCount := ← optional? word32? g
    bandwidthStep := ← optional? word32? h
    minBandwidth := ← optional? word32? i }

def Snapshot.ofTerm? (t : Term) : Option Snapshot := do
  let [a, b, c, d, e, f, g, h, i, j, k, l] ← t.fields? [
      ["sockets"], ["cores"], ["cpus"], ["topology"], ["cpu_model"], ["cpus_usage"],
      ["total_memory_used"], ["node_memory_free"], ["node_memory_used"], ["node_cpus"],
      ["timestamp"], ["rdt_information"]]
    | none
  return {
    sockets := ← required? count? a
    cores := ← required? count? b
    cpus := ← required? count? c
    layout := ← required? (idMap? (idMap? (list? word32?))) d
    model := ← required? text? e
    busyTime := ← required? (idMap? word64?) f
    memoryUsed := ← required? int64? g
    nodeMemoryFree := ← required? (idMap? int64?) h
    nodeMemoryUsed := ← required? (idMap? int64?) i
    nodeCpus := ← required? (idMap? idSet?) j
    timestamp := ← required? (fun t => t.text?.bind Timestamp.ofText?) k
    resourceControl := ← optional? ResourceControl.ofTerm? l }

def Host.ofTerm? (t : Term) : Option Host := do
  let [a, b] ← t.fields? [["hostname"], ["version"]] | none
  return { name := ← required? text? a, version := ← required? text? b }

def Roots.ofTerm? (t : Term) : Option Roots := do
  let [a, b, c] ← t.fields? [["proc_root"], ["node_root"], ["resctrl_root"]] | none
  return {
    proc := ← required? text? a
    node := ← required? text? b
    resctrl := ← required? text? c }

def Snapshot.ofJson? (s : String) : Option Snapshot := (Term.ofText? s).bind ofTerm?

def ResourceControl.ofJson? (s : String) : Option ResourceControl := (Term.ofText? s).bind ofTerm?

def Host.ofJson? (s : String) : Option Host := (Term.ofText? s).bind ofTerm?

def Roots.ofJson? (s : String) : Option Roots := (Term.ofText? s).bind ofTerm?

end PlatformSnapshot
