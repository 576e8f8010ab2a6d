import PlatformSnapshot.Files.Recorded
import PlatformSnapshot.Proofs.Memory.Discovery
import PlatformSnapshot.Proofs.ResourceControl
import PlatformSnapshot.Proofs.Snapshot.Interleaving
import PlatformSnapshot.Snapshot.Sources
/-!
What a cycle can notice of a file system. Two views that agree on its footprint have the same outcome,
be it a snapshot or an error. The footprint depends on what is found: which nodes are listed says whose
files count, and the schemata say whose parameters do. All else may differ.
-/
namespace PlatformSnapshot

open Nodes (isNodeName)
open Attempt

variable {view other : Files.Access} {path root : String}

/-- Two views that agree on the processors, the memory and the nodes: on the outcome of reading each
file, on whether the node directory can be listed, or why not, and on the row of nodes listed there. -/
structure SameSystem (r : Roots) (view other : Files.Access) : Prop where
  cpuinfo : other.read r.cpuinfo = view.read r.cpuinfo
  stat : other.read r.stat = view.read r.stat
  meminfo : other.read r.meminfo = view.read r.meminfo
  listing : (other.list r.node).map (List.filter isNodeName) = (view.list r.node).map (List.filter isNodeName)
  nodes : ∀ names, view.list r.node = .ok names → ∀ name ∈ names, isNodeName name →
    ∀ file ∈ ["meminfo", "cpulist"],
    other.read (Path.join (Path.join r.node name) file) = view.read (Path.join (Path.join r.node name) file)

/-- Two views that agree on the files of `names` below the root of resource control. -/
def SameParameters (r : Roots) (view other : Files.Access) (names : List String) : Prop :=
  ∀ name ∈ names, other.read (Path.join r.resctrl name) = view.read (Path.join r.resctrl name)

/-- Two views that agree on resource control: on what it monitors, on the schemata, and on the
parameters of those allocations that the schemata mention. -/
structure SameResourceControl (r : Roots) (view other : Files.Access) : Prop where
  monitors : ∀ path ∈ r.monitors, other.has path = view.has path
  schemata : SameParameters r view other ["schemata"]
  cache : ∀ text, view.read (Path.join r.resctrl "schemata") = .ok text → "L3".toList <:+: text.toList →
    SameParameters r view other ["info/L3/cbm_mask", "info/L3/min_cbm_bits", "info/L3/num_closids"]
  bandwidth : ∀ text, view.read (Path.join r.resctrl "schemata") = .ok text → "MB:".toList <:+: text.toList →
    SameParameters r view other ["info/MB/bandwidth_gran", "info/MB/min_bandwidth", "info/MB/num_closids"]

namespace Nodes

/-- Entries that are no nodes may as well be missing. -/
theorem readEntries_filter (n : Nodes) (names : List String) :
    readEntries view root n (names.filter isNodeName) = readEntries view root n names := by
  induction names generalizing n with
  | nil => rfl
  | cons name rest ih =>
    cases hid : id? name with
    | none =>
      have hname : isNodeName name = false := by simp [isNodeName, hid]
      rw [readEntries_skip hid, List.filter_cons_of_neg (by simp [hname]), ih]
    | some id =>
      have hname : isNodeName name = true := by simp [isNodeName, hid]
      rw [List.filter_cons_of_pos hname, readEntries_node hid, readEntries_node hid]
      exact congrArg _ (funext fun r => ih _)

theorem read_congr
    (hlist : (other.list root).map (List.filter isNodeName) = (view.list root).map (List.filter isNodeName))
    (hnodes : ∀ names, view.list root = .ok names → ∀ name ∈ names, isNodeName name →
      readNode other (Path.join root name) = readNode view (Path.join root name)) :
    read other root = read view root := by
  cases hview : view.list root with
  | error e =>
    cases hother : other.list root with
    | ok others => simp [hview, hother, Except.map] at hlist
    | error f =>
      obtain rfl : f = e := by simpa [hview, hother, Except.map] using hlist
      rw [read_eq, read_eq, hview, hother]
      rfl
  | ok names =>
    cases hother : other.list root with
    | error f => simp [hview, hother, Except.map] at hlist
    | ok others =>
      have hfilter : others.filter isNodeName = names.filter isNodeName := by
        simpa [hview, hother, Except.map] using hlist
      calc read other root = readEntries other root {} others := read_of_list hother
        _ = readEntries other root {} names := by rw [← readEntries_filter, hfilter, readEntries_filter]
        _ = readEntries view root {} names := readEntries_congr (hnodes names hview) {}
        _ = read view root := (read_of_list hview).symm

end Nodes

namespace ResourceControl

variable {r : Roots}

/-- What is not asked for need not agree. -/
theorem onlyIf_congr {wanted : Bool} {x y : Except SourceError α} (h : wanted = true → x = y) :
    onlyIf wanted x = onlyIf wanted y := by
  cases wanted with
  | false => rfl
  | true => rw [h rfl]

theorem read_congr (h : SameResourceControl r view other) : read other r.resctrl = read view r.resctrl := by
  have hmonitor : ∀ name ∈ ["llc_occupancy", "mbm_total_bytes"],
      other.has (monitor r.resctrl name) = view.has (monitor r.resctrl name) :=
    fun name hname => h.monitors _ (List.mem_map_of_mem hname)
  rw [read_eq, read_eq, hmonitor "llc_occupancy" (by simp), hmonitor "mbm_total_bytes" (by simp),
    outcome_source_congr (h.schemata _ (by simp))]
  cases htext : view.read (Path.join r.resctrl "schemata") with
  | error e => rw [outcome_source, htext]; rfl
  | ok text =>
    have hsource : (source (Path.join r.resctrl "schemata")).outcome view = .ok text := outcome_source_eq_ok_iff.2 htext
    rw [hsource]
    have hcache : onlyIf (mentionsCache text) ((cacheParameters r.resctrl).outcome other) =
        onlyIf (mentionsCache text) ((cacheParameters r.resctrl).outcome view) :=
      onlyIf_congr fun hl => cacheParameters_congr (h.cache text htext (Text.contains_iff.1 hl))
    have hbandwidth : onlyIf (mentionsBandwidth text) ((bandwidthParameters r.resctrl).outcome other) =
        onlyIf (mentionsBandwidth text) ((bandwidthParameters r.resctrl).outcome view) :=
      onlyIf_congr fun hl => bandwidthParameters_congr (h.bandwidth text htext (Text.contains_iff.1 hl))
    simp only [bind, Except.bind, hcache, hbandwidth]

end ResourceControl

namespace Cycle

variable {c : Collector}

/-- The five readings of a cycle are the same in two views that agree on its footprint. -/
theorem readings_congr (hsystem : SameSystem c.roots view other)
    (hrc : c.withResourceControl = true → SameResourceControl c.roots view other) :
    readings c other = readings c view := by
  have hnodes : readNodes c other = readNodes c view :=
    Nodes.read_congr hsystem.listing fun names hnames name hname hnode =>
      Nodes.readNode_congr (hsystem.nodes names hnames name hname hnode)
  have hcontrol : readResourceControl c other = readResourceControl c view := by
    rw [readResourceControl_eq, readResourceControl_eq]
    exact ResourceControl.onlyIf_congr fun hwanted => ResourceControl.read_congr (hrc hwanted)
  have htopology : readTopology c other = readTopology c view := outcome_parsed_congr hsystem.cpuinfo
  have hbusyTime : readBusyTime c other = readBusyTime c view := outcome_parsed_congr hsystem.stat
  have hmemory : readMemory c other = readMemory c view := outcome_parsed_congr hsystem.meminfo
  simp only [readings, htopology, hbusyTime, hmemory, hnodes, hcontrol]

theorem collectBy_congr (h : readings c other = readings c view) (s t : Schedule) (now : Timestamp) :
    collectBy t c other now = collectBy s c view now := by
  injection h with htopology hbusyTime hmemory hnodes hcontrol
  rw [collectBy_eq_join, collectBy_eq_join, htopology, hbusyTime, hmemory, hnodes, hcontrol]

/-- Two views that agree on the footprint of a cycle have the same outcome: the same error, or the same
snapshot but for its time stamp, in whatever order the reads of either cycle come. Without resource
control nothing below its root is in the footprint, and with it no parameter of an allocation that
the schemata do not mention. -/
theorem collect_of_same_footprint (hsystem : SameSystem c.roots view other)
    (hcontrol : c.withResourceControl = true → SameResourceControl c.roots view other)
    (s t : Schedule) (now later : Timestamp) :
    collectBy t c other later = (collectBy s c view now).map fun p => { p with timestamp := later } := by
  have hsame := readings_congr hsystem hcontrol
  calc collectBy t c other later = c.collect view later := collectBy_congr hsame c.schedule t later
    _ = (c.collect view now).map fun p => { p with timestamp := later } := collect_later c view now later
    _ = (collectBy s c view now).map fun p => { p with timestamp := later } := by
      rw [Collector.collect, collectBy_congr rfl s c.schedule now]

/-- A host that allocates memory bandwidth only. -/
def bandwidthHost : Files.Recorded where
  contents := [
    ("proc/cpuinfo", .ok "processor : 3\nphysical id : 0\ncore id : 1\n"),
    ("proc/stat", .ok "cpu3 1 2 3 4 5 6 7 8\n"),
    ("proc/meminfo", .ok "MemTotal: 9 kB\n"),
    ("node/node2/meminfo", .ok "Node 2 MemFree: 5 kB\n"),
    ("node/node2/cpulist", .ok "3\n"),
    ("resctrl/schemata", .ok "MB:0=100\n"),
    ("resctrl/info/MB/bandwidth_gran", .ok "10\n"),
    ("resctrl/info/MB/min_bandwidth", .ok "20\n"),
    ("resctrl/info/MB/num_closids", .ok "8\n")]
  listings := [("node", .ok ["online", "node2"])]

/-- The same with entries that are no nodes but look much like it, with parameters of the cache that
cannot be used, and with another load average. -/
def clutteredHost : Files.Recorded where
  contents := bandwidthHost.contents ++ [
    ("proc/loadavg", .ok "0.00 0.01 0.05 1/100 1\n"),
    ("node/node2x/cpulist", .ok "7-\n"),
    ("resctrl/info/L3/cbm_mask", .error .isADirectory),
    ("resctrl/info/L3/num_closids", .ok "many\n")]
  listings := [("node", .ok ["node2x", "node2", "node", "has_cpu"])]
  existing := ["resctrl/mon_data/mon_L3_01/llc_occupancy"]

/-- The same without a file below the root of resource control. -/
def strippedHost : Files.Recorded where
  contents := bandwidthHost.contents.take 5
  listings := bandwidthHost.listings

def bandwidthCollector (withResourceControl : Bool) : Collector where
  roots := ⟨"proc", "node", "resctrl"⟩
  withResourceControl

def firstTime : Timestamp := ⟨⟨2024, 1, 2⟩, 3, 4, 5, 0⟩

def secondTime : Timestamp := ⟨⟨2024, 1, 2⟩, 3, 4, 6, 0⟩

theorem collect_clutteredHost :
    (∃ p, collectBy sequential (bandwidthCollector true) bandwidthHost.access firstTime = .ok p ∧
      collectBy alternating (bandwidthCollector true) clutteredHost.access secondTime =
        .ok { p with timestamp := secondTime }) ∧
    ∃ p, collectBy sequential (bandwidthCollector false) bandwidthHost.access firstTime = .ok p ∧
      collectBy alternating (bandwidthCollector false) strippedHost.access secondTime =
        .ok { p with timestamp := secondTime } := by
  have hcluttered : SameSystem ⟨"proc", "node", "resctrl"⟩ bandwidthHost.access clutteredHost.access := by
    refine ⟨by decide +kernel, by decide +kernel, by decide +kernel, by decide +kernel, ?_⟩
    rintro names ⟨⟩
    decide +kernel
  have hcontrol : SameResourceControl ⟨"proc", "node", "resctrl"⟩ bandwidthHost.access clutteredHost.access := by
    refine ⟨by decide +kernel, by unfold SameParameters; decide +kernel, ?_, ?_⟩
    · rintro text ⟨⟩ hcache
      exact absurd (Text.contains_iff.2 hcache) (by decide)
    · rintro text ⟨⟩ -
      unfold SameParameters
      decide +kernel
  have hstripped : SameSystem ⟨"proc", "node", "resctrl"⟩ bandwidthHost.access strippedHost.access := by
    refine ⟨by decide +kernel, by decide +kernel, by decide +kernel, by decide +kernel, ?_⟩
    rintro names ⟨⟩
    decide +kernel
  have hok : ∀ wanted, (collectBy sequential (bandwidthCollector wanted) bandwidthHost.access firstTime).isOk := by
    decide +kernel
  constructor
  · obtain ⟨p, hp⟩ := exists_ok_of_isOk (hok true)
    have hsame := collect_of_same_footprint (c := bandwidthCollector true) hcluttered (fun _ => hcontrol)
      sequential alternating firstTime secondTime
    exact ⟨p, hp, by rw [hsame, hp]; rfl⟩
  · obtain ⟨p, hp⟩ := exists_ok_of_isOk (hok false)
    have hsame := collect_of_same_footprint (c := bandwidthCollector false) hstripped nofun
      sequential alternating firstTime secondTime
    exact ⟨p, hp, by rw [hsame, hp]; rfl⟩

end Cycle
end PlatformSnapshot
