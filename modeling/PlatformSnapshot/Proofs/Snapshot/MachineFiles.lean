import PlatformSnapshot.Proofs.Files.Tree
import PlatformSnapshot.Proofs.Snapshot.Machine
/-!
The files of a machine as a tree. Every machine can be written down, so that what holds wherever its
files are shown holds of something.
-/
namespace PlatformSnapshot

open Files (IsName Leads Node)

theorem utf8ByteSize_ofList_le (cs : List Char) : (String.ofList cs).utf8ByteSize ≤ 4 * cs.length := by
  induction cs with
  | nil => simp
  | cons c cs ih =>
    have hcons : String.ofList (c :: cs) = String.singleton c ++ String.ofList cs := by simp
    have hc := c.utf8Size_le_four
    rw [hcons, String.utf8ByteSize_append, String.utf8ByteSize_singleton, List.length_cons]
    omega

/-- A text takes at most four bytes a character. -/
theorem utf8ByteSize_le (s : String) : s.utf8ByteSize ≤ 4 * s.toList.length := by
  have h := utf8ByteSize_ofList_le s.toList
  rwa [String.ofList_toList] at h

namespace Nodes

theorem name_injective {id j : UInt32} (h : name id = name j) : id = j := by
  have hid := id?_name id
  rw [h, id?_name] at hid
  exact (Option.some.inj hid).symm

theorem utf8ByteSize_name_le (id : UInt32) : (name id).utf8ByteSize ≤ 56 := by
  have hid : id.toNat < Nat.pow 10 (9 + 1) := Nat.lt_trans id.toNat_lt (by decide)
  have hlength := Numeral.length_ofNat_le hid
  have hsize := utf8ByteSize_le (name id)
  have hnode : "node".toList.length = 4 := by decide
  rw [toList_name, List.length_append, hnode] at hsize
  omega

theorem isName_name (id : UInt32) : IsName (name id) := by
  have hother : ∀ other, id? other = none → name id ≠ other := by
    intro other hnone h
    rw [← h, id?_name] at hnone
    cases hnone
  have hfree : ∀ c, c ∉ "node".toList → Numeral.isDigit c = false → c ∉ (name id).toList := by
    intro c hc hdigit
    rw [toList_name, List.mem_append]
    exact not_or.2 ⟨hc, Numeral.not_mem_ofNat hdigit _⟩
  constructor
  case ne_empty => exact hother "" (by decide)
  case ne_here => exact hother "." (by decide)
  case ne_up => exact hother ".." (by decide)
  case size_le => exact Nat.le_trans (utf8ByteSize_name_le id) (by decide)
  case slash_free => exact hfree '/' (by decide) (by decide)
  case nul_free => exact hfree '\x00' (by decide) (by decide)

end Nodes

namespace Machine.Surroundings

variable {m : Machine} (d : m.Surroundings)

def procEntries : List (String × Node) :=
  [("cpuinfo", .file d.cpuinfo.toUTF8), ("stat", .file d.stat.toUTF8), ("meminfo", .file d.meminfo.toUTF8)]

def nodeEntries (id : UInt32) (n : MemoryNode) : List (String × Node) :=
  [("meminfo", .file (d.nodeMeminfo id n).toUTF8), ("cpulist", .file (cpulist n).toUTF8)]

/-- The node directory: its other entries, then the nodes. -/
def nodesEntries : List (String × Node) :=
  d.entries ++ m.nodes.entries.map fun e => (Nodes.name e.1, .directory (d.nodeEntries e.1 e.2))

def tree : Files.Tree :=
  [("proc", .directory d.procEntries),
    ("sys", .directory [("devices", .directory [("system", .directory [("node", .directory d.nodesEntries)])])])]

def treeRoots : Roots := ⟨"proc", "sys/devices/system/node", "sys/fs/resctrl"⟩

theorem lookup_nodesEntries {id : UInt32} {n : MemoryNode} (h : m.nodes.get? id = some n) :
    d.nodesEntries.lookup (Nodes.name id) = some (.directory (d.nodeEntries id n)) := by
  have hother : d.entries.lookup (Nodes.name id) = none := by
    refine List.lookup_eq_none_iff.2 ?_
    intro e he
    refine bne_iff_ne.2 ?_
    intro hname
    have hid := d.entries_id? e he
    rw [← hname, Nodes.id?_name] at hid
    cases hid
  obtain ⟨as, bs, hsplit⟩ := List.append_of_mem ((SortedMap.mem_entries_iff _).2 h)
  have hnodup := m.nodes.nodup_keys
  rw [SortedMap.keys, hsplit, List.map_append, List.nodup_append] at hnodup
  rw [nodesEntries, List.lookup_append, hother, Option.none_or, hsplit, List.map_append, List.map_cons]
  refine List.lookup_eq_some_iff.2 ⟨_, _, rfl, ?_⟩
  intro p hp
  obtain ⟨e, he, rfl⟩ := List.mem_map.1 hp
  refine bne_iff_ne.2 ?_
  intro hname
  exact hnodup.2.2 e.1 (List.mem_map_of_mem he) id (by simp) (Nodes.name_injective hname).symm

theorem leads_proc : Leads "proc" ["proc"] := by
  refine ⟨by decide, ?_, by decide, 'c', by decide, by decide⟩
  exact List.forall_mem_singleton.2 (by constructor <;> decide)

theorem leads_node : Leads "sys/devices/system/node" ["sys", "devices", "system", "node"] := by
  refine ⟨by decide, ?_, by decide, 'e', by decide, by decide⟩
  simp only [List.forall_mem_cons]
  exact ⟨by constructor <;> decide, by constructor <;> decide, by constructor <;> decide,
    by constructor <;> decide, nofun⟩

theorem find?_node :
    (Node.directory d.tree).find? ["sys", "devices", "system", "node"] = some (.directory d.nodesEntries) := rfl

theorem read_proc {name : String} (hn : IsName name) {text : String}
    (h : d.procEntries.lookup name = some (.file text.toUTF8)) :
    d.tree.access.read (Path.join "proc" name) = .ok text := by
  obtain ⟨hleads, hsize⟩ := leads_proc.join hn
  have hproc : "proc".utf8ByteSize = 4 := by decide
  have hname := hn.size_le
  refine Files.Tree.read_eq_text hleads (by omega) ?_
  exact Node.find?_cons h []

theorem read_node {id : UInt32} {n : MemoryNode} (hid : m.nodes.get? id = some n) {name : String}
    (hn : IsName name) {text : String} (h : (d.nodeEntries id n).lookup name = some (.file text.toUTF8)) :
    d.tree.access.read (Path.join (Path.join "sys/devices/system/node" (Nodes.name id)) name) = .ok text := by
  obtain ⟨hdirectory, hdsize⟩ := leads_node.join (Nodes.isName_name id)
  obtain ⟨hleads, hsize⟩ := hdirectory.join hn
  have hroot : "sys/devices/system/node".utf8ByteSize = 23 := by decide
  have hnode := (Nodes.isName_name id).size_le
  have hname := hn.size_le
  refine Files.Tree.read_eq_text hleads (by omega) ?_
  calc (Node.directory d.tree).find? (["sys", "devices", "system", "node"] ++ [Nodes.name id] ++ [name])
      = (Node.directory d.nodesEntries).find? [Nodes.name id, name] := rfl
    _ = (Node.directory (d.nodeEntries id n)).find? [name] := Node.find?_cons (d.lookup_nodesEntries hid) _
    _ = some (.file text.toUTF8) := Node.find?_cons h _

/-- The tree shows the machine's files. -/
theorem shown_tree : d.Shown treeRoots d.tree.access where
  cpuinfo := d.read_proc (by constructor <;> decide) rfl
  stat := d.read_proc (by constructor <;> decide) rfl
  meminfo := d.read_proc (by constructor <;> decide) rfl
  entries := by
    refine ⟨_, Files.Tree.list_eq_names leads_node (by decide) d.find?_node, ?_⟩
    rw [nodesEntries, List.map_append, List.map_map, SortedMap.keys, List.map_map]
    exact .refl _
  nodeMeminfo id n h := d.read_node h (by constructor <;> decide) rfl
  cpulist id n h := d.read_node h (by constructor <;> decide) rfl

end Machine.Surroundings

namespace Machine

open Text (IsLine startsWith)
open Processor (Field)

/-- A field as it stands in every record. -/
def plainField (key value : String) (hc : ':' ∉ key.toList) (hl : IsLine (key.toList ++ ':' :: value.toList)) :
    Field := ⟨key.toList, value.toList, hc, hl⟩

/-- Surroundings as most machines have them. -/
def usual (m : Machine) : m.Surroundings where
  before _ := [plainField "vendor_id\t" " AuthenticAMD" (by decide) (by decide)]
  after _ := [plainField "cpu cores\t" " 2" (by decide) (by decide)]
  totals := [8000, 80, 4000, 900000, 100, 40, 20, 10, 0, 0]
  rows := m.seats.map (·.id)
  otherCounts := ["intr 123456 0 0".toList, "ctxt 987654".toList]
  figureGap _ := 7
  middleFigures := ["MemAvailable:    9000000 kB".toList]
  otherFigures := ["SwapCached:            0 kB".toList]
  nodeGap _ _ := 7
  nodeFigures _ := []
  entries := [("online", .file "0-1\n".toUTF8)]
  fields_names := by
    intro s f hf
    rcases List.mem_append.1 hf with hf | hf
    · obtain rfl := List.mem_singleton.1 hf
      decide
    · obtain rfl := List.mem_singleton.1 hf
      decide
  fields_model _ := List.forall_mem_singleton.2 (by decide)
  rows_perm := .refl _
  otherCounts_lines := by decide
  middleFigures_other := List.forall_mem_singleton.2 ⟨by decide, fun k => by cases k <;> decide⟩
  otherFigures_other := List.forall_mem_singleton.2 ⟨by decide, fun k => by cases k <;> decide⟩
  nodeFigures_other := by simp
  entries_id? := List.forall_mem_singleton.2 (by decide)

/-- Collecting undoes writing. For every machine there is just one snapshot that its description
describes, and this is what is collected from its files, whatever else they hold, whatever the order
of their parts and wherever they are, and in whatever order they are read. -/
theorem collect_undoes_writing (m : Machine) (now : Timestamp) :
    ∃ p, (∀ q, m.Described q ∧ q.resourceControl = none ∧ q.timestamp = now ↔ q = p) ∧
      ∀ d : m.Surroundings,
        (∀ parallel, Collector.collect ⟨Surroundings.treeRoots, false, parallel⟩ d.tree.access now = .ok p) ∧
        ∀ roots view, d.Shown roots view → ∀ s parallel,
          Cycle.collectBy s ⟨roots, false, parallel⟩ view now = .ok p := by
  obtain ⟨p, -, hp, hrc, htime⟩ := collectBy_of_shown m.usual.shown_tree Cycle.sequential false now
  have hunique : ∀ q, m.Described q → q.resourceControl = none → q.timestamp = now → q = p :=
    fun q hq hqrc hqtime => hq.unique hp (hqtime.trans htime.symm) (hqrc.trans hrc.symm)
  have hshown : ∀ (d : m.Surroundings) roots view, d.Shown roots view → ∀ s parallel,
      Cycle.collectBy s ⟨roots, false, parallel⟩ view now = .ok p := by
    intro d roots view h s parallel
    obtain ⟨q, hok, hq, hqrc, hqtime⟩ := collectBy_of_shown h s parallel now
    rw [hok, hunique q hq hqrc hqtime]
  refine ⟨p, fun q => ⟨fun ⟨hq, hqrc, hqtime⟩ => hunique q hq hqrc hqtime, ?_⟩, fun d => ⟨?_, hshown d⟩⟩
  · rintro rfl
    exact ⟨hp, hrc, htime⟩
  · exact fun parallel => hshown d _ _ d.shown_tree _ parallel

/-- Three processors, listed out of order. Those of socket 1 are on cores whose ids are not contiguous, one
of the three has been busy as long as a counter can say, and of the two that node 1 has one is not there. -/
def unevenMachine : Machine where
  seats := [⟨5, 1, 9⟩, ⟨0, 0, 0⟩, ⟨2, 1, 4⟩]
  model := "AMD EPYC 9654 96-Core Processor"
  counters id :=
    if id = 2 then ⟨18446744073709551610, 1, 1, 900, 30, 1, 1, 1, 7, 0, by decide⟩
    else ⟨100, 20, 30, 18446744073709551615, 5, 4, 3, 0, 0, 0, by decide⟩
  figures := ⟨65536000, 1000, 200, 65536000⟩
  nodes := .ofList [(1, ⟨4096, 0, .ofList [2, 7], by decide, by decide⟩)]
  seats_ne_nil := by decide
  seats_nodup := by decide
  model_line := by decide
  model_phrase := by
    constructor <;> rintro _ ⟨⟩ <;> decide
  figures_natural := by
    constructor <;> decide
  figures_fit := by decide

theorem collect_unevenMachine :
    ∃ p, Collector.collect ⟨Surroundings.treeRoots, false, true⟩ unevenMachine.usual.tree.access
        ⟨⟨2024, 2, 29⟩, 23, 59, 60, 5⟩ = .ok p ∧
      p.cpus = 3 ∧ p.sockets = 2 ∧ (∀ id, id ∈ p.layout.onCore 1 4 ↔ id = 2) ∧
      p.model = "AMD EPYC 9654 96-Core Processor" ∧
      p.busyTime.get? 2 = some 18446744073709551615 ∧ p.memoryUsed.toInt = -1228800 ∧
      p.nodeCpus.get? 1 = some (.ofList [2, 7]) := by
  obtain ⟨p, hp, hcollect⟩ := collect_undoes_writing unevenMachine ⟨⟨2024, 2, 29⟩, 23, 59, 60, 5⟩
  obtain ⟨hdescribed, -, -⟩ := (hp p).2 rfl
  refine ⟨p, (hcollect unevenMachine.usual).1 true, hdescribed.cpus, ?_, ?_, hdescribed.model, ?_, ?_, ?_⟩
  · exact hdescribed.sockets.trans (by decide)
  · intro id
    refine (hdescribed.processor_ids id 1 4).trans ?_
    simp [unevenMachine]
  · exact (hdescribed.busyTime 2 _).2 ⟨by decide, by decide⟩
  · exact hdescribed.memoryUsed.trans (by decide)
  · exact (hdescribed.nodeCpus 1).trans rfl

end Machine
end PlatformSnapshot
