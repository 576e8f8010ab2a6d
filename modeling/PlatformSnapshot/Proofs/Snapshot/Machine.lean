import PlatformSnapshot.Files.Tree
import PlatformSnapshot.Proofs.Memory.Nodes
import PlatformSnapshot.Proofs.Processor.BusyTime
import PlatformSnapshot.Proofs.Processor.Layout
import PlatformSnapshot.Proofs.Processor.Record
import PlatformSnapshot.Proofs.Snapshot.Interleaving
/-!
Collecting undoes writing. A machine is described by what a snapshot is to say of it, and its files
are written from that description in the kernel's format, together with whatever else such files
hold. Wherever a view shows these files, a snapshot can be taken, and it says what the description
says.
-/
namespace PlatformSnapshot

open Text
open Processor (Field Seat)
open BusyTime (Counters)
open Numeral (FitsInt64)
open UsedMemory (Figures)
open scoped List

/-- A host, as its description gives it. -/
structure Machine where
  /-- In any order. -/
  seats : List Seat
  model : String
  counters : UInt32 → Counters
  /-- In KiB, as signed words. -/
  figures : Figures
  nodes : SortedMap UInt32 MemoryNode
  seats_ne_nil : seats ≠ []
  seats_nodup : (seats.map (·.id)).Nodup
  model_line : '\n' ∉ model.toList
  model_phrase : IsPhrase model.toList
  figures_natural : figures.Natural
  figures_fit : FitsInt64 figures.usedBytes

namespace Machine

/-- What the files of a machine hold besides, and how it is laid out: everything that collecting
passes over. -/
structure Surroundings (m : Machine) where
  /-- Further fields of the records, before and after the model. -/
  before : Seat → List Field
  after : Seat → List Field
  /-- The counters of all processors. -/
  totals : List UInt64
  /-- The order of the lines about single processors. -/
  rows : List UInt32
  otherCounts : List (List Char)
  figureGap : UsedMemory.Kind → Nat
  middleFigures : List (List Char)
  otherFigures : List (List Char)
  nodeGap : UInt32 → String → Nat
  nodeFigures : UInt32 → List (List Char)
  /-- Entries beside the nodes. -/
  entries : List (String × Files.Node)
  fields_names : ∀ s, ∀ f ∈ before s ++ after s, f.name ∉ Processor.seatNames
  fields_model : ∀ s, ∀ f ∈ before s, startsWith "model name".toList f.line = false
  rows_perm : rows ~ m.seats.map (·.id)
  otherCounts_lines : ∀ l ∈ otherCounts, IsLine l ∧ startsWith "cpu".toList l = false
  middleFigures_other : ∀ l ∈ middleFigures, UsedMemory.IsOther l
  otherFigures_other : ∀ l ∈ otherFigures, UsedMemory.IsOther l
  nodeFigures_other : ∀ id, ∀ l ∈ nodeFigures id, NodeMemory.IsOther l
  entries_id? : ∀ e ∈ entries, Nodes.id? e.1 = none

variable {m : Machine}

theorem isLine_model (m : Machine) : IsLine m.model.toList := by
  refine ⟨m.model_line, ?_⟩
  intro h
  have hblank := m.model_phrase.2 '\r' h
  exact absurd hblank (by decide)

def modelField (m : Machine) : Field where
  key := "model name\t".toList
  value := ' ' :: m.model.toList
  colon_free := by decide
  one_line := isLine_append (by decide)
    (isLine_cons (by decide) (by decide) (isLine_cons (by decide) (by decide) m.isLine_model))

theorem text_modelField (m : Machine) : m.modelField.text = m.model :=
  (congrArg String.ofList (m.model_phrase.trim_cons_blank (by decide))).trans String.ofList_toList

namespace Surroundings

/-- The record of one processor. -/
def record (d : m.Surroundings) (s : Seat) : List Field :=
  Processor.idField s :: d.before s ++
    m.modelField :: Processor.socketField s :: Processor.coreField s :: d.after s

def cpuinfo (d : m.Surroundings) : String := Processor.render (m.seats.map d.record)

def stat (d : m.Surroundings) : String :=
  .ofList (unlines (BusyTime.statLines d.totals (d.rows.map fun id => (id, m.counters id)) d.otherCounts))

def meminfo (d : m.Surroundings) : String :=
  .ofList (unlines (UsedMemory.figureLines m.figures d.figureGap d.middleFigures d.otherFigures))

def nodeMeminfo (d : m.Surroundings) (id : UInt32) (n : MemoryNode) : String :=
  .ofList (unlines (n.memoryLines id (d.nodeGap id) (d.nodeFigures id)))

def cpulist (n : MemoryNode) : String := IdList.encode n.cpus ++ "\n"

/-- The view answers with the machine's files; the node directory is listed in any order. -/
structure Shown (d : m.Surroundings) (roots : Roots) (view : Files.Access) : Prop where
  cpuinfo : view.read roots.cpuinfo = .ok d.cpuinfo
  stat : view.read roots.stat = .ok d.stat
  meminfo : view.read roots.meminfo = .ok d.meminfo
  entries : ∃ names, view.list roots.node = .ok names ∧
    names ~ d.entries.map (·.1) ++ m.nodes.keys.map Nodes.name
  nodeMeminfo : ∀ id n, m.nodes.get? id = some n →
    view.read (Path.join (Path.join roots.node (Nodes.name id)) "meminfo") = .ok (d.nodeMeminfo id n)
  cpulist : ∀ id n, m.nodes.get? id = some n →
    view.read (Path.join (Path.join roots.node (Nodes.name id)) "cpulist") = .ok (cpulist n)

end Surroundings

/-- The snapshot says of the machine what its description says, and nothing else. -/
structure Described (m : Machine) (p : Snapshot) : Prop where
  cpus : p.cpus = m.seats.length
  cores : p.cores = (m.seats.map fun s => (s.socket, s.core)).dedup.length
  sockets : p.sockets = (m.seats.map (·.socket)).dedup.length
  socket_ids : ∀ socket, socket ∈ p.layout.keys ↔ ∃ s ∈ m.seats, s.socket = socket
  core_ids : ∀ socket core, (socket, core) ∈ p.layout.coreIds ↔
    ∃ s ∈ m.seats, (s.socket, s.core) = (socket, core)
  processor_ids : ∀ id socket core, id ∈ p.layout.onCore socket core ↔ ⟨id, socket, core⟩ ∈ m.seats
  processors_ascend : ∀ socket core, (p.layout.onCore socket core).Pairwise (· < ·)
  model : p.model = m.model
  busyTime : ∀ id n, p.busyTime.get? id = some n ↔
    id ∈ m.seats.map (·.id) ∧ n.toNat = (m.counters id).busy
  memoryUsed : p.memoryUsed.toInt = m.figures.usedBytes
  nodeMemoryFree : ∀ id, (p.nodeMemoryFree.get? id).map Int64.toInt = (m.nodes.get? id).map (·.free * 1024)
  nodeMemoryUsed : ∀ id, (p.nodeMemoryUsed.get? id).map Int64.toInt = (m.nodes.get? id).map (·.used * 1024)
  nodeCpus : ∀ id, p.nodeCpus.get? id = (m.nodes.get? id).map (·.cpus)

namespace Surroundings

variable (d : m.Surroundings)

/-- The ids are found in the record, whatever other fields stand around them. -/
theorem seat_record (s : Seat) : Processor.seat (Processor.Record.of (d.record s)) = .ok s := by
  have hmodel : m.modelField.name = "model name" :=
    (by decide : String.ofList (trim "model name\t".toList) = "model name")
  refine Processor.seat_of (by simp [record, Processor.seatFields]) ?_
  intro f hf hname
  simp only [record, List.mem_append, List.mem_cons] at hf
  rcases hf with (rfl | hf) | rfl | rfl | rfl | hf
  · simp [Processor.seatFields]
  · exact absurd hname (d.fields_names s f (List.mem_append_left _ hf))
  · rw [hmodel] at hname
    exact absurd hname (by decide)
  · simp [Processor.seatFields]
  · simp [Processor.seatFields]
  · exact absurd hname (d.fields_names s f (List.mem_append_right _ hf))

theorem parse_cpuinfo : Topology.parse d.cpuinfo = .ok (Topology.ofSeats m.seats m.model) := by
  have hrecords : Processor.records d.cpuinfo = .ok ((m.seats.map d.record).map Processor.Record.of) := by
    refine Processor.records_render ?_
    intro fields hfields
    obtain ⟨s, -, rfl⟩ := List.mem_map.1 hfields
    simp [record]
  have hseats : Processor.seats ((m.seats.map d.record).map Processor.Record.of) = .ok m.seats := by
    rw [List.map_map]
    exact Processor.seats_map fun s _ => d.seat_record s
  have hmodel : Processor.model d.cpuinfo = m.model := by
    obtain ⟨s, rest, hs⟩ := List.exists_cons_of_ne_nil m.seats_ne_nil
    have hfirst : ∀ f ∈ Processor.idField s :: d.before s,
        startsWith "model name".toList f.line = false := by
      refine List.forall_mem_cons.2 ⟨?_, d.fields_model s⟩
      rfl
    rw [cpuinfo, hs, List.map_cons, record, Processor.model_render hfirst rfl, text_modelField]
  exact Topology.parse_eq_ok_iff.2
    ⟨_, _, hrecords, hseats, m.seats_ne_nil, m.seats_nodup, hmodel ▸ rfl⟩

/-- The busy time of each processor. -/
def busyTime (d : m.Surroundings) : BusyTime :=
  .ofList (d.rows.map fun id => (id, .ofNat (m.counters id).busy))

theorem parse_stat : BusyTime.parse d.stat = .ok d.busyTime := by
  rw [stat, BusyTime.parse_statLines _ _ d.otherCounts_lines, List.map_map]
  rfl

theorem keys_busyTime : (d.rows.map fun id => (id, UInt64.ofNat (m.counters id).busy)).map (·.1) = d.rows := by
  rw [List.map_map]
  exact List.map_id _

theorem nodup_rows : d.rows.Nodup := d.rows_perm.nodup_iff.2 m.seats_nodup

theorem size_busyTime : d.busyTime.size = m.seats.length := by
  have hd := d.nodup_rows
  rw [← d.keys_busyTime] at hd
  rw [busyTime, SortedMap.size_ofList hd, List.length_map, d.rows_perm.length_eq, List.length_map]

theorem get?_busyTime (id : UInt32) (n : UInt64) :
    d.busyTime.get? id = some n ↔ id ∈ m.seats.map (·.id) ∧ n.toNat = (m.counters id).busy := by
  have hd := d.nodup_rows
  rw [← d.keys_busyTime] at hd
  have hbusy : (UInt64.ofNat (m.counters id).busy).toNat = (m.counters id).busy :=
    UInt64.toNat_ofNat_of_lt (m.counters id).busy_lt
  rw [busyTime, SortedMap.get?_ofList hd, ← d.rows_perm.mem_iff]
  constructor
  · intro h
    obtain ⟨j, hj, he⟩ := List.mem_map.1 h
    obtain ⟨rfl, rfl⟩ := Prod.mk.inj he
    exact ⟨hj, hbusy⟩
  · rintro ⟨hid, hn⟩
    refine List.mem_map.2 ⟨id, hid, ?_⟩
    rw [← hn, UInt64.ofNat_toNat]

theorem parse_meminfo : UsedMemory.parse d.meminfo = .ok (.ofInt m.figures.usedBytes) :=
  UsedMemory.parse_figureLines m.figures_natural m.figures_fit _ d.middleFigures_other d.otherFigures_other

/-- What is to be read of the node with an id, if there is one. -/
def reading (m : Machine) (id : UInt32) : Nodes.Reading :=
  ((m.nodes.get? id).map MemoryNode.reading).getD ⟨{}, ∅⟩

variable {d} {roots : Roots} {view : Files.Access}

theorem readNode_name (h : d.Shown roots view) {id : UInt32} (hid : id ∈ m.nodes.keys) :
    Nodes.readNode view (Path.join roots.node (Nodes.name id)) = .ok (reading m id) := by
  obtain ⟨n, hn⟩ := (SortedMap.mem_keys_iff _).1 hid
  have hreading : reading m id = n.reading := by simp [reading, hn]
  rw [hreading]
  exact Nodes.readNode_eq_ok_iff.2
    ⟨⟨_, h.nodeMeminfo id n hn, n.parse_memoryLines id _ (d.nodeFigures_other id)⟩,
      _, h.cpulist id n hn, IdList.decode_encode_line n.cpus⟩

/-- An entry that is a node by its name is one of the machine's. -/
theorem mem_listing_iff {names : List String}
    (hperm : names ~ d.entries.map (·.1) ++ m.nodes.keys.map Nodes.name) {name : String} {id : UInt32}
    (hid : Nodes.id? name = some id) : name ∈ names ↔ name = Nodes.name id ∧ id ∈ m.nodes.keys := by
  rw [hperm.mem_iff, List.mem_append]
  constructor
  · rintro (hname | hname)
    · obtain ⟨e, he, rfl⟩ := List.mem_map.1 hname
      rw [d.entries_id? e he] at hid
      cases hid
    · obtain ⟨j, hj, rfl⟩ := List.mem_map.1 hname
      rw [Nodes.id?_name] at hid
      cases hid
      exact ⟨rfl, hj⟩
  · rintro ⟨rfl, hmem⟩
    exact .inr (List.mem_map_of_mem hmem)

/-- The nodes of the machine are all read, and no others. -/
theorem read_nodes (h : d.Shown roots view) : ∃ n, Nodes.read view roots.node = .ok n ∧
    (∀ id, n.free.get? id = (m.nodes.get? id).bind fun node => node.reading.memory.free) ∧
    (∀ id, n.used.get? id = (m.nodes.get? id).bind fun node => node.reading.memory.used) ∧
    ∀ id, n.cpus.get? id = (m.nodes.get? id).bind fun node => some node.reading.cpus := by
  obtain ⟨names, hlist, hperm⟩ := h.entries
  have hread : ∀ name ∈ names, ∀ id, Nodes.id? name = some id →
      Nodes.readNode view (Path.join roots.node name) = .ok (reading m id) := by
    intro name hname id hid
    obtain ⟨rfl, hmem⟩ := (mem_listing_iff hperm hid).1 hname
    exact readNode_name h hmem
  have hkeys : ∀ id, some id ∈ names.map Nodes.id? ↔ id ∈ m.nodes.keys := by
    intro id
    constructor
    · intro hid
      obtain ⟨name, hname, hid⟩ := List.mem_map.1 hid
      exact ((mem_listing_iff hperm hid).1 hname).2
    · intro hmem
      have hid := Nodes.id?_name id
      exact List.mem_map.2 ⟨Nodes.name id, (mem_listing_iff hperm hid).2 ⟨rfl, hmem⟩, hid⟩
  obtain ⟨n, seen, hn, hgiven, hseen⟩ := Nodes.readEntries_given Nodes.given_empty hread
  have hgot : ∀ {α : Type} (v : Nodes.Reading → Option α) id,
      (if id ∈ seen then v (reading m id) else none) = (m.nodes.get? id).bind fun node => v node.reading := by
    intro α v id
    have hmem : id ∈ seen ↔ id ∈ m.nodes.keys := by simp [hseen, hkeys]
    rw [SortedMap.mem_keys_iff] at hmem
    cases hget : m.nodes.get? id <;> simp [hmem, hget, reading]
  exact ⟨n, Nodes.read_eq_ok_iff.2 ⟨names, hlist, hn⟩,
    fun id => (hgiven.free id).trans (hgot (·.memory.free) id),
    fun id => (hgiven.used id).trans (hgot (·.memory.used) id),
    fun id => (hgiven.cpus id).trans (hgot (fun r => some r.cpus) id)⟩

end Surroundings

/-- The snapshot made of the readings of a machine's files says what its description says. -/
theorem described_ofReadings (d : m.Surroundings) {n : Nodes}
    (hfree : ∀ id, n.free.get? id = (m.nodes.get? id).bind fun node => node.reading.memory.free)
    (hused : ∀ id, n.used.get? id = (m.nodes.get? id).bind fun node => node.reading.memory.used)
    (hcpus : ∀ id, n.cpus.get? id = (m.nodes.get? id).bind fun node => some node.reading.cpus) (now : Timestamp) :
    m.Described
      (.ofReadings (Topology.ofSeats m.seats m.model) d.busyTime (.ofInt m.figures.usedBytes) n none now) := by
  have hprocessors := (Layout.perm_processors_ofSeats m.seats).nodup_iff.2 m.seats_nodup
  constructor
  case cpus => rfl
  case cores => exact Layout.length_cores_ofSeats m.seats
  case sockets => exact Layout.size_ofSeats m.seats
  case socket_ids => exact fun socket => Layout.mem_keys_ofSeats m.seats
  case core_ids => exact fun socket core => Layout.mem_coreIds_ofSeats m.seats
  case processor_ids => exact fun id socket core => Layout.mem_onCore_ofSeats m.seats id socket core
  case processors_ascend =>
    exact fun socket core => (Layout.tidy_ofSeats m.seats).pairwise_onCore hprocessors socket core
  case model => rfl
  case busyTime => exact d.get?_busyTime
  case memoryUsed => exact Numeral.toInt_ofInt_of_fits m.figures_fit
  case nodeMemoryFree =>
    intro id
    rw [Snapshot.ofReadings, hfree]
    cases m.nodes.get? id with
    | none => rfl
    | some node => exact congrArg some (Numeral.toInt_ofInt_of_fits node.free_fits)
  case nodeMemoryUsed =>
    intro id
    rw [Snapshot.ofReadings, hused]
    cases m.nodes.get? id with
    | none => rfl
    | some node => exact congrArg some (Numeral.toInt_ofInt_of_fits node.used_fits)
  case nodeCpus =>
    intro id
    rw [Snapshot.ofReadings, hcpus]
    cases m.nodes.get? id <;> rfl

/-- The description leaves nothing of a snapshot open but when it was taken and the resource control. -/
theorem Described.unique {p q : Snapshot} (hp : m.Described p) (hq : m.Described q)
    (ht : p.timestamp = q.timestamp) (hr : p.resourceControl = q.resourceControl) : p = q := by
  have hlayout : p.layout = q.layout := by
    refine Layout.ext_onCore ?_ ?_ ?_
    · exact fun socket => (hp.socket_ids socket).trans (hq.socket_ids socket).symm
    · exact fun socket core => (hp.core_ids socket core).trans (hq.core_ids socket core).symm
    · intro socket core
      refine eq_of_ascending (hp.processors_ascend socket core) (hq.processors_ascend socket core) ?_
      exact fun id => (hp.processor_ids id socket core).trans (hq.processor_ids id socket core).symm
  have hbusy : p.busyTime = q.busyTime :=
    SortedMap.ext_get? fun id => Option.ext fun n => (hp.busyTime id n).trans (hq.busyTime id n).symm
  have hused : p.memoryUsed = q.memoryUsed := Int64.toInt_inj.1 (hp.memoryUsed.trans hq.memoryUsed.symm)
  have hinj : Function.Injective (Option.map Int64.toInt) :=
    Option.map_injective fun _ _ h => Int64.toInt_inj.1 h
  have hnodeFree : p.nodeMemoryFree = q.nodeMemoryFree :=
    SortedMap.ext_get? fun id => hinj ((hp.nodeMemoryFree id).trans (hq.nodeMemoryFree id).symm)
  have hnodeUsed : p.nodeMemoryUsed = q.nodeMemoryUsed :=
    SortedMap.ext_get? fun id => hinj ((hp.nodeMemoryUsed id).trans (hq.nodeMemoryUsed id).symm)
  have hnodeCpus : p.nodeCpus = q.nodeCpus :=
    SortedMap.ext_get? fun id => (hp.nodeCpus id).trans (hq.nodeCpus id).symm
  have hsockets := hp.sockets.trans hq.sockets.symm
  have hcores := hp.cores.trans hq.cores.symm
  have hcpus := hp.cpus.trans hq.cpus.symm
  have hmodel := hp.model.trans hq.model.symm
  cases p
  cases q
  simp_all

/-- Wherever the files of a machine are seen, collecting them gives a snapshot that the machine's
description describes. -/
theorem collectBy_of_shown {d : m.Surroundings} {roots : Roots} {view : Files.Access}
    (h : d.Shown roots view) (s : Cycle.Schedule) (parallel : Bool) (now : Timestamp) :
    ∃ p, Cycle.collectBy s ⟨roots, false, parallel⟩ view now = .ok p ∧ m.Described p ∧
      p.resourceControl = none ∧ p.timestamp = now := by
  obtain ⟨n, hn, hfree, hused, hcpus⟩ := Surroundings.read_nodes h
  refine ⟨_, Cycle.collectBy_eq_ok_iff.2 ⟨Topology.ofSeats m.seats m.model, d.busyTime,
    .ofInt m.figures.usedBytes, n, none, ?_, ?_, ?_, hn, rfl, d.size_busyTime, rfl⟩,
    described_ofReadings d hfree hused hcpus now, rfl, rfl⟩
  · exact Topology.read_eq_ok_iff.2 ⟨_, h.cpuinfo, d.parse_cpuinfo⟩
  · exact Attempt.outcome_parsed_eq_ok_iff.2 ⟨_, h.stat, d.parse_stat⟩
  · exact Attempt.outcome_parsed_eq_ok_iff.2 ⟨_, h.meminfo, d.parse_meminfo⟩

end Machine
end PlatformSnapshot
