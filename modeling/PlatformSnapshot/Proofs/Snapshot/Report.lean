import Mathlib.Data.List.Forall2
import PlatformSnapshot.Metric
import PlatformSnapshot.Proofs.Number.Nearest
import PlatformSnapshot.Proofs.Snapshot.Consistency
import PlatformSnapshot.Proofs.SortedMap
import PlatformSnapshot.Proofs.Text.Decimal
/-!
What a report says of its snapshot. Its points are the used memory and then the busy time of each
processor by ascending id, every one with the snapshot's time, and its labels describe the host. A
number that is written as text reads back, and a value is the nearest that a point can have.
-/
namespace PlatformSnapshot

open scoped List

/-- The decimal text of a number: it reads back, and it has no zeros in front. -/
def IsDecimal (text : String) (n : Nat) : Prop :=
  Numeral.natural? text.toList = some n ∧ Numeral.IsShortest text.toList

/-- The point of the used memory: a gauge without labels. -/
structure IsMemoryPoint (m : Metric) (used : Int64) : Prop where
  name : m.name = .memoryUsage
  kind : m.kind = .gauge
  labels : m.labels.entries = []
  value : m.value = .ofInt used.toInt ∧ Binary64.IsNearest used.toInt m.value

/-- The point of one processor's busy time: a counter with the processor's id as its only label. -/
structure IsBusyPoint (m : Metric) (id : UInt32) (time : UInt64) : Prop where
  name : m.name = .cpuUsage
  kind : m.kind = .counter
  labels : ∃ text, m.labels.entries = [("cpu", text)] ∧ Numeral.word32? text.toList = some id ∧
    IsDecimal text id.toNat
  value : m.value = .ofNat time.toNat ∧ Binary64.IsNearest time.toNat m.value

/-- A report that agrees with its snapshot and with the host it was made for. -/
structure Report.Coherent (r : Report) (h : Host) : Prop where
  length_metrics : r.metrics.length = r.snapshot.cpus + 1
  /-- One point of the memory, and one for each busy time. -/
  points : ∃ memory busy, r.metrics = memory :: busy ∧ IsMemoryPoint memory r.snapshot.memoryUsed ∧
    List.Forall₂ (fun m e => IsBusyPoint m e.1 e.2) busy r.snapshot.busyTime.entries
  /-- The points come by ascending id, so none comes twice. -/
  ascending : r.snapshot.busyTime.keys.Pairwise (· < ·)
  timestamps : ∀ m ∈ r.metrics, m.timestamp = r.snapshot.timestamp
  label_names : r.labels.keys ~ ["sockets", "cores", "cpus", "host", "version", "cpu_model"]
  counts : ∀ e ∈ [("sockets", r.snapshot.sockets), ("cores", r.snapshot.cores), ("cpus", r.snapshot.cpus)],
    ∃ text, r.labels.get? e.1 = some text ∧ IsDecimal text e.2
  texts : ∀ e ∈ [("host", h.name), ("version", h.version), ("cpu_model", r.snapshot.model)],
    r.labels.get? e.1 = some e.2

theorem isDecimal_ofNat (n : Nat) : IsDecimal (.ofList (Numeral.ofNat n)) n := by
  rw [IsDecimal, String.toList_ofList]
  exact ⟨Numeral.natural?_ofNat n, Numeral.isShortest_ofNat n⟩

/-- The order of a map by ids is the order of the numbers. -/
theorem SortedMap.pairwise_keys (m : SortedMap UInt32 α) : m.keys.Pairwise (· < ·) :=
  List.pairwise_map.2 (m.ascending.imp Std.compare_eq_lt.1)

namespace Snapshot

variable (p : Snapshot) (h : Host)

theorem isMemoryPoint : IsMemoryPoint (.ofName .memoryUsage (.ofInt p.memoryUsed.toInt) ∅ p.timestamp) p.memoryUsed :=
  ⟨rfl, rfl, rfl, rfl, Binary64.isNearest_int64 _⟩

theorem isBusyPoint_busyMetric (e : UInt32 × UInt64) : IsBusyPoint (p.busyMetric e) e.1 e.2 := by
  refine ⟨rfl, rfl, ⟨_, rfl, ?_, isDecimal_ofNat _⟩, rfl, Binary64.isNearest_word64 _⟩
  rw [String.toList_ofList]
  exact Numeral.word32?_ofNat e.1

theorem timestamp_metrics : ∀ m ∈ p.metrics, m.timestamp = p.timestamp := by
  intro m hm
  rcases List.mem_cons.1 hm with rfl | hm
  · rfl
  · obtain ⟨e, -, rfl⟩ := List.mem_map.1 hm
    rfl

/-- The labels of the host, in the order in which they are given. -/
theorem perm_entries_labels : (p.labels h).entries ~ [
    ("sockets", .ofList (Numeral.ofNat p.sockets)), ("cores", .ofList (Numeral.ofNat p.cores)),
    ("cpus", .ofList (Numeral.ofNat p.cpus)), ("host", h.name), ("version", h.version), ("cpu_model", p.model)] := by
  have hd : ["sockets", "cores", "cpus", "host", "version", "cpu_model"].Nodup := by decide
  exact SortedMap.perm_entries_ofList hd

theorem coherent_report (hcpus : p.busyTime.size = p.cpus) : (p.report h).Coherent h := by
  have hlabels := p.perm_entries_labels h
  constructor
  case length_metrics =>
    have hlength : p.busyTime.entries.length = p.cpus := hcpus
    simp [report, metrics, hlength]
  case points =>
    refine ⟨_, _, rfl, p.isMemoryPoint, ?_⟩
    exact List.forall₂_map_left_iff.2 (List.forall₂_same.2 fun e _ => p.isBusyPoint_busyMetric e)
  case ascending => exact p.busyTime.pairwise_keys
  case timestamps => exact p.timestamp_metrics
  case label_names => exact hlabels.map (·.1)
  case counts =>
    intro e he
    refine ⟨.ofList (Numeral.ofNat e.2), (p.labels h).mem_entries_iff.1 (hlabels.mem_iff.2 ?_), isDecimal_ofNat _⟩
    simp only [List.mem_cons, List.not_mem_nil, or_false] at he
    rcases he with rfl | rfl | rfl <;> simp [report]
  case texts =>
    intro e he
    refine (p.labels h).mem_entries_iff.1 (hlabels.mem_iff.2 ?_)
    simp only [List.mem_cons, List.not_mem_nil, or_false] at he
    rcases he with rfl | rfl | rfl <;> simp [report]

/-- Every report of a snapshot that was taken agrees with it: there are as many points as processors and
one more, since a cycle fails unless there are as many busy times as processors. -/
theorem coherent_of_collectBy {s : Cycle.Schedule} {c : Collector} {view : Files.Access} {now : Timestamp}
    {p : Snapshot} (hp : Cycle.collectBy s c view now = .ok p) (h : Host) :
    (p.report h).Coherent h ∧ (p.report h).snapshot = p := by
  obtain ⟨_, _, _, _, _, -, -, -, -, -, hsize, rfl⟩ := Cycle.collectBy_eq_ok_iff.1 hp
  exact ⟨coherent_report _ h hsize, rfl⟩

end Snapshot

theorem coherent_twoSocketHost :
    ∃ p, twoSocketOutcome = .ok p ∧ (p.report ⟨"node", "0.1.0"⟩).Coherent ⟨"node", "0.1.0"⟩ := by
  obtain ⟨p, hp⟩ := exists_ok_of_isOk isOk_twoSocketOutcome
  exact ⟨p, hp, (Snapshot.coherent_of_collectBy hp ⟨"node", "0.1.0"⟩).1⟩

end PlatformSnapshot
