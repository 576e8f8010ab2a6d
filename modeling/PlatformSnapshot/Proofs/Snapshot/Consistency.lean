import Mathlib.Algebra.GroupWithZero.Nat
import Mathlib.Data.Finset.Card
import PlatformSnapshot.Files.Recorded
import PlatformSnapshot.Proofs.Memory.Figures
import PlatformSnapshot.Proofs.Processor.Layout
import PlatformSnapshot.Proofs.Snapshot.Interleaving
/-!
What can be relied on in a snapshot, whatever the sources held. Counts agree with what is listed,
nothing is listed twice or empty, and memory is given in whole KiB. Busy times are only counted
against the processors: they are as many, and beyond that need not belong to the same ids.
-/
namespace PlatformSnapshot

namespace Snapshot

structure Consistent (p : Snapshot) : Prop where
  busyTime_size : p.busyTime.size = p.cpus
  processors_length : p.layout.processors.length = p.cpus
  cpus_pos : 1 ≤ p.cpus
  processors_nodup : p.layout.processors.Nodup
  /-- Every core has processors, in strictly ascending order. -/
  cores_ascending : ∀ ids ∈ p.layout.cores, ids ≠ [] ∧ ids.Pairwise (· < ·)
  /-- Every socket has cores. -/
  sockets_nonempty : ∀ cores ∈ p.layout.values, cores.keys ≠ []
  cores_sum : p.cores = (p.layout.values.map (·.keys.length)).sum
  sockets_length : p.sockets = p.layout.keys.length
  nodeMemoryFree_keys : p.nodeMemoryFree.keys ⊆ p.nodeCpus.keys
  nodeMemoryUsed_keys : p.nodeMemoryUsed.keys ⊆ p.nodeCpus.keys
  memoryUsed_kib : (1024 : Int) ∣ p.memoryUsed.toInt
  nodeMemory_kib : ∀ n ∈ p.nodeMemoryFree.values ++ p.nodeMemoryUsed.values, (1024 : Int) ∣ n.toInt

end Snapshot

/-- The counts of a topology are those of its layout, which lists no processor twice. -/
structure Topology.Sound (t : Topology) : Prop where
  tidy : t.layout.Tidy
  nodup : t.layout.processors.Nodup
  cpus : t.layout.processors.length = t.cpus
  cpus_pos : 1 ≤ t.cpus
  cores : t.cores = (t.layout.values.map (·.keys.length)).sum
  sockets : t.sockets = t.layout.keys.length

theorem Topology.sound_of_parse {text : String} {t : Topology} (h : parse text = .ok t) : t.Sound := by
  obtain ⟨-, seats, -, -, hne, hd, rfl⟩ := parse_eq_ok_iff.1 h
  have hperm := Layout.perm_processors_ofSeats seats
  constructor
  case tidy => exact Layout.tidy_ofSeats seats
  case nodup => exact hperm.nodup_iff.2 hd
  case cpus => exact hperm.length_eq.trans (List.length_map _)
  case cpus_pos => exact List.length_pos_iff.2 hne
  case cores => simp [ofSeats, Layout.cores, List.length_flatMap, SortedMap.values, SortedMap.keys]
  case sockets => exact (SortedMap.length_keys _).symm

/-- Every snapshot that is taken is consistent in itself, in whatever order the reads of its cycle
come, and knows the resource control exactly if that was asked for. -/
theorem Snapshot.consistent_of_collectBy {s : Cycle.Schedule} {c : Collector} {view : Files.Access}
    {now : Timestamp} {p : Snapshot} (h : Cycle.collectBy s c view now = .ok p) :
    p.Consistent ∧ p.resourceControl.isSome = c.withResourceControl := by
  obtain ⟨t, u, m, n, rc, ht, -, hm, hn, hrc, hsize, rfl⟩ := Cycle.collectBy_eq_ok_iff.1 h
  obtain ⟨text, -, ht⟩ := Topology.read_eq_ok_iff.1 ht
  obtain ⟨memory, -, hm⟩ := Attempt.outcome_parsed_eq_ok_iff.1 hm
  have ht := Topology.sound_of_parse ht
  have hnodes := Nodes.sound_of_read hn
  rw [Cycle.readResourceControl_eq, Attempt.onlyIf_eq_ok_iff] at hrc
  refine ⟨?_, hrc.1⟩
  constructor
  case busyTime_size => exact hsize
  case processors_length => exact ht.cpus
  case cpus_pos => exact ht.cpus_pos
  case processors_nodup => exact ht.nodup
  case cores_ascending => exact fun ids hids => ht.tidy.pairwise_lt ht.nodup hids
  case sockets_nonempty =>
    intro cores hmem
    obtain ⟨socket, hs⟩ := t.layout.mem_values_iff.1 hmem
    simpa [SortedMap.keys] using (ht.tidy socket cores hs).1
  case cores_sum => exact ht.cores
  case sockets_length => exact ht.sockets
  case nodeMemoryFree_keys => exact hnodes.free_keys
  case nodeMemoryUsed_keys => exact hnodes.used_keys
  case memoryUsed_kib => exact UsedMemory.dvd_of_parse hm
  case nodeMemory_kib =>
    intro v hv
    rcases List.mem_append.1 hv with hv | hv
    · obtain ⟨id, hv⟩ := n.free.mem_values_iff.1 hv
      exact hnodes.free_kib id v hv
    · obtain ⟨id, hv⟩ := n.used.mem_values_iff.1 hv
      exact hnodes.used_kib id v hv

/-- A host with two sockets, of which one core has two processors, and a node with free memory only. -/
def twoSocketHost : Files.Recorded where
  contents := [
    ("proc/cpuinfo", .ok ("processor : 4\nphysical id : 1\ncore id : 0\n\n" ++
      "processor : 0\nphysical id : 0\ncore id : 7\n\nprocessor : 1\nphysical id : 1\ncore id : 0\n")),
    ("proc/stat", .ok "cpu  9 9 9 9 9 9 9 9\ncpu0 1 2 3 4 5 6 7 8\ncpu1 0 0 0 0 0 0 0 0\ncpu4 1 1 1 1 1 1 1 1\n"),
    ("proc/meminfo", .ok "MemTotal: 100 kB\nMemFree: 400 kB\n"),
    ("node/node1/meminfo", .ok "Node 1 MemFree: 12 kB\n"),
    ("node/node1/cpulist", .ok "0-1,4\n"),
    ("resctrl/schemata", .ok "L3:0=f\n"),
    ("resctrl/info/L3/cbm_mask", .ok "f\n"),
    ("resctrl/info/L3/min_cbm_bits", .ok "1\n"),
    ("resctrl/info/L3/num_closids", .ok "4\n")]
  listings := [("node", .ok ["online", "node1"])]

def twoSocketOutcome : Except SourceError Snapshot :=
  Cycle.collectBy Cycle.alternating ⟨⟨"proc", "node", "resctrl"⟩, true, true⟩ twoSocketHost.access
    ⟨⟨2024, 1, 2⟩, 3, 4, 5, 0⟩

theorem isOk_twoSocketOutcome : twoSocketOutcome.isOk = true := by decide +kernel

theorem consistent_twoSocketHost :
    ∃ p, twoSocketOutcome = .ok p ∧ p.Consistent ∧ p.resourceControl.isSome = true := by
  have hok := isOk_twoSocketOutcome
  cases h : twoSocketOutcome with
  | error e =>
    rw [h] at hok
    cases hok
  | ok p => exact ⟨p, rfl, Snapshot.consistent_of_collectBy h⟩

/-- The ids with a busy time and the ids of the listed processors are equally many, so that as many
busy times belong to no processor as processors are without one, and neither set can contain the
other without being equal to it. -/
theorem Snapshot.card_busyTime_of_collectBy {s : Cycle.Schedule} {c : Collector} {view : Files.Access}
    {now : Timestamp} {p : Snapshot} (h : Cycle.collectBy s c view now = .ok p) :
    p.busyTime.keys.toFinset.card = p.layout.processors.toFinset.card ∧
    (p.busyTime.keys.toFinset \ p.layout.processors.toFinset).card =
      (p.layout.processors.toFinset \ p.busyTime.keys.toFinset).card ∧
    (p.busyTime.keys ⊆ p.layout.processors ↔ p.busyTime.keys.toFinset = p.layout.processors.toFinset) ∧
    (p.layout.processors ⊆ p.busyTime.keys ↔ p.busyTime.keys.toFinset = p.layout.processors.toFinset) := by
  obtain ⟨t, u, m, n, rc, ht, -, -, -, -, hsize, rfl⟩ := Cycle.collectBy_eq_ok_iff.1 h
  obtain ⟨text, -, ht⟩ := Topology.read_eq_ok_iff.1 ht
  have ht := Topology.sound_of_parse ht
  have hcard : u.keys.toFinset.card = t.layout.processors.toFinset.card := by
    rw [List.toFinset_card_of_nodup u.nodup_keys, List.toFinset_card_of_nodup ht.nodup,
      SortedMap.length_keys, hsize, ht.cpus]
  have hsub : ∀ as bs : List UInt32, as ⊆ bs ↔ as.toFinset ⊆ bs.toFinset := by
    intro as bs
    simp [List.subset_def, Finset.subset_iff]
  refine ⟨hcard, ?_, ?_, ?_⟩
  · exact Finset.card_sdiff_comm hcard
  · exact (hsub _ _).trans ⟨fun h => Finset.eq_of_subset_of_card_le h hcard.ge, fun h => h.subset⟩
  · exact (hsub _ _).trans ⟨fun h => (Finset.eq_of_subset_of_card_le h hcard.le).symm, fun h => h.superset⟩

/-- Processors 0 and 1 are listed, and there are busy times of 0 and 2. -/
def misalignedHost : Files.Recorded where
  contents := [
    ("proc/cpuinfo", .ok ("processor : 0\nphysical id : 0\ncore id : 0\n\n" ++
      "processor : 1\nphysical id : 0\ncore id : 1\n")),
    ("proc/stat", .ok "cpu0 1 2 3 4 5 6 7 8\ncpu2 1 2 3 4 5 6 7 8\n"),
    ("proc/meminfo", .ok "")]
  listings := [("node", .ok [])]

def misalignedOutcome : Except SourceError Snapshot :=
  Cycle.collectBy Cycle.sequential ⟨⟨"proc", "node", "resctrl"⟩, false, false⟩ misalignedHost.access
    ⟨⟨2024, 1, 2⟩, 3, 4, 5, 0⟩

/-- Equal counts do not make equal ids: here a busy time belongs to no processor, and a processor has
no busy time. -/
theorem misaligned_busyTime : ∃ p, misalignedOutcome = .ok p ∧
    2 ∈ p.busyTime.keys ∧ 2 ∉ p.layout.processors ∧ 1 ∉ p.busyTime.keys ∧ 1 ∈ p.layout.processors := by
  have hids : (misalignedOutcome.toOption.map fun p => (p.busyTime.keys, p.layout.processors)) =
      some ([0, 2], [0, 1]) := by decide +kernel
  cases h : misalignedOutcome with
  | error e =>
    rw [h] at hids
    cases hids
  | ok p =>
    rw [h] at hids
    obtain ⟨hkeys, hprocessors⟩ := Prod.mk.inj (Option.some.inj hids)
    refine ⟨p, rfl, ?_⟩
    rw [hkeys, hprocessors]
    decide

theorem card_busyTime_misalignedHost : ∃ p, misalignedOutcome = .ok p ∧
    (p.busyTime.keys.toFinset \ p.layout.processors.toFinset).card =
      (p.layout.processors.toFinset \ p.busyTime.keys.toFinset).card := by
  have hok : misalignedOutcome.isOk = true := by decide +kernel
  cases h : misalignedOutcome with
  | error e =>
    rw [h] at hok
    cases hok
  | ok p => exact ⟨p, rfl, (Snapshot.card_busyTime_of_collectBy h).2.1⟩

end PlatformSnapshot
