import PlatformSnapshot.Proofs.Files.Inquiry
import PlatformSnapshot.Proofs.Reading
import PlatformSnapshot.Snapshot.Cycle
/-!
A cycle question by question. Each half of a cycle is an inquiry that asks in the order in which the
sources are read, and has the results of the readings. The two halves may run one after the other or
side by side with any turns; the outcome is always the one that the five readings settle when each
is taken alone: the first error in a fixed order, or else the count check, or else the snapshot.
-/
namespace PlatformSnapshot

open Files (Inquiry Threads)

/-- The snapshot that has every reading as it was. -/
def Snapshot.ofReadings (t : Topology) (u : BusyTime) (m : Int64) (n : Nodes) (rc : Option ResourceControl)
    (now : Timestamp) : Snapshot where
  sockets := t.sockets
  cores := t.cores
  cpus := t.cpus
  layout := t.layout
  model := t.model
  busyTime := u
  memoryUsed := m
  nodeMemoryFree := n.free
  nodeMemoryUsed := n.used
  nodeCpus := n.cpus
  timestamp := now
  resourceControl := rc

theorem Snapshot.assemble_eq (t : Topology) (u : BusyTime) (m : Int64) (n : Nodes) (rc : Option ResourceControl)
    (now : Timestamp) :
    assemble t u m n rc now =
      if u.size = t.cpus then .ok (ofReadings t u m n rc now) else .error (.inconsistent u.size t.cpus) := by
  unfold assemble ofReadings
  by_cases h : u.size = t.cpus <;> simp [h]

theorem Snapshot.assemble_eq_ok_iff {t : Topology} {u : BusyTime} {m : Int64} {n : Nodes}
    {rc : Option ResourceControl} {now : Timestamp} {p : Snapshot} :
    assemble t u m n rc now = .ok p ↔ u.size = t.cpus ∧ ofReadings t u m n rc now = p := by
  rw [assemble_eq]
  by_cases h : u.size = t.cpus <;> simp [h]

namespace Cycle

/-- The static half: topology, then resource control. -/
def staticInquiry (c : Collector) :
    Inquiry (Except SourceError Topology × Except SourceError (Option ResourceControl)) := do
  let topologyRead ← (topology c).run
  let resourceControlRead ← (resourceControl c).run
  return (topologyRead, resourceControlRead)

/-- The dynamic half: busy time, memory, nodes. -/
def dynamicInquiry (c : Collector) :
    Inquiry (Except SourceError BusyTime × Except SourceError Int64 × Except SourceError Nodes) := do
  let busyTimeRead ← (busyTime c).run
  let memoryRead ← (memory c).run
  let nodesRead ← (nodes c).run
  return (busyTimeRead, memoryRead, nodesRead)

/-- The two halves of a cycle at its start. -/
def halves (c : Collector) := Threads.mk (staticInquiry c) (dynamicInquiry c)

theorem readResourceControl_eq (c : Collector) (view : Files.Access) : readResourceControl c view =
    Attempt.onlyIf c.withResourceControl (ResourceControl.read view c.roots.resctrl) := Attempt.outcome_onlyIf ..

/-- The results of the five readings, each taken alone. -/
structure Readings where
  topology : Except SourceError Topology
  busyTime : Except SourceError BusyTime
  memory : Except SourceError Int64
  nodes : Except SourceError Nodes
  resourceControl : Except SourceError (Option ResourceControl)

def readings (c : Collector) (view : Files.Access) : Readings :=
  ⟨readTopology c view, readBusyTime c view, readMemory c view, readNodes c view, readResourceControl c view⟩

/-- What the results of the two halves come to. -/
def join (s : Except SourceError Topology × Except SourceError (Option ResourceControl))
    (d : Except SourceError BusyTime × Except SourceError Int64 × Except SourceError Nodes)
    (now : Timestamp) : Except SourceError Snapshot := do
  Snapshot.assemble (← s.1) (← d.1) (← d.2.1) (← d.2.2) (← s.2) now

theorem results_halves (c : Collector) (view : Files.Access) :
    (halves c).results view =
      ((readTopology c view, readResourceControl c view), readBusyTime c view, readMemory c view,
        readNodes c view) := by
  simp only [halves, Threads.results, staticInquiry, dynamicInquiry, Files.Inquiry.result_bind,
    Files.Inquiry.result_pure]
  rfl

def error? : Except ε α → Option ε
  | .error e => some e
  | .ok _ => none

namespace Readings

/-- The first error in the order topology, busy time, memory, nodes, resource control. -/
def firstError? (r : Readings) : Option SourceError :=
  [error? r.topology, error? r.busyTime, error? r.memory, error? r.nodes, error? r.resourceControl].findSome? id

/-- The outcome that five readings settle: the first error if there is one; else a mismatch of the
counts if they differ; else a snapshot that has every reading as it was. -/
inductive Settles (r : Readings) (now : Timestamp) : Except SourceError Snapshot → Prop where
  | failure (e : SourceError) (h : r.firstError? = some e) : Settles r now (.error e)
  | mismatch (t u m n rc) (h : r = ⟨.ok t, .ok u, .ok m, .ok n, .ok rc⟩) (hne : u.size ≠ t.cpus) :
      Settles r now (.error (.inconsistent u.size t.cpus))
  | snapshot (t u m n rc) (h : r = ⟨.ok t, .ok u, .ok m, .ok n, .ok rc⟩) (heq : u.size = t.cpus) :
      Settles r now (.ok (.ofReadings t u m n rc now))

theorem settles_join (r : Readings) (now : Timestamp) :
    r.Settles now (join (r.topology, r.resourceControl) (r.busyTime, r.memory, r.nodes) now) := by
  obtain ⟨t, u, m, n, rc⟩ := r
  cases t with
  | error e => exact .failure e rfl
  | ok t =>
  cases u with
  | error e => exact .failure e rfl
  | ok u =>
  cases m with
  | error e => exact .failure e rfl
  | ok m =>
  cases n with
  | error e => exact .failure e rfl
  | ok n =>
  cases rc with
  | error e => exact .failure e rfl
  | ok rc =>
    have hjoin : join (.ok t, .ok rc) (.ok u, .ok m, .ok n) now = Snapshot.assemble t u m n rc now := rfl
    rw [hjoin, Snapshot.assemble_eq]
    split
    case isTrue h => exact .snapshot t u m n rc rfl h
    case isFalse h => exact .mismatch t u m n rc rfl h

/-- Readings settle one outcome only. -/
theorem settles_unique {r : Readings} {now : Timestamp} {x y : Except SourceError Snapshot}
    (hx : r.Settles now x) (hy : r.Settles now y) : x = y := by
  cases hx with
  | failure e h =>
    cases hy with
    | failure f h' => exact congrArg Except.error (Option.some.inj (h.symm.trans h'))
    | mismatch _ _ _ _ _ h' | snapshot _ _ _ _ _ h' =>
      subst h'
      cases h
  | mismatch t u m n rc h hne =>
    subst h
    cases hy with
    | failure f h' => cases h'
    | mismatch _ _ _ _ _ h' => cases h'; rfl
    | snapshot _ _ _ _ _ h' heq => cases h'; exact absurd heq hne
  | snapshot t u m n rc h heq =>
    subst h
    cases hy with
    | failure f h' => cases h'
    | mismatch _ _ _ _ _ h' hne => cases h'; exact absurd heq hne
    | snapshot _ _ _ _ _ h' => cases h'; rfl

end Readings

/-- Whatever order its reads come in, a cycle joins the five readings. -/
theorem collectBy_eq_join (s : Schedule) (c : Collector) (view : Files.Access) (now : Timestamp) :
    collectBy s c view now =
      join (readTopology c view, readResourceControl c view)
        (readBusyTime c view, readMemory c view, readNodes c view) now := by
  have h : (run c view s.steps).finish? now = some (join (readTopology c view, readResourceControl c view)
      (readBusyTime c view, readMemory c view, readNodes c view) now) := by
    rw [run_schedule]
    rfl
  simp only [collectBy, h, Option.get_some]

theorem collectBy_eq_ok_iff {s : Schedule} {c : Collector} {view : Files.Access} {now : Timestamp} {p : Snapshot} :
    collectBy s c view now = .ok p ↔ ∃ t u m n rc, readTopology c view = .ok t ∧
      readBusyTime c view = .ok u ∧ readMemory c view = .ok m ∧ readNodes c view = .ok n ∧
        readResourceControl c view = .ok rc ∧ u.size = t.cpus ∧ .ofReadings t u m n rc now = p := by
  rw [collectBy_eq_join, join]
  simp only [bind_eq_ok_iff, Snapshot.assemble_eq_ok_iff]
  constructor
  · rintro ⟨t, ht, u, hu, m, hm, n, hn, rc, hrc, h⟩
    exact ⟨t, u, m, n, rc, ht, hu, hm, hn, hrc, h⟩
  · rintro ⟨t, u, m, n, rc, ht, hu, hm, hn, hrc, h⟩
    exact ⟨t, ht, u, hu, m, hm, n, hn, rc, hrc, h⟩

/-- The time shows in nothing but the time stamp. -/
theorem collect_later (c : Collector) (view : Files.Access) (now later : Timestamp) :
    c.collect view later = (c.collect view now).map fun p => { p with timestamp := later } := by
  have hassemble : ∀ t u m n rc, Snapshot.assemble t u m n rc later =
      (Snapshot.assemble t u m n rc now).map fun p => { p with timestamp := later } := by
    intro t u m n rc
    rw [Snapshot.assemble_eq, Snapshot.assemble_eq]
    split <;> rfl
  simp only [Collector.collect, collectBy_eq_join, join]
  cases readTopology c view with
  | error e => rfl
  | ok t =>
  cases readBusyTime c view with
  | error e => rfl
  | ok u =>
  cases readMemory c view with
  | error e => rfl
  | ok m =>
  cases readNodes c view with
  | error e => rfl
  | ok n =>
  cases readResourceControl c view with
  | error e => rfl
  | ok rc => exact hassemble t u m n rc

/-- The outcome of a cycle is what its five readings settle, and nothing about the order of its reads
shows in it: not the schedule, not whether the halves run one after the other or side by side, and
not the turns that their single questions take, of which there is always a last one. The time shows
in the time stamp alone. -/
theorem outcome_of_any_interleaving (c : Collector) (view : Files.Access) (now : Timestamp) :
    (∀ x, (readings c view).Settles now x ↔ c.collect view now = x) ∧
    (∀ parallel, ({ c with parallel } : Collector).collect view now = c.collect view now) ∧
    (∀ s : Schedule, collectBy s c view now = c.collect view now) ∧
    (∀ t, Threads.Run view (halves c) t → (∀ u, ¬ Threads.Step view t u) →
      ∃ s d, t = ⟨.done s, .done d⟩ ∧ join s d now = c.collect view now) ∧
    Acc (fun u t => Threads.Step view t u) (halves c) ∧
    (∀ later, c.collect view later = (c.collect view now).map fun p => { p with timestamp := later }) := by
  have hsettles : (readings c view).Settles now (c.collect view now) := by
    rw [Collector.collect, collectBy_eq_join]
    exact Readings.settles_join (readings c view) now
  refine ⟨?_, ?_, ?_, ?_, Threads.acc_step (halves c), fun later => collect_later c view now later⟩
  · intro x
    constructor
    · exact fun hx => Readings.settles_unique hsettles hx
    · rintro rfl
      exact hsettles
  · intro parallel
    simp only [Collector.collect, collectBy_eq_join]
    rfl
  · intro s
    simp only [Collector.collect, collectBy_eq_join]
  · intro t hrun hstuck
    obtain ⟨s, d, rfl⟩ := Threads.done_of_stuck hstuck
    have hresults := Threads.eq_results_of_run hrun
    rw [results_halves] at hresults
    obtain ⟨rfl, rfl⟩ := Prod.mk.inj hresults
    exact ⟨_, _, rfl, by rw [Collector.collect, collectBy_eq_join]⟩

end Cycle
end PlatformSnapshot
