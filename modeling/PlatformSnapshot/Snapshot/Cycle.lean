import PlatformSnapshot.Snapshot.Basic
import PlatformSnapshot.Snapshot.Roots
/-!
One collection cycle. A cycle has a static half (topology, resource control) and a dynamic half
(busy time, memory, nodes); the reads of a half come in order, and the halves may run one after the
other or side by side. Every read leaves its result in a place of its own, and only when all are
done does the cycle look for an error: topology first, then busy time, memory, nodes and resource
control. Hence the interleaving of the halves cannot show in the result.
-/
namespace PlatformSnapshot

/-- What a cycle collects, and from where. -/
structure Collector where
  roots : Roots := {}
  withResourceControl : Bool := true
  parallel : Bool := false
  deriving DecidableEq, Repr

namespace Cycle

inductive Step where
  | topology | resourceControl | busyTime | memory | nodes
  deriving DecidableEq, Repr

def staticHalf : List Step := [.topology, .resourceControl]

def dynamicHalf : List Step := [.busyTime, .memory, .nodes]

/-- The ways to merge two rows of steps that keep the order of each. -/
inductive Interleaving : List Step → List Step → List Step → Prop where
  | nil : Interleaving [] [] []
  | left : Interleaving as bs cs → Interleaving (a :: as) bs (a :: cs)
  | right : Interleaving as bs cs → Interleaving as (b :: bs) (b :: cs)

structure Schedule where
  steps : List Step
  legal : Interleaving staticHalf dynamicHalf steps

def sequential : Schedule :=
  ⟨staticHalf ++ dynamicHalf, .left (.left (.right (.right (.right .nil))))⟩

/-- One of the orders that two threads may take: they read in turn. -/
def alternating : Schedule :=
  ⟨[.topology, .busyTime, .resourceControl, .memory, .nodes],
    .left (.right (.left (.right (.right .nil))))⟩

/-- The results so far. -/
structure Progress where
  topology : Option (Except SourceError Topology) := none
  resourceControl : Option (Except SourceError (Option ResourceControl)) := none
  busyTime : Option (Except SourceError BusyTime) := none
  memory : Option (Except SourceError Int64) := none
  nodes : Option (Except SourceError Nodes) := none

def topology (c : Collector) : Attempt Topology := Topology.attempt c.roots.cpuinfo

/-- Without resource control nothing is read. -/
def resourceControl (c : Collector) : Attempt (Option ResourceControl) :=
  .onlyIf c.withResourceControl (ResourceControl.attempt c.roots.resctrl)

def busyTime (c : Collector) : Attempt BusyTime := BusyTime.attempt c.roots.stat

def memory (c : Collector) : Attempt Int64 := UsedMemory.attempt c.roots.meminfo

def nodes (c : Collector) : Attempt Nodes := Nodes.attempt c.roots.node

def readTopology (c : Collector) (view : Files.Access) : Except SourceError Topology := (topology c).outcome view

def readResourceControl (c : Collector) (view : Files.Access) : Except SourceError (Option ResourceControl) :=
  (resourceControl c).outcome view

def readBusyTime (c : Collector) (view : Files.Access) : Except SourceError BusyTime := (busyTime c).outcome view

def readMemory (c : Collector) (view : Files.Access) : Except SourceError Int64 := (memory c).outcome view

def readNodes (c : Collector) (view : Files.Access) : Except SourceError Nodes := (nodes c).outcome view

def Progress.after (c : Collector) (view : Files.Access) (p : Progress) : Step → Progress
  | .topology => { p with topology := some (readTopology c view) }
  | .resourceControl => { p with resourceControl := some (readResourceControl c view) }
  | .busyTime => { p with busyTime := some (readBusyTime c view) }
  | .memory => { p with memory := some (readMemory c view) }
  | .nodes => { p with nodes := some (readNodes c view) }

/-- The snapshot or the first error, once every read is done. -/
def Progress.finish? (p : Progress) (now : Timestamp) : Option (Except SourceError Snapshot) := do
  let topology ← p.topology
  let busyTime ← p.busyTime
  let memory ← p.memory
  let nodes ← p.nodes
  let resourceControl ← p.resourceControl
  return do Snapshot.assemble (← topology) (← busyTime) (← memory) (← nodes) (← resourceControl) now

def run (c : Collector) (view : Files.Access) (steps : List Step) : Progress :=
  steps.foldl (Progress.after c view) {}

/-- The results of some steps, each in its place. -/
def resultsOf (c : Collector) (view : Files.Access) (done : List Step) : Progress where
  topology := if .topology ∈ done then some (readTopology c view) else none
  resourceControl := if .resourceControl ∈ done then some (readResourceControl c view) else none
  busyTime := if .busyTime ∈ done then some (readBusyTime c view) else none
  memory := if .memory ∈ done then some (readMemory c view) else none
  nodes := if .nodes ∈ done then some (readNodes c view) else none

/-- A step fills its own place and leaves the others as they are. -/
theorem after_resultsOf (c : Collector) (view : Files.Access) (done : List Step) (s : Step) :
    (resultsOf c view done).after c view s = resultsOf c view (done ++ [s]) := by
  cases s <;> simp [resultsOf, Progress.after]

theorem foldl_after (c : Collector) (view : Files.Access) (done steps : List Step) :
    steps.foldl (Progress.after c view) (resultsOf c view done) = resultsOf c view (done ++ steps) := by
  induction steps generalizing done with
  | nil => rw [List.foldl_nil, List.append_nil]
  | cons s steps ih => rw [List.foldl_cons, after_resultsOf, ih, List.append_assoc, List.singleton_append]

/-- What is merged is what was in either row. -/
theorem Interleaving.mem_iff {as bs cs : List Step} (h : Interleaving as bs cs) (s : Step) :
    s ∈ cs ↔ s ∈ as ∨ s ∈ bs := by
  induction h with
  | nil => simp
  | left _ ih => simp [ih, or_assoc]
  | right _ ih => simp [ih, or_left_comm]

/-- Every step belongs to one of the halves. -/
theorem Schedule.mem_steps (s : Schedule) (step : Step) : step ∈ s.steps := by
  rw [s.legal.mem_iff]
  cases step <;> decide

/-- After any schedule every result is in its place. -/
theorem run_schedule (c : Collector) (view : Files.Access) (s : Schedule) :
    run c view s.steps =
      ⟨some (readTopology c view), some (readResourceControl c view), some (readBusyTime c view),
        some (readMemory c view), some (readNodes c view)⟩ := by
  have hrun : run c view s.steps = resultsOf c view s.steps := foldl_after c view [] s.steps
  rw [hrun, resultsOf]
  simp only [s.mem_steps, if_true]

theorem isSome_finish? (c : Collector) (view : Files.Access) (s : Schedule) (now : Timestamp) :
    ((run c view s.steps).finish? now).isSome := by
  rw [run_schedule]; rfl

/-- The outcome of a cycle whose reads come in the order of a schedule. -/
def collectBy (s : Schedule) (c : Collector) (view : Files.Access) (now : Timestamp) :
    Except SourceError Snapshot :=
  ((run c view s.steps).finish? now).get (isSome_finish? c view s now)

end Cycle

namespace Collector

def schedule (c : Collector) : Cycle.Schedule :=
  if c.parallel then Cycle.alternating else Cycle.sequential

def collect (c : Collector) (view : Files.Access) (now : Timestamp) : Except SourceError Snapshot :=
  Cycle.collectBy c.schedule c view now

end Collector
end PlatformSnapshot
