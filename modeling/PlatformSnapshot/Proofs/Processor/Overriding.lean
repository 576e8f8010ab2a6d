import Mathlib.Algebra.Order.BigOperators.Group.List
import PlatformSnapshot.Proofs.Processor.Descriptor
/-!
What becomes of the lines that name a processor. A record stands for one processor, and of several
lines of it that name one the last counts. So where records run together, all but the last of their
processors are passed over without a word, and a descriptor is counted in full just if no record names
two.
-/
namespace PlatformSnapshot
namespace Processor

open Text
open Numeral (Spells)

def NamesProcessor (line : List Char) : Prop := ∃ value, Gives line "processor" value

theorem namesProcessor_iff {line : List Char} :
    (pair? line).any (fun e => e.1 = "processor") = true ↔ NamesProcessor line := by
  simp only [NamesProcessor, ← pair?_eq_some_iff, Option.any_eq_true, Prod.exists, decide_eq_true_eq]
  constructor
  · rintro ⟨_, value, hpair, rfl⟩
    exact ⟨value, hpair⟩
  · rintro ⟨value, hpair⟩
    exact ⟨_, value, hpair, rfl⟩

instance : DecidablePred NamesProcessor := fun _ => decidable_of_iff _ namesProcessor_iff

/-- How many of the lines name a processor. -/
def processorLines (ls : List (List Char)) : Nat := ls.countP fun l => NamesProcessor l

/-- The processor that stands for a run of lines: the one that its last `processor` line names. -/
def LastProcessor (run : List (List Char)) (id : UInt32) : Prop :=
  ∃ value, LastGives run "processor" value ∧ Spells value.toList id

variable {line : List Char} {ls run : List (List Char)} {runs : List (List (List Char))} {value : String}
  {ss : List Seat} {id id' : UInt32}

theorem lastProcessor_iff : LastProcessor run id ↔ HasId (.ofList (pairs run)) "processor" id := by
  simp only [LastProcessor, HasId, isRecord_pairs run "processor" _]

theorem NamesProcessor.isBlankLine (h : NamesProcessor line) : isBlankLine line = false := by
  obtain ⟨value, k, v, rfl, -⟩ := h
  exact isBlankLine_of_colon (by simp)

/-- The lines that name a processor are counted run by run. -/
theorem processorLines_of_runs (h : Runs ls runs) : processorLines ls = (runs.map processorLines).sum := by
  have hsum : runs.flatten.countP (fun l => NamesProcessor l) = (runs.map processorLines).sum := List.countP_flatten
  rw [← hsum, h.flatten_eq, List.countP_filter]
  refine List.countP_congr fun l _ => ?_
  simpa using NamesProcessor.isBlankLine

theorem exists_run_of_mem (h : Runs ls runs) (hline : line ∈ ls) (hn : NamesProcessor line) :
    ∃ run ∈ runs, line ∈ run := by
  refine List.mem_flatten.1 ?_
  rw [h.flatten_eq]
  exact List.mem_filter.2 ⟨hline, by simp [hn.isBlankLine]⟩

theorem LastProcessor.one_le (h : LastProcessor run id) : 1 ≤ processorLines run := by
  obtain ⟨value, ⟨before, line, after, rfl, hline, -⟩, -⟩ := h
  exact List.countP_pos_iff.2 ⟨line, by simp, decide_eq_true ⟨value, hline⟩⟩

theorem LastProcessor.unique (h : LastProcessor run id) (h' : LastProcessor run id') : id = id' :=
  (lastProcessor_iff.1 h).unique (lastProcessor_iff.1 h')

/-- The only line of a run that names a processor is the last that does. -/
theorem lastGives_of_processorLines (h : processorLines run = 1) (hline : line ∈ run)
    (hg : Gives line "processor" value) : LastGives run "processor" value := by
  obtain ⟨before, after, rfl⟩ := List.append_of_mem hline
  refine ⟨before, line, after, rfl, hg, fun l hl v hv => ?_⟩
  have hafter : 0 < processorLines after := List.countP_pos_iff.2 ⟨l, hl, decide_eq_true ⟨v, hv⟩⟩
  have hhere : processorLines (line :: after) = processorLines after + 1 :=
    List.countP_cons_of_pos (decide_eq_true ⟨value, hg⟩)
  have hall : processorLines (before ++ line :: after) = processorLines before + processorLines (line :: after) :=
    List.countP_append
  omega

theorem length_eq_sum_iff {ns : List Nat} (h : ∀ n ∈ ns, 1 ≤ n) : ns.length = ns.sum ↔ ∀ n ∈ ns, n = 1 := by
  induction ns with
  | nil => simp
  | cons n ns ih =>
    obtain ⟨hn, hns⟩ := List.forall_mem_cons.1 h
    have hle : ns.length ≤ ns.sum := List.length_le_sum_of_one_le ns hns
    rw [List.forall_mem_cons, ← ih hns, List.length_cons, List.sum_cons]
    omega

theorem one_le_processorLines (hnamed : ∀ run ∈ runs, ∃ id, LastProcessor run id) :
    ∀ n ∈ runs.map processorLines, 1 ≤ n := by
  refine List.forall_mem_map.2 fun run hrun => ?_
  obtain ⟨id, hid⟩ := hnamed run hrun
  exact hid.one_le

section Counting

variable (hruns : Runs ls runs) (hnamed : ∀ run ∈ runs, ∃ id, LastProcessor run id)
include hruns hnamed

theorem length_le_processorLines : runs.length ≤ processorLines ls := by
  have hle := List.length_le_sum_of_one_le _ (one_le_processorLines hnamed)
  rwa [List.length_map, ← processorLines_of_runs hruns] at hle

theorem length_eq_processorLines_iff :
    runs.length = processorLines ls ↔ ∀ run ∈ runs, processorLines run = 1 := by
  have hsum := length_eq_sum_iff (one_le_processorLines hnamed)
  rwa [List.length_map, List.forall_mem_map, ← processorLines_of_runs hruns] at hsum

/-- If no run names two processors, each line that names one stands for its run. -/
theorem exists_lastProcessor (hall : ∀ run ∈ runs, processorLines run = 1) (hline : line ∈ ls)
    (hg : Gives line "processor" value) :
    ∃ run ∈ runs, ∃ id, LastProcessor run id ∧ Spells value.toList id := by
  obtain ⟨run, hrun, hmem⟩ := exists_run_of_mem hruns hline ⟨value, hg⟩
  obtain ⟨id, value', hlast, hid⟩ := hnamed run hrun
  obtain rfl := hlast.unique (lastGives_of_processorLines (hall run hrun) hmem hg)
  exact ⟨run, hrun, id, ⟨value', hlast, hid⟩, hid⟩

end Counting

section Seats

variable (hss : List.Forall₂ Sits (runs.map fun run => .ofList (pairs run)) ss)
include hss

theorem exists_seat_of_run (hrun : run ∈ runs) : ∃ s ∈ ss, LastProcessor run s.id := by
  obtain ⟨s, hs, hsits⟩ := exists_mem_seats hss (List.mem_map_of_mem hrun)
  exact ⟨s, hs, lastProcessor_iff.2 hsits.id⟩

/-- The seats are those of the processors that the runs name last. -/
theorem mem_ids_iff : id ∈ ss.map (·.id) ↔ ∃ run ∈ runs, LastProcessor run id := by
  constructor
  · intro h
    obtain ⟨s, hs, rfl⟩ := List.mem_map.1 h
    obtain ⟨r, hr, hsits⟩ := (mem_seats_iff hss).1 hs
    obtain ⟨run, hrun, rfl⟩ := List.mem_map.1 hr
    exact ⟨run, hrun, lastProcessor_iff.2 hsits.id⟩
  · rintro ⟨run, hrun, hid⟩
    obtain ⟨s, hs, hseat⟩ := exists_seat_of_run hss hrun
    exact List.mem_map.2 ⟨s, hs, hseat.unique hid⟩

end Seats

end Processor

namespace Topology

open Processor Text
open Numeral (Spells)

/-- What is known of the processors that the lines of an accepted descriptor name. Each run of lines
puts one of them into the topology, the last, and there are more such lines than processors just where
a run has more than one. -/
structure Counted (text : String) (runs : List (List (List Char))) (t : Topology) : Prop where
  cpus : t.cpus = runs.length
  named : ∀ run ∈ runs, ∃ id, LastProcessor run id
  mem_processors : ∀ id, id ∈ t.layout.processors ↔ ∃ run ∈ runs, LastProcessor run id
  le_lines : t.cpus ≤ processorLines (lines text.toList)
  eq_lines_iff : t.cpus = processorLines (lines text.toList) ↔ ∀ run ∈ runs, processorLines run = 1
  mem_of_eq : t.cpus = processorLines (lines text.toList) → ∀ line ∈ lines text.toList, ∀ value,
    Gives line "processor" value → ∃ id ∈ t.layout.processors, Spells value.toList id

variable {text : String} {t : Topology}

/-- An accepted descriptor has as many processors as records, each named by the last `processor` line of
its record. Those that stand before it in the record are lost, so none is lost just if no record has two. -/
theorem counted_of_parse (h : parse text = .ok t) :
    ∃ runs, Runs (lines text.toList) runs ∧ Counted text runs t := by
  obtain ⟨runs, hruns⟩ := exists_runs (lines text.toList)
  obtain ⟨rs, ss, hr, hss, -, -, rfl⟩ := parse_eq_ok_iff.1 h
  obtain ⟨-, rfl⟩ := (recordsFrom_eq_ok_iff hruns 1).1 hr
  have hseats : List.Forall₂ Sits (runs.map fun run => .ofList (pairs run)) ss := seats_eq_ok_iff.1 hss
  have hcpus : ss.length = runs.length := by simpa using hseats.length_eq.symm
  have hnamed : ∀ run ∈ runs, ∃ id, LastProcessor run id := by
    intro run hrun
    obtain ⟨s, -, hid⟩ := exists_seat_of_run hseats hrun
    exact ⟨s.id, hid⟩
  have hmem : ∀ id, id ∈ (Layout.ofSeats ss).processors ↔ ∃ run ∈ runs, LastProcessor run id := by
    intro id
    rw [(Layout.perm_processors_ofSeats ss).mem_iff, mem_ids_iff hseats]
  have heq : ss.length = processorLines (lines text.toList) ↔ ∀ run ∈ runs, processorLines run = 1 := by
    rw [hcpus, length_eq_processorLines_iff hruns hnamed]
  refine ⟨runs, hruns, hcpus, hnamed, hmem, ?_, heq, ?_⟩
  · exact hcpus.trans_le (length_le_processorLines hruns hnamed)
  · intro hall line hline value hg
    obtain ⟨run, hrun, id, hid, hspells⟩ := exists_lastProcessor hruns hnamed (heq.1 hall) hline hg
    exact ⟨id, (hmem id).2 ⟨run, hrun, hid⟩, hspells⟩

/-- Two records without a blank line between them. -/
def runTogether : String :=
  "processor : 0\nphysical id : 0\ncore id : 0\nprocessor : 1\nphysical id : 0\ncore id : 1\n"

theorem counted_runTogether :
    ∃ t, parse runTogether = .ok t ∧ ∃ runs, Runs (lines runTogether.toList) runs ∧
      Counted runTogether runs t := by
  obtain ⟨t, ht⟩ := exists_ok_of_isOk (x := parse runTogether) (by decide +kernel)
  exact ⟨t, ht, counted_of_parse ht⟩

/-- The descriptor is accepted, and the first of its two processors is lost. -/
theorem runTogether_loses : ∃ t, parse runTogether = .ok t ∧ t.cpus = 1 ∧
    processorLines (lines runTogether.toList) = 2 ∧ 0 ∉ t.layout.processors ∧
    ∃ line ∈ lines runTogether.toList, Gives line "processor" "0" := by
  refine ⟨Topology.ofSeats [⟨1, 0, 1⟩] unknownModel, ?_, rfl, ?_, ?_, "processor : 0".toList, ?_, ?_⟩
  · decide +kernel
  · decide +kernel
  · decide +kernel
  · decide +kernel
  · exact pair?_eq_some_iff.1 (by decide +kernel)

end Topology
end PlatformSnapshot
