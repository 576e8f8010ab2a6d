import PlatformSnapshot.Files.Recorded
import PlatformSnapshot.Proofs.Memory.Discovery
import PlatformSnapshot.Proofs.Processor.Descriptor
import PlatformSnapshot.Proofs.Snapshot.Interleaving
/-!
Which source an error of a cycle names. It is a source of the cycle, where the roots put it, and the
error is found there by that source alone: by reading its path, or by its own parser. The two errors
that name no source come of readings that have succeeded.
-/
namespace PlatformSnapshot

open Nodes (isNodeName)
open Attempt

/-- The reading fails with errors of this kind only. -/
def FailsAs (P : ε → Prop) (x : Except ε α) : Prop := ∀ e, x = .error e → P e

namespace FailsAs

variable {P : ε → Prop} {x : Except ε α}

theorem ok (a : α) : FailsAs P (.ok a) := by
  intro e he
  cases he

theorem bind {f : α → Except ε β} (hx : FailsAs P x) (hf : ∀ a, x = .ok a → FailsAs P (f a)) :
    FailsAs P (x >>= f) := by
  intro e he
  rcases bind_eq_error_iff.1 he with he | ⟨a, ha, he⟩
  · exact hx e he
  · exact hf a ha e he

theorem attempt {α β : Type} {P : SourceError → Prop} {view : Files.Access} {x : Attempt α} {f : α → Attempt β}
    (hx : FailsAs P (x.outcome view)) (hf : ∀ a, x.outcome view = .ok a → FailsAs P ((f a).outcome view)) :
    FailsAs P ((x >>= f).outcome view) := by
  rw [outcome_bind]
  exact hx.bind hf

theorem map {f : α → β} (hx : FailsAs P x) : FailsAs P (x.map f) := by
  cases x with
  | error e =>
    rintro _ ⟨⟩
    exact hx e rfl
  | ok a => exact .ok (f a)

theorem mapError {P : ε' → Prop} {f : ε → ε'} (h : ∀ e, x = .error e → P (f e)) :
    FailsAs P (x.mapError f) := by
  intro e he
  obtain ⟨d, hd, rfl⟩ := mapError_eq_error_iff.1 he
  exact h d hd

end FailsAs

namespace ResourceControl

/-- A parameter that is a number. -/
def parseNumber (content : String) : Except Fault UInt32 :=
  let text := String.ofList (Text.trim content.toList)
  match Numeral.word32? text.toList with
  | some n => .ok n
  | none => .error (.notANumber text)

theorem number_eq (view : Files.Access) (root name : String) :
    (number root name).outcome view = (parsed (Path.join root name) .malformed parseNumber).outcome view := by
  simp only [number, value, parsed, outcome_bind, outcome_given, outcome_pure]
  cases (source (Path.join root name)).outcome view with
  | error e => rfl
  | ok content =>
    simp only [bind, Except.bind, parseNumber]
    cases Numeral.word32? (String.ofList (Text.trim content.toList)).toList <;> rfl

end ResourceControl

namespace Cycle

/-- The node directory lists a node of this name. -/
def IsNode (c : Collector) (view : Files.Access) (name : String) : Prop :=
  ∃ names, view.list c.roots.node = .ok names ∧ name ∈ names ∧ isNodeName name

/-- The cycle reads the parameters of an allocation: the schemata mention it. -/
def Mentions (c : Collector) (view : Files.Access) (allocation : String) : Prop :=
  c.withResourceControl = true ∧
    ∃ text, view.read (Path.join c.roots.resctrl "schemata") = .ok text ∧ allocation.toList <:+: text.toList

/-- The files that a cycle reads, each with what its own parser finds wrong with a text. The parser of
processor lists has errors of its own; where any text will do, nothing is found wrong. -/
inductive IsSource (c : Collector) (view : Files.Access) : String → (String → Fault → Prop) → Prop where
  | cpuinfo : IsSource c view c.roots.cpuinfo fun text f => Topology.parse text = .error (.malformed f)
  | stat : IsSource c view c.roots.stat fun text f => BusyTime.parse text = .error f
  | meminfo : IsSource c view c.roots.meminfo fun text f => UsedMemory.parse text = .error f
  | nodeMemory (hn : IsNode c view name) : IsSource c view (Path.join (Path.join c.roots.node name) "meminfo")
      fun text f => NodeMemory.parse text = .error f
  | nodeCpus (hn : IsNode c view name) : IsSource c view (Path.join (Path.join c.roots.node name) "cpulist")
      fun _ _ => False
  | schemata (hc : c.withResourceControl = true) : IsSource c view (Path.join c.roots.resctrl "schemata")
      fun _ _ => False
  | cacheMask (hm : Mentions c view "L3") (hname : name ∈ ["info/L3/cbm_mask", "info/L3/min_cbm_bits"]) :
      IsSource c view (Path.join c.roots.resctrl name) fun _ _ => False
  | cacheClasses (hm : Mentions c view "L3") : IsSource c view (Path.join c.roots.resctrl "info/L3/num_closids")
      fun text f => ResourceControl.parseNumber text = .error f
  | bandwidth (hm : Mentions c view "MB:")
      (hname : name ∈ ["info/MB/bandwidth_gran", "info/MB/min_bandwidth", "info/MB/num_closids"]) :
      IsSource c view (Path.join c.roots.resctrl name) fun text f => ResourceControl.parseNumber text = .error f

/-- The source that an error names is at fault by itself. The two errors that name none are no
source's own: two records are of one processor, or five readings that have succeeded do not agree. -/
inductive AtFault (c : Collector) (view : Files.Access) : SourceError → Prop where
  | unreadable (hs : IsSource c view path finds) (h : view.read path = .error cause) :
      AtFault c view (.unreadable path cause)
  | unlisted (h : view.list c.roots.node = .error cause) : AtFault c view (.unreadable c.roots.node cause)
  | malformed (hs : IsSource c view path finds) (ht : view.read path = .ok text) (hf : finds text f) :
      AtFault c view (.malformed path f)
  | badList (hn : IsNode c view name) (hpath : path = Path.join (Path.join c.roots.node name) "cpulist")
      (ht : view.read path = .ok text) (he : IdList.decode text = .error e) : AtFault c view (.badList path e)
  | repeated {id : UInt32} (ht : view.read c.roots.cpuinfo = .ok text) (hr : Processor.AreRecords text rs)
      (htwo : [q, r].Sublist rs) (hq : Processor.HasId q "processor" id) (hrid : Processor.HasId r "processor" id) :
      AtFault c view (.duplicateProcessor id)
  | inconsistent (ht : readTopology c view = .ok t) (hu : readBusyTime c view = .ok u)
      (hm : readMemory c view = .ok m) (hn : readNodes c view = .ok n) (hrc : readResourceControl c view = .ok rc)
      (hne : u.size ≠ t.cpus) : AtFault c view (.inconsistent u.size t.cpus)

variable {c : Collector} {view : Files.Access} {path name : String} {finds : String → Fault → Prop}

theorem failsAs_source (hs : IsSource c view path finds) : FailsAs (AtFault c view) ((source path).outcome view) :=
  .mapError fun _ he => .unreadable hs he

/-- A source that can be read, but not parsed, fails as its parser says. -/
theorem failsAs_parsed {α ε : Type} {blame : String → ε → SourceError} {parse : String → Except ε α}
    (hs : IsSource c view path finds)
    (h : ∀ text e, view.read path = .ok text → parse text = .error e → AtFault c view (blame path e)) :
    FailsAs (AtFault c view) ((parsed path blame parse).outcome view) := by
  refine .attempt (failsAs_source hs) fun text ht => .mapError fun e he => ?_
  exact h text e (outcome_source_eq_ok_iff.1 ht) he

theorem failsAs_malformed {α : Type} {parse : String → Except Fault α}
    (hs : IsSource c view path fun text f => parse text = .error f) :
    FailsAs (AtFault c view) ((parsed path .malformed parse).outcome view) :=
  failsAs_parsed hs fun _ _ ht hf => .malformed hs ht hf

/-- Two records of one processor: the one that repeats it, and one before. -/
theorem atFault_repeated {text : String} {id : UInt32} (ht : view.read c.roots.cpuinfo = .ok text)
    (h : Topology.Refused text (.repeated id)) : AtFault c view (.duplicateProcessor id) := by
  cases h with
  | @repeated before r after q _ hc hr hs hbefore hq hqid hrid =>
    have htwo : [q, r].Sublist (before ++ r :: after) :=
      (List.singleton_sublist.2 hq).append (List.singleton_sublist.2 List.mem_cons_self)
    exact .repeated ht hr htwo hqid hrid

theorem failsAs_readTopology : FailsAs (AtFault c view) (readTopology c view) := by
  refine failsAs_parsed .cpuinfo fun text e ht he => ?_
  cases e with
  | malformed f => exact .malformed .cpuinfo ht he
  | repeated id => exact atFault_repeated ht (Topology.refused_of_parse he)

theorem failsAs_readNode (hn : IsNode c view name) :
    FailsAs (AtFault c view) (Nodes.readNode view (Path.join c.roots.node name)) := by
  refine .attempt (failsAs_malformed (.nodeMemory hn)) fun memory _ => ?_
  refine .attempt (failsAs_parsed (.nodeCpus hn) fun text e ht he => ?_) fun cpus _ => .ok _
  exact .badList hn rfl ht he

theorem failsAs_readEntries {names : List String} (h : ∀ name ∈ names, isNodeName name → IsNode c view name)
    (n : Nodes) : FailsAs (AtFault c view) (Nodes.readEntries view c.roots.node n names) := by
  induction names generalizing n with
  | nil => exact .ok n
  | cons name rest ih =>
    obtain ⟨hname, hrest⟩ := List.forall_mem_cons.1 h
    cases hid : Nodes.id? name with
    | none =>
      rw [Nodes.readEntries_skip hid]
      exact ih hrest n
    | some id =>
      have hnode : isNodeName name := by simp [isNodeName, hid]
      rw [Nodes.readEntries_node hid]
      exact .bind (failsAs_readNode (hname hnode)) fun r _ => ih hrest (n.add id r)

theorem failsAs_readNodes : FailsAs (AtFault c view) (readNodes c view) := by
  refine .attempt (.mapError fun cause h => .unlisted h) fun names hnames => ?_
  exact failsAs_readEntries (fun name hname hnode => ⟨names, mapError_eq_ok_iff.1 hnames, hname, hnode⟩) {}

theorem failsAs_value (hs : IsSource c view (Path.join c.roots.resctrl name) finds) :
    FailsAs (AtFault c view) ((ResourceControl.value c.roots.resctrl name).outcome view) :=
  .attempt (failsAs_source hs) fun _ _ => .ok _

theorem failsAs_number (hs : IsSource c view (Path.join c.roots.resctrl name)
      fun text f => ResourceControl.parseNumber text = .error f) :
    FailsAs (AtFault c view) ((ResourceControl.number c.roots.resctrl name).outcome view) := by
  rw [ResourceControl.number_eq]
  exact failsAs_malformed hs

theorem failsAs_cacheParameters (hm : Mentions c view "L3") :
    FailsAs (AtFault c view) ((ResourceControl.cacheParameters c.roots.resctrl).outcome view) := by
  refine .attempt (failsAs_value (.cacheMask hm (by simp))) fun mask _ => ?_
  refine .attempt (failsAs_value (.cacheMask hm (by simp))) fun minBits _ => ?_
  exact .attempt (failsAs_number (.cacheClasses hm)) fun _ _ => .ok _

theorem failsAs_bandwidthParameters (hm : Mentions c view "MB:") :
    FailsAs (AtFault c view) ((ResourceControl.bandwidthParameters c.roots.resctrl).outcome view) := by
  refine .attempt (failsAs_number (.bandwidth hm (by simp))) fun step _ => ?_
  refine .attempt (failsAs_number (.bandwidth hm (by simp))) fun minimum _ => ?_
  exact .attempt (failsAs_number (.bandwidth hm (by simp))) fun _ _ => .ok _

theorem failsAs_onlyIf {α : Type} {wanted : Bool} {x : Attempt α}
    (h : wanted = true → FailsAs (AtFault c view) (x.outcome view)) :
    FailsAs (AtFault c view) ((onlyIf wanted x).outcome view) := by
  rw [outcome_onlyIf]
  cases wanted with
  | false => exact .ok none
  | true => exact .map (h rfl)

theorem failsAs_readResourceControl : FailsAs (AtFault c view) (readResourceControl c view) := by
  refine failsAs_onlyIf fun hwanted => ?_
  refine .attempt (.ok _) fun _ _ => .attempt (.ok _) fun _ _ => ?_
  refine .attempt (failsAs_source (.schemata hwanted)) fun text ht => ?_
  have hmentions : ∀ allocation, Text.contains allocation.toList text.toList = true → Mentions c view allocation :=
    fun allocation h => ⟨hwanted, text, outcome_source_eq_ok_iff.1 ht, Text.contains_iff.1 h⟩
  refine .attempt (failsAs_onlyIf fun h => failsAs_cacheParameters (hmentions _ h)) fun cache _ => ?_
  exact .attempt (failsAs_onlyIf fun h => failsAs_bandwidthParameters (hmentions _ h)) fun bandwidth _ => .ok _

/-- The error of a cycle, whatever order its reads come in, names a source of the cycle that is at
fault by itself, or it is one of the two that name none. -/
theorem atFault_of_collectBy {s : Schedule} {now : Timestamp} {e : SourceError}
    (h : collectBy s c view now = .error e) : AtFault c view e := by
  rw [collectBy_eq_join] at h
  refine FailsAs.bind failsAs_readTopology (fun t ht => ?_) e h
  refine .bind (failsAs_malformed .stat) fun u hu => ?_
  refine .bind (failsAs_malformed .meminfo) fun m hm => ?_
  refine .bind failsAs_readNodes fun n hn => ?_
  refine .bind failsAs_readResourceControl fun rc hrc => ?_
  intro e he
  rw [Snapshot.assemble_eq] at he
  split at he
  case isTrue => cases he
  case isFalse hne =>
    cases he
    exact .inconsistent ht hu hm hn hrc hne

/-- The bandwidth of memory can be allocated here, but one of its parameters is no number. -/
def wordyHost : Files.Recorded where
  contents := [
    ("proc/cpuinfo", .ok "processor : 3\nphysical id : 0\ncore id : 1\n"),
    ("proc/stat", .ok "cpu3 1 2 3 4 5 6 7 8\n"),
    ("proc/meminfo", .ok "MemTotal: 9 kB\n"),
    ("resctrl/schemata", .ok "MB:0=100\n"),
    ("resctrl/info/MB/bandwidth_gran", .ok "10\n"),
    ("resctrl/info/MB/min_bandwidth", .ok "20\n"),
    ("resctrl/info/MB/num_closids", .ok "eight\n")]
  listings := [("node", .ok ["online"])]

def wordyCollector : Collector where
  roots := ⟨"proc", "node", "resctrl"⟩

theorem atFault_wordyHost :
    collectBy sequential wordyCollector wordyHost.access ⟨⟨2024, 1, 2⟩, 3, 4, 5, 0⟩ =
      .error (.malformed "resctrl/info/MB/num_closids" (.notANumber "eight")) ∧
    AtFault wordyCollector wordyHost.access (.malformed "resctrl/info/MB/num_closids" (.notANumber "eight")) := by
  have herror : collectBy sequential wordyCollector wordyHost.access ⟨⟨2024, 1, 2⟩, 3, 4, 5, 0⟩ =
      .error (.malformed "resctrl/info/MB/num_closids" (.notANumber "eight")) := by decide +kernel
  exact ⟨herror, atFault_of_collectBy herror⟩

end Cycle
end PlatformSnapshot
