import PlatformSnapshot.Proofs.Exposition.Families
import PlatformSnapshot.Proofs.Exposition.Reading
import PlatformSnapshot.Proofs.Snapshot.Report
/-!
The exposition of a snapshot. It can always be made, and who reads it finds every busy time under the
id of its processor, the used memory, and the labels of the host with each, and no line besides.
-/
namespace PlatformSnapshot

open Exposition
open scoped List

/-- The text of an id, as it stands in a label. -/
def idText (id : UInt32) : String := .ofList (Numeral.ofNat id.toNat)

theorem idText_injective : Function.Injective idText := by
  intro a b h
  have hnat : a.toNat = b.toNat := by
    rw [← Numeral.decimal_ofNat a.toNat, String.ofList_injective h, Numeral.decimal_ofNat]
  exact UInt32.toNat_inj.1 hnat

namespace Snapshot

variable (p : Snapshot) (h : Host) (key : List String → String)

/-- What the labels of the host say. -/
def hostLabels : List (String × String) := [
  ("sockets", .ofList (Numeral.ofNat p.sockets)), ("cores", .ofList (Numeral.ofNat p.cores)),
  ("cpus", .ofList (Numeral.ofNat p.cpus)), ("host", h.name), ("version", h.version), ("cpu_model", p.model)]

def memorySample (constant : List (String × String)) : Sample :=
  ⟨"platform_memory_usage", constant, .ofList (Binary64.ofInt p.memoryUsed.toInt).sampleText⟩

def busySample (constant : List (String × String)) (e : UInt32 × UInt64) : Sample :=
  ⟨"platform_cpu_usage_per_cpu", ("cpu", idText e.1) :: constant, .ofList (Binary64.ofNat e.2.toNat).sampleText⟩

/-- A sample of the busy time of one processor. -/
def IsBusySample (id : UInt32) (s : Sample) : Prop :=
  s.name = "platform_cpu_usage_per_cpu" ∧ ("cpu", idText id) ∈ s.labels

instance (id : UInt32) : DecidablePred (IsBusySample id) := fun _ => inferInstanceAs (Decidable (_ ∧ _))

/-- Samples that show the snapshot and nothing else. -/
structure ExposedBy (ss : List Sample) : Prop where
  length_eq : ss.length = p.busyTime.size + 1
  memory : ∃ s, ss.filter (·.name = "platform_memory_usage") = [s] ∧
    s.value = .ofList (Binary64.ofInt p.memoryUsed.toInt).sampleText
  /-- Every busy time stands on one line, and no other line has its id. -/
  busy : ∀ id time, p.busyTime.get? id = some time →
    ∃ s, ss.filter (IsBusySample id) = [s] ∧ s.value = .ofList (Binary64.ofNat time.toNat).sampleText
  /-- The busy times come first, in the order of the texts of their ids. -/
  order : ∃ busy constant, ss = busy.map (busySample constant) ++ [p.memorySample constant] ∧
    busy ~ p.busyTime.entries ∧ busy.Pairwise (fun a b => idText a.1 < idText b.1) ∧ constant ~ p.hostLabels h
  labels : ∀ s ∈ ss, (s.labels.map (·.1)).Nodup ∧ ∀ l ∈ p.hostLabels h, l ∈ s.labels

variable {p h key} {busy : List (UInt32 × UInt64)} {constant : List (String × String)}

theorem isBusySample_busySample (hcpu : "cpu" ∉ constant.map (·.1)) {id : UInt32} {e : UInt32 × UInt64} :
    IsBusySample id (busySample constant e) ↔ e.1 = id := by
  have hconstant : ("cpu", idText id) ∉ constant := fun hl => hcpu (List.mem_map_of_mem hl)
  simp [IsBusySample, busySample, hconstant, idText_injective.eq_iff, eq_comm]

theorem filter_busySample (hcpu : "cpu" ∉ constant.map (·.1)) (hd : (busy.map (·.1)).Nodup) {id : UInt32}
    {time : UInt64} (hmem : (id, time) ∈ busy) :
    (busy.map (busySample constant)).filter (IsBusySample id) = [busySample constant (id, time)] := by
  have hown : ∀ e ∈ busy, decide (IsBusySample id (busySample constant e)) = decide (e.1 = id) :=
    fun e _ => decide_eq_decide.2 (isBusySample_busySample hcpu)
  rw [List.filter_map]
  exact congrArg (List.map (busySample constant)) ((List.filter_congr hown).trans (filter_key_eq_singleton hd hmem))

theorem exposedBy_of_order (hbusy : busy ~ p.busyTime.entries) (hasc : busy.Pairwise fun a b => idText a.1 < idText b.1)
    (hconstant : constant ~ p.hostLabels h) :
    p.ExposedBy h (busy.map (busySample constant) ++ [p.memorySample constant]) := by
  have hnames : constant.map (·.1) ~ ["sockets", "cores", "cpus", "host", "version", "cpu_model"] :=
    hconstant.map (·.1)
  have hcpu : "cpu" ∉ constant.map (·.1) := fun hmem => absurd (hnames.mem_iff.1 hmem) (by decide)
  have hnodup : (constant.map (·.1)).Nodup := hnames.nodup_iff.2 (by decide)
  constructor
  case length_eq => simp [hbusy.length_eq, SortedMap.size]
  case memory =>
    refine ⟨p.memorySample constant, ?_, rfl⟩
    have hnone : (busy.map (busySample constant)).filter (·.name = "platform_memory_usage") = [] := by
      rw [List.filter_eq_nil_iff, List.forall_mem_map]
      intro e _
      simp [busySample]
    rw [List.filter_append, hnone]
    rfl
  case busy =>
    intro id time hget
    have hd : (busy.map (·.1)).Nodup := (hbusy.map Prod.fst).nodup_iff.2 p.busyTime.nodup_keys
    have hmem : (id, time) ∈ busy := hbusy.mem_iff.2 (p.busyTime.mem_entries_iff.2 hget)
    have hlast : [p.memorySample constant].filter (IsBusySample id) = [] := by simp [IsBusySample, memorySample]
    refine ⟨busySample constant (id, time), ?_, rfl⟩
    rw [List.filter_append, hlast, List.append_nil]
    exact filter_busySample hcpu hd hmem
  case order => exact ⟨busy, constant, rfl, hbusy, hasc, hconstant⟩
  case labels =>
    have hall : ∀ l ∈ p.hostLabels h, l ∈ constant := fun l hl => hconstant.mem_iff.2 hl
    intro s hs
    rcases List.mem_append.1 hs with hs | hs
    · obtain ⟨e, -, rfl⟩ := List.mem_map.1 hs
      exact ⟨List.nodup_cons.2 ⟨hcpu, hnodup⟩, fun l hl => List.mem_cons_of_mem _ (hall l hl)⟩
    · obtain rfl := List.mem_singleton.1 hs
      exact ⟨hnodup, hall⟩

/-- The family that the point of the memory opens. -/
def memoryFamily : Family := { kind := .gauge, help := MetricName.memoryUsage.help, labelNames := [] }

/-- The family that the point of a busy time opens. -/
def busyFamily : Family := { kind := .counter, help := MetricName.cpuUsage.help, labelNames := ["cpu"] }

def memoryMetric (p : Snapshot) : Metric := .ofName .memoryUsage (.ofInt p.memoryUsed.toInt) ∅ p.timestamp

theorem opens_memoryMetric : memoryFamily.Opens p.memoryMetric := by
  constructor
  case open?_eq => rfl
  case nonnegative => rintro ⟨⟩

theorem opens_busyMetric (e : UInt32 × UInt64) : busyFamily.Opens (p.busyMetric e) := by
  constructor
  case open?_eq =>
    have hname : ∀ n ∈ ["cpu"], isLabelName n := by decide
    exact Family.open?_eq_ok_iff.2 ⟨by simp [busyMetric, Metric.ofName, MetricName.help], hname, rfl⟩
  case nonnegative => exact fun _ => Binary64.isBelowZero_word64 e.2

/-- The series of one processor. -/
def busySeries (e : UInt32 × UInt64) : Series := ⟨[idText e.1], .ofNat e.2.toNat⟩

/-- The zero that a counter starts from does not show in it. -/
theorem seriesOf_busyMetric (e : UInt32 × UInt64) : Family.seriesOf .counter (p.busyMetric e) = busySeries e :=
  congrArg (Series.mk [idText e.1]) (Binary64.zero_add_word64 e.2)

/-- The families of a snapshot, with their series by `key`. -/
def memoryFamilyOf (p : Snapshot) (key : List String → String) : Family :=
  { memoryFamily with series := [p.memoryMetric].foldl (Family.extend key .gauge) ∅ }

def busyFamilyOf (p : Snapshot) (key : List String → String) : Family :=
  { busyFamily with series := (p.busyTime.entries.map p.busyMetric).foldl (Family.extend key .counter) ∅ }

def familiesOf (p : Snapshot) (key : List String → String) : Families :=
  if p.busyTime.entries = [] then SortedMap.insert ∅ MetricName.memoryUsage.text (p.memoryFamilyOf key)
  else SortedMap.insert (SortedMap.insert ∅ MetricName.cpuUsage.text (p.busyFamilyOf key)) MetricName.memoryUsage.text
    (p.memoryFamilyOf key)

theorem run_busyMetric (p : Snapshot) (key : List String → String) :
    Family.run key none (p.busyTime.entries.map p.busyMetric) =
      .ok ((p.familiesOf key).get? MetricName.cpuUsage.text) := by
  have htexts : MetricName.cpuUsage.text ≠ MetricName.memoryUsage.text := by decide
  unfold familiesOf
  split
  case isTrue hempty =>
    rw [hempty, SortedMap.get?_insert, if_neg htexts]
    rfl
  case isFalse hne =>
    have hopens : ∀ m ∈ p.busyTime.entries.map p.busyMetric, busyFamily.Opens m :=
      List.forall_mem_map.2 fun e _ => opens_busyMetric e
    rw [Family.run_eq hopens (by simpa using hne), SortedMap.get?_insert, if_neg htexts, SortedMap.get?_insert,
      if_pos rfl]
    rfl

theorem ofMetrics_metrics (p : Snapshot) (key : List String → String) :
    Families.ofMetrics key ∅ p.metrics = .ok (p.familiesOf key) := by
  refine Families.ofMetrics_eq_ok_iff.2 ⟨fun name => ?_, fun t ht => ?_⟩
  · cases name with
    | memoryUsage =>
      have hmemory : p.metrics.filter (·.name = .memoryUsage) = [p.memoryMetric] := by
        simp [metrics, memoryMetric, busyMetric, Metric.ofName, List.filter_map, Function.comp_def]
      rw [hmemory, SortedMap.get?_empty, Family.run_eq (List.forall_mem_singleton.2 opens_memoryMetric) (by simp)]
      unfold familiesOf
      split <;> rw [SortedMap.get?_insert, if_pos rfl] <;> rfl
    | cpuUsage =>
      have hbusy : p.metrics.filter (·.name = .cpuUsage) = p.busyTime.entries.map p.busyMetric := by
        simp [metrics, busyMetric, Metric.ofName, List.filter_map, Function.comp_def]
      rw [hbusy, SortedMap.get?_empty, run_busyMetric]
  · unfold familiesOf
    split <;> simp [SortedMap.get?_insert, ht]

theorem entries_familiesOf (p : Snapshot) (key : List String → String) : (p.familiesOf key).entries =
    (if p.busyTime.entries = [] then [] else [(MetricName.cpuUsage.text, p.busyFamilyOf key)]) ++
      [(MetricName.memoryUsage.text, p.memoryFamilyOf key)] := by
  have hlater : compare MetricName.memoryUsage.text MetricName.cpuUsage.text = .gt := by decide
  unfold familiesOf
  split
  case isTrue => rfl
  case isFalse => simp [SortedMap.insert, SortedMap.alter, SortedMap.alterEntry, hlater]

/-- The busy times in the order of the texts of their ids. -/
def busyByText (p : Snapshot) : List (UInt32 × UInt64) :=
  p.busyTime.entries.mergeSort fun a b => leqValues (busySeries a) (busySeries b)

theorem perm_busyByText (p : Snapshot) : p.busyByText ~ p.busyTime.entries := List.mergeSort_perm ..

theorem mergeSort_busySeries (p : Snapshot) :
    (p.busyTime.entries.map busySeries).mergeSort leqValues = p.busyByText.map busySeries := by
  have hmap : p.busyByText.map busySeries = (p.busyTime.entries.map busySeries).mergeSort leqValues :=
    List.map_mergeSort fun _ _ _ _ => rfl
  exact hmap.symm

theorem compare_singleton (a b : String) : compare [a] [b] = compare a b := by
  simp [compare, List.compareLex]
  split <;> simp_all

theorem ascending_busyByText (p : Snapshot) : p.busyByText.Pairwise fun a b => idText a.1 < idText b.1 := by
  have hsorted : (p.busyByText.map busySeries).Pairwise fun a b => (compare a.labelValues b.labelValues).isLE := by
    rw [← mergeSort_busySeries]
    exact pairwise_mergeSort_leqValues _
  have hd : (p.busyByText.map Prod.fst).Nodup := (p.perm_busyByText.map Prod.fst).nodup_iff.2 p.busyTime.nodup_keys
  refine (List.pairwise_map.1 hsorted).imp₂ ?_ (List.pairwise_map.1 hd)
  intro a b hle hne
  have hle : (compare (idText a.1) (idText b.1)).isLE := compare_singleton (idText a.1) (idText b.1) ▸ hle
  cases hcompare : compare (idText a.1) (idText b.1) with
  | lt => exact compareOfLessAndEq_eq_lt.1 hcompare
  | eq => exact absurd (idText_injective (Std.LawfulEqCmp.eq_of_compare hcompare)) hne
  | gt => simp [hcompare] at hle

/-- The order of the series shows nothing of the keys that tell them apart. -/
theorem mergeSort_busyFamilyOf (hkey : ∀ a b, key [a] = key [b] → a = b) :
    (p.busyFamilyOf key).series.values.mergeSort leqValues = p.busyByText.map busySeries := by
  have hids : (p.busyTime.entries.map Prod.fst).Nodup := p.busyTime.nodup_keys
  have hd : ((p.busyTime.entries.map p.busyMetric).map fun m => key m.labels.values).Nodup := by
    have hinj : Function.Injective fun id => key [idText id] := fun _ _ he => idText_injective (hkey _ _ he)
    have hkeys := hids.map hinj
    rwa [List.map_map] at hkeys ⊢
  have hlabels : ((p.busyTime.entries.map busySeries).map (·.labelValues)).Nodup := by
    have hinj : Function.Injective fun id => [idText id] := fun _ _ he => idText_injective (List.singleton_injective he)
    have hvalues := hids.map hinj
    rwa [List.map_map] at hvalues ⊢
  have hvalues : (p.busyFamilyOf key).series.values ~ p.busyTime.entries.map busySeries := by
    have hperm := Family.perm_values_foldl_extend .counter hd
    have hseries : Family.seriesOf .counter ∘ p.busyMetric = busySeries := funext seriesOf_busyMetric
    rwa [List.map_map, hseries] at hperm
  rw [← mergeSort_busySeries]
  exact mergeSort_leqValues_congr hvalues ((hvalues.map _).nodup_iff.2 hlabels)

theorem shown_familiesOf (hkey : ∀ a b, key [a] = key [b] → a = b) {key' : List String → String}
    (hkey' : ∀ a b, key' [a] = key' [b] → a = b) : (p.familiesOf key).shown = (p.familiesOf key').shown := by
  have hbusy : (p.busyFamilyOf key).shown = (p.busyFamilyOf key').shown :=
    Prod.ext rfl ((mergeSort_busyFamilyOf hkey).trans (mergeSort_busyFamilyOf hkey').symm)
  have hmemory : (p.memoryFamilyOf key).shown = (p.memoryFamilyOf key').shown := rfl
  rw [Families.shown, Families.shown, entries_familiesOf, entries_familiesOf]
  split
  case isTrue => exact congrArg (fun f => [(MetricName.memoryUsage.text, f)]) hmemory
  case isFalse =>
    simp only [List.map_append, List.map_cons, List.map_nil, hbusy, hmemory]

theorem allSamples_familiesOf (hkey : ∀ a b, key [a] = key [b] → a = b) (constant : List (String × String)) :
    allSamples constant (p.familiesOf key) =
      p.busyByText.map (busySample constant) ++ [p.memorySample constant] := by
  have hbusy : familySamples constant (MetricName.cpuUsage.text, p.busyFamilyOf key) =
      p.busyByText.map (busySample constant) := by
    have hname : String.ofList (fullName MetricName.cpuUsage.text) = "platform_cpu_usage_per_cpu" := by decide
    rw [familySamples, mergeSort_busyFamilyOf hkey, List.map_map]
    refine List.map_congr_left fun e _ => ?_
    rw [Function.comp_apply, sampleOf, hname]
    rfl
  have hmemory : familySamples constant (MetricName.memoryUsage.text, p.memoryFamilyOf key) =
      [p.memorySample constant] := by
    have hname : String.ofList (fullName MetricName.memoryUsage.text) = "platform_memory_usage" := by decide
    have hseries : (p.memoryFamilyOf key).series.values = [⟨[], .ofInt p.memoryUsed.toInt⟩] := rfl
    rw [familySamples, hseries, List.mergeSort_singleton, List.map_singleton, sampleOf, hname]
    rfl
  rw [allSamples, entries_familiesOf, List.flatMap_append, List.flatMap_singleton, hmemory]
  split
  case isTrue hempty =>
    have hnone : p.busyByText = [] := by rw [busyByText, hempty, List.mergeSort_nil]
    rw [hnone]
    rfl
  case isFalse => rw [List.flatMap_singleton, hbusy]

theorem isName_familiesOf :
    ∀ e ∈ (p.familiesOf key).entries, IsName e.1 ∧ ∀ n ∈ e.2.labelNames, IsName n := by
  have hcpu : ∀ n ∈ ["cpu"], IsName n := by
    have hname : isLabelName "cpu" := by decide
    exact List.forall_mem_singleton.2 (isName_of_isLabelName hname)
  intro e he
  have hmem : e = (MetricName.cpuUsage.text, p.busyFamilyOf key) ∨
      e = (MetricName.memoryUsage.text, p.memoryFamilyOf key) := by
    rw [entries_familiesOf] at he
    split at he
    case isTrue => exact .inr (List.mem_singleton.1 he)
    case isFalse => simpa using he
  rcases hmem with rfl | rfl
  · exact ⟨isName_text _, hcpu⟩
  · exact ⟨isName_text _, by rintro n ⟨⟩⟩

theorem isName_labels (p : Snapshot) (h : Host) : ∀ n ∈ (p.labels h).keys, IsName n := by
  have hnames : ∀ n ∈ ["sockets", "cores", "cpus", "host", "version", "cpu_model"], isLabelName n := by decide
  intro n hn
  have hmem := ((p.perm_entries_labels h).map (·.1)).mem_iff.1 hn
  exact isName_of_isLabelName (hnames n hmem)

/-- The exposition of a snapshot can always be made, in whatever order the labels of the host are listed.
Read back, it shows the snapshot and nothing else, and its text is the same for any way of telling series
apart by their label values. -/
theorem render_exposes (p : Snapshot) (h : Host) (listing : Listing (p.labels h)) :
    ∃ text ss, renderWith String.join p.metrics listing = .ok text ∧ samples? text = some ss ∧
      (sampleLines text).length = p.busyTime.size + 1 ∧ p.ExposedBy h ss ∧
      ∀ key, Function.Injective key → renderWith key p.metrics listing = .ok text := by
  have hjoin : ∀ a b, String.join [a] = String.join [b] → a = b := by simp [String.join]
  have hexposed : p.ExposedBy h (allSamples listing.pairs (p.familiesOf String.join)) := by
    rw [allSamples_familiesOf hjoin]
    exact exposedBy_of_order p.perm_busyByText p.ascending_busyByText (listing.perm.trans (p.perm_entries_labels h))
  have hrender : ∀ key, renderWith key p.metrics listing = .ok (text listing.pairs (p.familiesOf key)) := by
    intro key
    rw [renderWith, ofMetrics_metrics]
    rfl
  have hnames := listing.isName (isName_labels p h)
  refine ⟨_, _, hrender String.join, samples?_text isName_familiesOf hnames, ?_, hexposed, fun key hkey => ?_⟩
  · rw [sampleLines_text isName_familiesOf hnames, List.length_map, hexposed.length_eq]
  · rw [hrender key, text_eq_of_shown _ (shown_familiesOf (fun _ _ he => List.singleton_injective (hkey he)) hjoin)]

end Snapshot

/-- Busy times whose ids come in another order as texts, and less memory used than none. -/
def threeProcessors : Snapshot where
  sockets := 1
  cores := 3
  cpus := 3
  layout := ∅
  model := "a \"model\"\n"
  busyTime := .ofList [(2, 5), (9, 7), (10, 18446744073709551615)]
  memoryUsed := -1024
  nodeMemoryFree := ∅
  nodeMemoryUsed := ∅
  nodeCpus := ∅
  timestamp := ⟨⟨2024, 2, 29⟩, 23, 59, 60, 5⟩
  resourceControl := none

theorem render_threeProcessors :
    ∃ text ss, render threeProcessors.metrics (threeProcessors.labels ⟨"node", "0.1.0"⟩) = .ok text ∧
      samples? text = some ss ∧ ss.length = 4 ∧
      (∃ s, ss.filter (Snapshot.IsBusySample 9) = [s] ∧ s.value = "7") ∧
      renderWith quotedKey threeProcessors.metrics (.byText (threeProcessors.labels ⟨"node", "0.1.0"⟩)) =
        .ok text := by
  obtain ⟨text, ss, hrender, hsamples, -, hexposed, hkeys⟩ :=
    threeProcessors.render_exposes ⟨"node", "0.1.0"⟩ (.byText _)
  refine ⟨text, ss, hrender, hsamples, hexposed.length_eq, ?_, hkeys quotedKey quotedKey_injective⟩
  obtain ⟨s, hs, hvalue⟩ := hexposed.busy 9 7 (by decide)
  exact ⟨s, hs, hvalue.trans (by decide +kernel)⟩

end PlatformSnapshot
