import PlatformSnapshot.Proofs.Exposition.Reading
import PlatformSnapshot.Proofs.Exposition.Refusal
/-!
The labels under which an exposition shows a metric. Every metric of an exposition stands on some line,
with the label names of the first metric of its name and with label values of the metric's own. Label
names are only counted: a metric that has other ones is shown under those of the first.
-/
namespace PlatformSnapshot.Exposition

open Text (unlines)
open scoped List

variable {key : List String → String} {ms : List Metric} {m o : Metric} {f : Family} {fs : Families}
  {labels : Labels} {listing : Listing labels} {own : List (String × String)}

namespace Family

theorem run_some_eq_ok {r : Option Family} (h : run key (some f) ms = .ok r) :
    r = some { f with series := ms.foldl (extend key f.kind) f.series } ∧
      ∀ m ∈ ms, ∀ e, ¬ Refuses f.kind f.labelNames.length m e := by
  induction ms generalizing f with
  | nil =>
    cases h
    exact ⟨rfl, by simp⟩
  | cons m ms ih =>
    obtain ⟨g, hadd, hrest⟩ := bind_eq_ok_iff.1 h
    obtain ⟨hm, rfl⟩ := add_eq_ok_iff.1 hadd
    obtain ⟨rfl, hms⟩ := ih hrest
    exact ⟨rfl, List.forall_mem_cons.2 ⟨hm, hms⟩⟩

/-- A family of some metrics goes by the first of them, refuses none, and has the series that they make. -/
theorem run_cons_eq_ok {r : Option Family} (h : run key none (o :: ms) = .ok r) :
    ∃ f, open? o = .ok f ∧ r = some { f with series := (o :: ms).foldl (extend key f.kind) ∅ } ∧
      ∀ m ∈ o :: ms, ∀ e, ¬ Refuses f.kind f.labelNames.length m e := by
  obtain ⟨g, hfirst, hrest⟩ := bind_eq_ok_iff.1 h
  obtain ⟨f, hopen, hadd⟩ := bind_eq_ok_iff.1 hfirst
  have hempty : f.series = ∅ := by
    obtain ⟨-, -, rfl⟩ := open?_eq_ok_iff.1 hopen
    rfl
  have hrun : run key (some f) (o :: ms) = .ok r := bind_eq_ok_iff.2 ⟨g, hadd, hrest⟩
  obtain ⟨hseries, hall⟩ := run_some_eq_ok hrun
  rw [hempty] at hseries
  exact ⟨f, hopen, hseries, hall⟩

/-- A series keeps the label values of the metric that made it. -/
theorem labelValues_foldl_observe (kind : MetricKind) (ms : List Metric) (s : Option Series) :
    (ms.foldl (fun s m => some (observe kind m.labels.values m.value s)) s).map (·.labelValues) =
      (s.map (·.labelValues)).or (ms.head?.map (·.labels.values)) := by
  induction ms generalizing s with
  | nil => cases s <;> rfl
  | cons m ms ih =>
    rw [List.foldl_cons, ih]
    cases s <;> rfl

/-- The series of a key has the label values of the first metric with this key. -/
theorem get?_foldl_extend (key : List String → String) (kind : MetricKind) (ms : List Metric) (k : String) :
    ((ms.foldl (extend key kind) ∅).get? k).map (·.labelValues) =
      (ms.find? (key ·.labels.values = k)).map (·.labels.values) := by
  have hfold := SortedMap.get?_foldl_alter (fun m : Metric => key m.labels.values)
    (fun m => observe kind m.labels.values m.value) ms ∅ k
  refine (congrArg (Option.map (·.labelValues)) hfold).trans ?_
  rw [labelValues_foldl_observe, List.head?_filter]
  rfl

end Family

/-- The metric that makes the series of another one: the first of its name with its key. -/
def firstAlike? (key : List String → String) (ms : List Metric) (m : Metric) : Option Metric :=
  ms.find? fun a => a.name = m.name ∧ key a.labels.values = key m.labels.values

/-- The labels that a metric is shown under: the label names of the first metric of its name, each with
the value at its place in the metric that makes the series. -/
structure ShownUnder (key : List String → String) (ms : List Metric) (m : Metric) (own : List (String × String)) :
    Prop where
  count : ∃ o, first? m.name ms = some o ∧ m.labels.size = o.labels.size ∧ own.map (·.1) = o.labels.keys
  values : ∃ a, firstAlike? key ms m = some a ∧ own.map (·.2) = a.labels.values

/-- No metric of the same name has the same key with other label values. -/
def KnownBy (key : List String → String) (ms : List Metric) (m : Metric) : Prop :=
  ∀ a ∈ ms, a.name = m.name → key a.labels.values = key m.labels.values → a.labels.values = m.labels.values

theorem eq_of_map_eq {l l' : List (α × β)} (hfst : l.map (·.1) = l'.map (·.1))
    (hsnd : l.map (·.2) = l'.map (·.2)) : l = l' := by
  rw [← List.zip_unzip l, ← List.zip_unzip l', List.unzip_eq_map, List.unzip_eq_map, hfst, hsnd]

/-- A metric with the label names of the first one of its name is shown under its own labels. -/
theorem ShownUnder.eq_entries (h : ShownUnder key ms m own) (hknown : KnownBy key ms m)
    (hnames : ∀ o, first? m.name ms = some o → o.labels.keys = m.labels.keys) : own = m.labels.entries := by
  obtain ⟨o, ho, -, hkeys⟩ := h.count
  obtain ⟨a, ha, hvalues⟩ := h.values
  have halike : a.name = m.name ∧ key a.labels.values = key m.labels.values := by simpa using List.find?_some ha
  refine eq_of_map_eq (hkeys.trans (hnames o ho)) (hvalues.trans ?_)
  exact hknown a (List.mem_of_find?_eq_some ha) halike.1 halike.2

theorem length_values (labels : Labels) : labels.values.length = labels.keys.length := by
  simp [SortedMap.values, SortedMap.keys]

/-- The family of a metric has a series that shows it. -/
theorem exists_series (h : Families.ofMetrics key ∅ ms = .ok fs) (hm : m ∈ ms) :
    ∃ f s, fs.get? m.name.text = some f ∧ s ∈ f.series.values ∧
      ShownUnder key ms m (f.labelNames.zip s.labelValues) := by
  have hrun := (Families.ofMetrics_eq_ok_iff.1 h).1 m.name
  have hown : m ∈ ms.filter (·.name = m.name) := List.mem_filter.2 ⟨hm, by simp⟩
  have hfirst : (ms.filter (·.name = m.name)).head? = first? m.name ms := List.head?_filter ..
  have halike : ∀ k, (ms.filter (·.name = m.name)).find? (key ·.labels.values = k) =
      ms.find? fun a => a.name = m.name ∧ key a.labels.values = k := by
    intro k
    simp [List.find?_filter]
  cases hfilter : ms.filter (·.name = m.name) with
  | nil => simp [hfilter] at hown
  | cons o rest =>
    rw [hfilter] at hrun hown hfirst
    obtain ⟨f, hopen, hget, hall⟩ := Family.run_cons_eq_ok hrun
    obtain ⟨-, -, hf⟩ := Family.open?_eq_ok_iff.1 hopen
    have hnames : f.labelNames = o.labels.keys := by rw [hf]
    have hcount : ∀ a ∈ o :: rest, a.labels.size = f.labelNames.length := by
      intro a ha
      by_contra hsize
      obtain ⟨e, he⟩ := exists_refuses_iff.2 (.inr hsize)
      exact hall a ha e he
    have hseries := Family.get?_foldl_extend key f.kind (o :: rest) (key m.labels.values)
    have hsome : ((o :: rest).find? (key ·.labels.values = key m.labels.values)).isSome :=
      List.find?_isSome.2 ⟨m, hown, by simp⟩
    obtain ⟨a, ha⟩ := Option.isSome_iff_exists.1 hsome
    rw [ha, Option.map_some, Option.map_eq_some_iff] at hseries
    obtain ⟨s, hs, hvalues⟩ := hseries
    have hlength : s.labelValues.length = f.labelNames.length := by
      rw [hvalues, length_values, SortedMap.length_keys]
      exact hcount a (List.mem_of_find?_eq_some ha)
    refine ⟨_, s, hget, (SortedMap.mem_values_iff _).2 ⟨_, hs⟩, ?_, ?_⟩
    · refine ⟨o, hfirst.symm, ?_, ?_⟩
      · rw [hcount m hown, hnames, SortedMap.length_keys]
      · rw [List.map_fst_zip hlength.ge, hnames]
    · refine ⟨a, ?_, ?_⟩
      · rw [← hfilter, halike] at ha
        exact ha
      · rw [List.map_snd_zip hlength.le, hvalues]

/-- Whatever stands in a family is among the lines of the text. -/
theorem exists_unlines_text {s : Series} (hget : fs.get? name = some f) (hs : s ∈ f.series.values)
      (constant : List (String × String)) :
    ∃ before after, (text constant fs).toList =
      unlines (before ++ (sampleOf name f.labelNames constant s).line :: after) := by
  have hentry : (name, f) ∈ fs.entries := fs.mem_entries_iff.2 hget
  have hline : (sampleOf name f.labelNames constant s).line ∈
      fs.entries.flatMap fun e => headLines e ++ (familySamples constant e).map Sample.line := by
    refine List.mem_flatMap.2 ⟨_, hentry, List.mem_append_right _ (List.mem_map_of_mem (List.mem_map_of_mem ?_))⟩
    exact (List.mergeSort_perm ..).mem_iff.2 hs
  obtain ⟨before, after, hsplit⟩ := List.append_of_mem hline
  exact ⟨before, after, by rw [toList_text, hsplit]⟩

/-- The families of an exposition have plain names, for themselves and for their labels. -/
theorem isName_of_ofMetrics (h : Families.ofMetrics key ∅ ms = .ok fs) :
    ∀ e ∈ fs.entries, IsName e.1 ∧ ∀ n ∈ e.2.labelNames, IsName n := by
  obtain ⟨hnames, hothers⟩ := Families.ofMetrics_eq_ok_iff.1 h
  rintro ⟨t, f⟩ he
  have hget : fs.get? t = some f := fs.mem_entries_iff.1 he
  by_cases ht : ∃ name : MetricName, t = name.text
  · obtain ⟨name, rfl⟩ := ht
    have hrun := hnames name
    cases hfilter : ms.filter (·.name = name) with
    | nil =>
      rw [hfilter, hget] at hrun
      cases hrun
    | cons o rest =>
      rw [hfilter, hget] at hrun
      obtain ⟨g, hopen, hf, -⟩ := Family.run_cons_eq_ok hrun
      obtain ⟨-, hlabels, rfl⟩ := Family.open?_eq_ok_iff.1 hopen
      cases hf
      exact ⟨isName_text name, fun n hn => isName_of_isLabelName (hlabels n hn)⟩
  · rw [hothers t fun name h => ht ⟨name, h⟩] at hget
    cases hget

/-- Every metric of an exposition stands on a line of it, under the label names of the first metric of
its name, of which it has as many, and with the label values that its series goes by. These are its own
labels if its names are those of the first and the key tells it from the others. -/
theorem shownUnder_of_renderWith {text : String} (h : renderWith key ms listing = .ok text) (hm : m ∈ ms) :
    ∃ own value, ShownUnder key ms m own ∧
      (∃ before after, text.toList = unlines
        (before ++ Sample.line ⟨.ofList (fullName m.name.text), own ++ listing.pairs, value⟩ :: after)) ∧
      ((∀ n ∈ labels.keys, IsName n) → ∃ ss, samples? text = some ss ∧
        ⟨.ofList (fullName m.name.text), own ++ listing.pairs, value⟩ ∈ ss) ∧
      (KnownBy key ms m → (∀ o, first? m.name ms = some o → o.labels.keys = m.labels.keys) →
        own = m.labels.entries) := by
  obtain ⟨fs, hfs, rfl⟩ := map_eq_ok_iff.1 h
  obtain ⟨f, s, hget, hs, hshown⟩ := exists_series hfs hm
  refine ⟨f.labelNames.zip s.labelValues, .ofList s.value.sampleText, hshown,
    exists_unlines_text hget hs listing.pairs,
    fun hlabels => ⟨_, samples?_text (isName_of_ofMetrics hfs) (listing.isName hlabels), ?_⟩, hshown.eq_entries⟩
  refine List.mem_flatMap.2 ⟨_, fs.mem_entries_iff.2 hget, List.mem_map_of_mem ?_⟩
  exact (List.mergeSort_perm ..).mem_iff.2 hs

/-- Two processors in a zone. -/
def zonedPoints : List Metric := [
  point .cpuUsage 5 [("cpu", "0"), ("zone", "a")], point .memoryUsage (-3) [],
  point .cpuUsage 6 [("cpu", "10"), ("zone", "a")]]

/-- The labels of a host, listed against the order of their names. -/
def reversedListing : Listing (.ofList [("host", "h"), ("version", "0.1.0")]) where
  pairs := [("version", "0.1.0"), ("host", "h")]
  perm := .swap ..

theorem shownUnder_zonedPoints :
    ∃ text ss value, renderWith String.join zonedPoints reversedListing = .ok text ∧ samples? text = some ss ∧
      (⟨"platform_cpu_usage_per_cpu", [("cpu", "10"), ("zone", "a"), ("version", "0.1.0"), ("host", "h")], value⟩ :
        Sample) ∈ ss := by
  have hmem : point .cpuUsage 6 [("cpu", "10"), ("zone", "a")] ∈ zonedPoints := by simp [zonedPoints]
  have hlabels : ∀ n ∈ SortedMap.keys (.ofList [("host", "h"), ("version", "0.1.0")] : Labels), IsName n := by
    decide
  have hfamily : String.ofList (fullName MetricName.cpuUsage.text) = "platform_cpu_usage_per_cpu" := by decide
  obtain ⟨text, htext⟩ : ∃ text, renderWith String.join zonedPoints reversedListing = .ok text := ⟨_, rfl⟩
  obtain ⟨own, value, -, -, hread, hown⟩ := shownUnder_of_renderWith htext hmem
  obtain ⟨ss, hss, hs⟩ := hread hlabels
  obtain rfl := hown (by unfold KnownBy; decide) (by rintro o ⟨⟩; rfl)
  exact ⟨text, ss, value, htext, hss, hfamily ▸ hs⟩

/-- Where the series of each family are found in order and the host has no labels, they are shown as they are. -/
theorem samples?_of_sorted (h : Families.ofMetrics key ∅ ms = .ok fs)
    (hsorted : ∀ e ∈ fs.entries, e.2.series.values.Pairwise fun a b => leqValues a b) (listing : Listing ∅) :
    (renderWith key ms listing).toOption.bind samples? =
      some (fs.entries.flatMap fun e => e.2.series.values.map (sampleOf e.1 e.2.labelNames [])) := by
  have hread : samples? (text [] fs) = some (allSamples [] fs) := samples?_text (isName_of_ofMetrics h) (by simp)
  have hrender : (renderWith key ms listing).toOption.bind samples? = samples? (text [] fs) := by
    rw [renderWith, h, listing.perm.eq_nil]
    rfl
  rw [hrender, hread, allSamples]
  refine congrArg some (List.flatMap_congr fun e he => ?_)
  rw [familySamples, List.mergeSort_of_pairwise (hsorted e he)]

/-- Two metrics of one name with different label names. -/
def relabelledPoints : List Metric := [point .cpuUsage 1 [("cpu", "0")], point .cpuUsage 2 [("other", "1")]]

/-- Two metrics with the same label names, whose different label values make one text. -/
def joinedPoints : List Metric :=
  [point .cpuUsage 1 [("cpu", "1"), ("zone", "23")], point .cpuUsage 2 [("cpu", "12"), ("zone", "3")]]

/-- Other label names are not refused but shown as those of the first metric, and metrics that the key
does not tell apart are shown as the first of them. -/
theorem relabelledPoints_shown :
    (render relabelledPoints ∅).toOption.bind samples? = some
      [⟨"platform_cpu_usage_per_cpu", [("cpu", "0")], "1"⟩,
       ⟨"platform_cpu_usage_per_cpu", [("cpu", "1")], "2"⟩] ∧
    (render joinedPoints ∅).toOption.bind samples? = some
      [⟨"platform_cpu_usage_per_cpu", [("cpu", "1"), ("zone", "23")], "3"⟩] := by
  constructor
  · exact (samples?_of_sorted rfl (by decide) _).trans (by decide +kernel)
  · exact (samples?_of_sorted rfl (by decide) _).trans (by decide +kernel)

end PlatformSnapshot.Exposition
