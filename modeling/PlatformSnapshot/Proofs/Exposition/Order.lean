import PlatformSnapshot.Proofs.Exposition.Labels
/-!
The order of the metrics does not show in an exposition. What it shows of a name is made of the metrics
of that name, each as a series of its own, and series are put in the order of their label values. The
order of the host's labels does show, but nowhere else than where they stand.
-/
namespace PlatformSnapshot.Exposition

open Text (unlines)
open scoped List

variable {key : List String → String} {ms ms' : List Metric} {m : Metric} {fs fs' : Families}

/-- Metrics that can be exposed in any order: those of one name open their family alike, and no two of
them have the same label values. -/
structure Exposable (ms : List Metric) : Prop where
  help : ∀ m ∈ ms, m.help ≠ ""
  labelNames : ∀ m ∈ ms, ∀ n ∈ m.labels.keys, isLabelName n
  nonnegative : ∀ m ∈ ms, m.kind = .counter → m.value.isBelowZero = false
  alike : ∀ m ∈ ms, ∀ m' ∈ ms, m.name = m'.name → opening m = opening m'
  distinct : ms.Pairwise fun m m' => m.name = m'.name → m.labels.values ≠ m'.labels.values

/-- The family that a metric opens. -/
def opened (m : Metric) : Family := { kind := m.kind, help := m.help, labelNames := m.labels.keys }

theorem opened_congr {m m' : Metric} (h : opening m = opening m') : opened m = opened m' := by
  have hkind : m.kind = m'.kind := congrArg (·.1) h
  have hhelp : m.help = m'.help := congrArg (·.2.1) h
  have hnames : m.labels.keys = m'.labels.keys := congrArg (·.2.2) h
  rw [opened, opened, hkind, hhelp, hnames]

/-- What is shown of metrics of one name. -/
def shownOf (ms : List Metric) : Option (Family × List Series) :=
  ms.head?.map fun o => (opened o, (ms.map (Family.seriesOf o.kind)).mergeSort leqValues)

theorem Exposable.perm (h : Exposable ms) (hperm : ms ~ ms') : Exposable ms' where
  help m hm := h.help m (hperm.mem_iff.2 hm)
  labelNames m hm := h.labelNames m (hperm.mem_iff.2 hm)
  nonnegative m hm := h.nonnegative m (hperm.mem_iff.2 hm)
  alike m hm m' hm' := h.alike m (hperm.mem_iff.2 hm) m' (hperm.mem_iff.2 hm')
  distinct := hperm.pairwise h.distinct fun hne hname heq => hne hname.symm heq.symm

theorem mem_of_filter_eq {l : List Metric} {name : MetricName} (hl : ms.filter (·.name = name) = l) :
    ∀ m ∈ l, m ∈ ms ∧ m.name = name := by
  subst hl
  intro m hm
  simpa using List.mem_filter.1 hm

namespace Exposable

variable (h : Exposable ms) (name : MetricName)

include h

theorem opened_eq {m m' : Metric} (hm : m ∈ ms ∧ m.name = name) (hm' : m' ∈ ms ∧ m'.name = name) :
    opened m = opened m' := opened_congr (h.alike m hm.1 m' hm'.1 (hm.2.trans hm'.2.symm))

/-- All metrics of a name would open its family as its first one does. -/
theorem opens {o : Metric} {rest : List Metric} (hfilter : ms.filter (·.name = name) = o :: rest) :
    ∀ m ∈ o :: rest, (opened o).Opens m := by
  have hmem := mem_of_filter_eq hfilter
  intro m hm
  have hms := (hmem m hm).1
  rw [h.opened_eq name (hmem o List.mem_cons_self) (hmem m hm)]
  exact ⟨Family.open?_eq_ok_iff.2 ⟨h.help m hms, h.labelNames m hms, rfl⟩, h.nonnegative m hms⟩

theorem nodup_values : ((ms.filter (·.name = name)).map (·.labels.values)).Nodup := by
  have hmem : ∀ m ∈ ms.filter (·.name = name), m ∈ ms ∧ m.name = name := mem_of_filter_eq rfl
  refine List.pairwise_map.2 ((h.distinct.filter _).imp_of_mem fun {m m'} hm hm' hne => ?_)
  exact hne ((hmem m hm).2.trans (hmem m' hm').2.symm)

theorem nodup_keys (hkey : ∀ m ∈ ms, KnownBy key ms m) :
    ((ms.filter (·.name = name)).map fun m => key m.labels.values).Nodup := by
  have hmem : ∀ m ∈ ms.filter (·.name = name), m ∈ ms ∧ m.name = name := mem_of_filter_eq rfl
  refine List.pairwise_map.2 ((List.pairwise_map.1 (h.nodup_values name)).imp_of_mem fun {m m'} hm hm' hne heq => ?_)
  exact hne (hkey m' (hmem m' hm').1 m (hmem m hm).1 ((hmem m hm).2.trans (hmem m' hm').2.symm) heq)

/-- A run over the metrics of a name shows just what is to be shown of them. -/
theorem run_eq (hkey : ∀ m ∈ ms, KnownBy key ms m) : ∃ r,
    Family.run key none (ms.filter (·.name = name)) = .ok r ∧
      r.map Family.shown = shownOf (ms.filter (·.name = name)) := by
  have hvalues := h.nodup_values name
  have hkeys := h.nodup_keys name hkey
  cases hfilter : ms.filter (·.name = name) with
  | nil => exact ⟨none, rfl, rfl⟩
  | cons o rest =>
    rw [hfilter] at hvalues hkeys
    have hperm : ((o :: rest).foldl (Family.extend key o.kind) ∅).values ~ (o :: rest).map (Family.seriesOf o.kind) :=
      Family.perm_values_foldl_extend o.kind hkeys
    have hsort : ((o :: rest).foldl (Family.extend key o.kind) ∅).values.mergeSort leqValues =
        ((o :: rest).map (Family.seriesOf o.kind)).mergeSort leqValues := by
      refine (mergeSort_leqValues_congr hperm.symm ?_).symm
      rwa [List.map_map]
    exact ⟨_, Family.run_eq (h.opens name hfilter) (by simp), congrArg (fun ss => some (opened o, ss)) hsort⟩

end Exposable

/-- A line of an exposition without the labels of the host: a comment, or a sample that they are put behind. -/
inductive Line where
  | comment (text : List Char)
  | sample (s : Sample)

def Line.text (constant : List (String × String)) : Line → List Char
  | .comment text => text
  | .sample s => Sample.line { s with labels := s.labels ++ constant }

end PlatformSnapshot.Exposition
