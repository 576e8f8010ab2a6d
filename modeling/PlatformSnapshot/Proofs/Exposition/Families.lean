import Mathlib.Data.List.Nodup
import Mathlib.Data.List.Sort
import PlatformSnapshot.Exposition
import PlatformSnapshot.Proofs.Reading
import PlatformSnapshot.Proofs.SortedMap
/-!
Families are made independently of each other: what a list of metrics leaves for one name is what the
metrics of that name alone make, in their order. A family whose metrics all differ in their label
values has one series for each of them.
-/
namespace PlatformSnapshot

theorem MetricName.text_injective : Function.Injective MetricName.text := by
  intro a b h
  cases a <;> cases b <;> first | rfl | exact absurd h (by decide)

namespace Exposition

open scoped List

variable {key : List String → String} {ms : List Metric} {m : Metric} {f : Family}

namespace Family

/-- A family after one more metric of its name; the first one opens it. -/
def next (key : List String → String) : Option Family → Metric → Except Error Family
  | some f, m => f.add key m
  | none, m => do (← open? m).add key m

/-- A family after a list of metrics of its name. -/
def run (key : List String → String) (f : Option Family) : List Metric → Except Error (Option Family)
  | [] => .ok f
  | m :: ms => do run key (some (← next key f m)) ms

end Family

namespace Families

variable {fs fs' : Families}

theorem add_eq (key : List String → String) (fs : Families) (m : Metric) :
    fs.add key m = (Family.next key (fs.get? m.name.text) m).map (fs.insert m.name.text ·) := by
  unfold add
  cases fs.get? m.name.text with
  | some f => rfl
  | none =>
    have hopen : Family.next key none m = Family.open? m >>= fun f => f.add key m := rfl
    rw [hopen]
    cases Family.open? m with
    | error e => rfl
    | ok f => rfl

/-- The first metric acts on the family of its own name only. -/
theorem run_filter_cons (hf : Family.next key (fs.get? m.name.text) m = .ok f) (name : MetricName) :
    Family.run key (fs.get? name.text) ((m :: ms).filter (·.name = name)) =
      Family.run key ((fs.insert m.name.text f).get? name.text) (ms.filter (·.name = name)) := by
  rw [SortedMap.get?_insert]
  by_cases h : m.name = name
  · subst h
    rw [List.filter_cons_of_pos (by simp), Family.run, hf, if_pos rfl]
    rfl
  · have htext : name.text ≠ m.name.text := fun he => h (MetricName.text_injective he).symm
    rw [List.filter_cons_of_neg (by simpa using h), if_neg htext]

/-- Adding metrics changes the family of each name as the metrics of that name do, and no other. -/
theorem ofMetrics_eq_ok_iff : ofMetrics key fs ms = .ok fs' ↔
    (∀ name : MetricName,
        Family.run key (fs.get? name.text) (ms.filter (·.name = name)) = .ok (fs'.get? name.text)) ∧
      ∀ t, (∀ name : MetricName, t ≠ name.text) → fs'.get? t = fs.get? t := by
  induction ms generalizing fs with
  | nil =>
    simp only [ofMetrics, List.filter_nil, Family.run, Except.ok.injEq]
    constructor
    · rintro rfl
      exact ⟨fun _ => rfl, fun _ _ => rfl⟩
    · rintro ⟨hnames, hothers⟩
      refine SortedMap.ext_get? fun t => ?_
      by_cases ht : ∃ name : MetricName, t = name.text
      · obtain ⟨name, rfl⟩ := ht
        exact hnames name
      · exact (hothers t fun name h => ht ⟨name, h⟩).symm
  | cons m ms ih =>
    have hothers : ∀ f t, (∀ name : MetricName, t ≠ name.text) →
        (fs.insert m.name.text f).get? t = fs.get? t := by
      intro f t ht
      rw [SortedMap.get?_insert, if_neg (ht m.name)]
    rw [ofMetrics, bind_eq_ok_iff, add_eq]
    constructor
    · rintro ⟨fs₁, hadd, hrest⟩
      obtain ⟨f, hf, rfl⟩ := map_eq_ok_iff.1 hadd
      obtain ⟨hnames, hrest⟩ := ih.1 hrest
      exact ⟨fun name => (run_filter_cons hf name).trans (hnames name),
        fun t ht => (hrest t ht).trans (hothers f t ht)⟩
    · rintro ⟨hnames, hrest⟩
      have hown := hnames m.name
      rw [List.filter_cons_of_pos (by simp), Family.run, bind_eq_ok_iff] at hown
      obtain ⟨f, hf, -⟩ := hown
      refine ⟨_, map_eq_ok_iff.2 ⟨f, hf, rfl⟩, ih.2 ⟨fun name => ?_, fun t ht => ?_⟩⟩
      · exact (run_filter_cons hf name).symm.trans (hnames name)
      · exact (hrest t ht).trans (hothers f t ht).symm

end Families

namespace Family

theorem open?_eq_ok_iff : open? m = .ok f ↔ m.help ≠ "" ∧ (∀ n ∈ m.labels.keys, isLabelName n) ∧
    f = { kind := m.kind, help := m.help, labelNames := m.labels.keys } := by
  have hnames : (m.labels.keys.find? fun n => !isLabelName n) = none ↔ ∀ n ∈ m.labels.keys, isLabelName n := by
    simp [List.find?_eq_none]
  unfold open?
  by_cases hhelp : m.help = ""
  · simp [hhelp]
  · rw [if_neg hhelp, ← hnames]
    cases (m.labels.keys.find? fun n => !isLabelName n) with
    | some n => simp
    | none => simp [hhelp, eq_comm]

/-- A metric that opens a family as `f` and has a value that its kind can have. -/
structure Opens (f : Family) (m : Metric) : Prop where
  open?_eq : open? m = .ok f
  nonnegative : f.kind = .counter → m.value.isBelowZero = false

/-- What a metric adds to the series of its family. -/
def extend (key : List String → String) (kind : MetricKind) (s : SortedMap String Series) (m : Metric) :
    SortedMap String Series :=
  s.alter (key m.labels.values) (observe kind m.labels.values m.value)

theorem Opens.add_eq (h : Opens f m) (s : SortedMap String Series) :
    add key { f with series := s } m = .ok { f with series := extend key f.kind s m } := by
  have hvalue : ¬ (f.kind = .counter ∧ m.value.isBelowZero = true) :=
    fun hbad => by simp [h.nonnegative hbad.1] at hbad
  obtain ⟨-, -, rfl⟩ := open?_eq_ok_iff.1 h.open?_eq
  have hsize : ¬ m.labels.size ≠ m.labels.keys.length := by simp
  simp only [add, if_neg hvalue, if_neg hsize]
  rfl

/-- A family of metrics that would all open it alike has the series that these metrics make. -/
theorem run_eq (hms : ∀ m ∈ ms, Opens f m) (hne : ms ≠ []) :
    run key none ms = .ok (some { f with series := ms.foldl (extend key f.kind) ∅ }) := by
  have hrun : ∀ (ms : List Metric) (s : SortedMap String Series), (∀ m ∈ ms, Opens f m) →
      run key (some { f with series := s }) ms = .ok (some { f with series := ms.foldl (extend key f.kind) s }) := by
    intro ms s hms
    induction ms generalizing s with
    | nil => rfl
    | cons m ms ih =>
      obtain ⟨hm, hms⟩ := List.forall_mem_cons.1 hms
      rw [run, next, hm.add_eq]
      exact ih _ hms
  obtain ⟨m, ms, rfl⟩ := List.exists_cons_of_ne_nil hne
  obtain ⟨hm, hms⟩ := List.forall_mem_cons.1 hms
  have hfirst : next key none m = .ok { f with series := extend key f.kind ∅ m } := by
    have hadd : add key { f with series := ∅ } m = .ok { f with series := extend key f.kind ∅ m } := hm.add_eq ∅
    obtain ⟨-, -, rfl⟩ := open?_eq_ok_iff.1 hm.open?_eq
    rw [next, hm.open?_eq]
    exact hadd
  rw [run, hfirst]
  exact hrun ms _ hms

/-- A series that one metric alone has made. -/
def seriesOf (kind : MetricKind) (m : Metric) : Series := observe kind m.labels.values m.value none

/-- Metrics with keys of their own have a series each. -/
theorem perm_values_foldl_extend (kind : MetricKind) (hd : (ms.map fun m => key m.labels.values).Nodup) :
    (ms.foldl (extend key kind) ∅).values ~ ms.map (seriesOf kind) := by
  have hentries : (ms.foldl (extend key kind) ∅).entries ~
      ms.map fun m => (key m.labels.values, seriesOf kind m) := by
    have h := SortedMap.perm_entries_foldl_alter (fun m : Metric => key m.labels.values)
      (fun m => observe kind m.labels.values m.value) ms ∅ hd (by simp)
    rwa [SortedMap.entries_empty, List.append_nil] at h
  have hvalues := hentries.map (·.2)
  rwa [List.map_map] at hvalues

end Family

theorem leqValues_iff {a b : Series} : leqValues a b ↔ (compare a.labelValues b.labelValues).isLE := by
  rw [Ordering.isLE_iff_ne_gt, leqValues, bne_iff_ne]

theorem pairwise_mergeSort_leqValues (ss : List Series) :
    (ss.mergeSort leqValues).Pairwise fun a b => (compare a.labelValues b.labelValues).isLE := by
  refine (List.pairwise_mergeSort ?_ ?_ ss).imp leqValues_iff.1
  · intro a b c hab hbc
    rw [leqValues_iff] at *
    exact Std.TransCmp.isLE_trans hab hbc
  · intro a b
    rw [Bool.or_eq_true, leqValues_iff, leqValues_iff]
    by_cases h : compare a.labelValues b.labelValues = .gt
    · rw [Std.OrientedCmp.gt_iff_lt.1 h]
      exact .inr rfl
    · exact .inl (Ordering.isLE_iff_ne_gt.2 h)

/-- The order of the series does not depend on how they were found, as each has label values of its own. -/
theorem mergeSort_leqValues_congr {as bs : List Series} (h : as ~ bs) (hd : (as.map (·.labelValues)).Nodup) :
    as.mergeSort leqValues = bs.mergeSort leqValues := by
  have hperm : as.mergeSort leqValues ~ bs.mergeSort leqValues :=
    ((List.mergeSort_perm ..).trans h).trans (List.mergeSort_perm ..).symm
  refine hperm.eq_of_pairwise ?_ (pairwise_mergeSort_leqValues as) (pairwise_mergeSort_leqValues bs)
  intro a b ha hb hab hba
  have heq : a.labelValues = b.labelValues := Std.LawfulEqCmp.eq_of_compare (Std.OrientedCmp.isLE_antisymm hab hba)
  refine List.inj_on_of_nodup_map hd ?_ ?_ heq
  · exact (List.mergeSort_perm ..).mem_iff.1 ha
  · exact h.mem_iff.2 ((List.mergeSort_perm ..).mem_iff.1 hb)

/-- What the exposition shows of a family: how it was opened, and its series in their order. -/
def Family.shown (f : Family) : Family × List Series := ({ f with series := ∅ }, f.series.values.mergeSort leqValues)

def Families.shown (fs : Families) : List (String × Family × List Series) := fs.entries.map fun e => (e.1, e.2.shown)

/-- Families that show the same have the same text. -/
theorem text_eq_of_shown (constant : List (String × String)) {fs fs' : Families} (h : fs.shown = fs'.shown) :
    text constant fs = text constant fs' := by
  have htext : ∀ fs : Families, text constant fs = .ofList (fs.shown.flatMap fun e =>
      "# HELP ".toList ++ fullName e.1 ++ ' ' :: escapeHelp e.2.1.help.toList ++
        "\n# TYPE ".toList ++ fullName e.1 ++ ' ' :: e.2.1.kind.text.toList ++
        '\n' :: e.2.2.flatMap (sampleLine e.1 e.2.1.labelNames constant)) := by
    intro fs
    rw [text, Families.shown, List.flatMap_map]
    rfl
  rw [htext, htext, h]

end Exposition
end PlatformSnapshot
