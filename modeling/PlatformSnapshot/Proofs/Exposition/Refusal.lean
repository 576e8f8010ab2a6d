import Mathlib.Data.List.Forall2
import PlatformSnapshot.Proofs.Exposition.Families
/-!
What an exposition refuses. A family goes by the first metric of its name: by its kind and by the
number of its labels, whatever later metrics say of themselves. A list is refused for the first metric
that its family cannot take, and for nothing else if the metrics that open families can open them.
-/
namespace PlatformSnapshot.Exposition

variable {key : List String → String} {ms ms' before : List Metric} {m o : Metric} {f g : Family}
  {fs fs' : Families} {e : Error}

/-- The metric that opens the family of a name. -/
def first? (name : MetricName) (ms : List Metric) : Option Metric := ms.find? (·.name = name)

theorem first?_cons (name : MetricName) (m : Metric) (ms : List Metric) :
    first? name (m :: ms) = if m.name = name then some m else first? name ms := by
  by_cases h : m.name = name <;> simp [first?, h]

theorem first?_append (name : MetricName) (ms ms' : List Metric) :
    first? name (ms ++ ms') = (first? name ms).or (first? name ms') := List.find?_append ..

theorem first?_eq_none_iff {name : MetricName} : first? name ms = none ↔ ∀ m ∈ ms, m.name ≠ name := by
  simp [first?, List.find?_eq_none]

/-- What is wrong with a metric for a family of some kind with so many labels. A value that a counter
cannot have comes before a number of labels that does not fit. -/
inductive Refuses (kind : MetricKind) (count : Nat) (m : Metric) : Error → Prop
  | negative (hvalue : kind = .counter ∧ m.value.isBelowZero) : Refuses kind count m (.negativeCounter m.name m.value)
  | cardinality (hvalue : ¬ (kind = .counter ∧ m.value.isBelowZero)) (hsize : m.labels.size ≠ count) :
    Refuses kind count m (.cardinality count m.labels.size)

theorem exists_refuses_iff {kind : MetricKind} {count : Nat} :
    (∃ e, Refuses kind count m e) ↔ (kind = .counter ∧ m.value.isBelowZero) ∨ m.labels.size ≠ count := by
  constructor
  · rintro ⟨e, hvalue | ⟨hvalue, hsize⟩⟩
    · exact .inl hvalue
    · exact .inr hsize
  · intro h
    by_cases hvalue : kind = .counter ∧ m.value.isBelowZero
    · exact ⟨_, .negative hvalue⟩
    · exact ⟨_, .cardinality hvalue (h.resolve_left hvalue)⟩

/-- The metric is refused by the family that the first metric of its name opens. -/
def Refused (ms : List Metric) (m : Metric) (e : Error) : Prop :=
  ∃ o, first? m.name ms = some o ∧ Refuses o.kind o.labels.size m e

theorem exists_refused_iff : (∃ e, Refused ms m e) ↔ ∃ o, first? m.name ms = some o ∧
    ((o.kind = .counter ∧ m.value.isBelowZero) ∨ m.labels.size ≠ o.labels.size) := by
  simp only [Refused, ← exists_refuses_iff, ← exists_and_left]
  exact exists_comm

/-- Every first metric of a name has a help text and labels that a family can be opened with. -/
def Openable (ms : List Metric) : Prop :=
  ∀ name o, first? name ms = some o → o.help ≠ "" ∧ ∀ n ∈ o.labels.keys, isLabelName n

namespace Family

theorem add_eq_error_iff : f.add key m = .error e ↔ Refuses f.kind f.labelNames.length m e := by
  unfold add
  split
  case isTrue hvalue =>
    constructor
    · rintro ⟨⟩
      exact .negative hvalue
    · rintro (- | ⟨hnot, -⟩)
      · rfl
      · exact absurd hvalue hnot
  case isFalse hvalue =>
    split
    case isTrue hsize =>
      constructor
      · rintro ⟨⟩
        exact .cardinality hvalue hsize
      · rintro (hbad | -)
        · exact absurd hbad hvalue
        · rfl
    case isFalse hsize =>
      constructor
      · rintro ⟨⟩
      · rintro (hbad | ⟨-, hbad⟩)
        · exact absurd hbad hvalue
        · exact absurd hbad hsize

/-- A family takes what it does not refuse, and nothing but its series changes. -/
theorem add_eq_ok_iff : f.add key m = .ok g ↔
    (∀ e, ¬ Refuses f.kind f.labelNames.length m e) ∧ { f with series := extend key f.kind f.series m } = g := by
  have hrefuses : ∀ e, Refuses f.kind f.labelNames.length m e ↔ f.add key m = .error e :=
    fun e => add_eq_error_iff.symm
  simp only [hrefuses]
  unfold add
  split
  case isTrue => simp
  case isFalse =>
    split
    case isTrue => simp
    case isFalse => simp [extend]

/-- How a family was opened. -/
def opening (f : Family) : MetricKind × String × List String := (f.kind, f.help, f.labelNames)

theorem opening_of_add (h : f.add key m = .ok g) : g.opening = f.opening := by
  obtain ⟨-, rfl⟩ := add_eq_ok_iff.1 h
  rfl

end Family

/-- How a metric opens a family. -/
def opening (m : Metric) : MetricKind × String × List String := (m.kind, m.help, m.labels.keys)

theorem Family.opening_of_open? (h : open? m = .ok f) : f.opening = Exposition.opening m := by
  obtain ⟨-, -, rfl⟩ := open?_eq_ok_iff.1 h
  rfl

/-- A family stays as its first metric opened it. -/
theorem Family.opening_of_next {o : Option Family} (h : Family.next key o m = .ok f) :
    some f.opening = (o.map Family.opening).or (some (Exposition.opening m)) := by
  cases o with
  | some g => exact congrArg some (opening_of_add h)
  | none =>
    obtain ⟨g, hg, hadd⟩ := bind_eq_ok_iff.1 h
    exact congrArg some ((opening_of_add hadd).trans (opening_of_open? hg))

namespace Families

/-- The families are those that the first metrics of their names have opened. -/
def OpenedBy (fs : Families) (ms : List Metric) : Prop :=
  ∀ name : MetricName, (fs.get? name.text).map Family.opening = (first? name ms).map opening

theorem openedBy_nil : OpenedBy ∅ [] := fun _ => rfl

theorem OpenedBy.add (h : fs.OpenedBy before) (hadd : fs.add key m = .ok fs') : fs'.OpenedBy (before ++ [m]) := by
  rw [add_eq, map_eq_ok_iff] at hadd
  obtain ⟨f, hf, rfl⟩ := hadd
  intro name
  have hlast : first? name [m] = if m.name = name then some m else none := first?_cons name m []
  rw [SortedMap.get?_insert, first?_append, hlast, Option.map_or, ← h name]
  by_cases hname : m.name = name
  · subst hname
    rw [if_pos rfl, if_pos rfl]
    exact Family.opening_of_next hf
  · have htext : name.text ≠ m.name.text := fun he => hname (MetricName.text_injective he).symm
    rw [if_neg htext, if_neg hname, Option.map_none, Option.or_none]

theorem OpenedBy.ofMetrics (h : fs.OpenedBy before) (hms : ofMetrics key fs ms = .ok fs') :
    fs'.OpenedBy (before ++ ms) := by
  induction ms generalizing fs before with
  | nil =>
    cases hms
    rwa [List.append_nil]
  | cons m ms ih =>
    obtain ⟨fs₁, hadd, hrest⟩ := bind_eq_ok_iff.1 hms
    have hfirst := ih (h.add hadd) hrest
    rwa [List.append_assoc] at hfirst

/-- A family is open just for the names of the metrics so far. -/
theorem OpenedBy.get?_eq_none_iff (h : fs.OpenedBy before) {name : MetricName} :
    fs.get? name.text = none ↔ ∀ b ∈ before, b.name ≠ name := by
  rw [← first?_eq_none_iff, ← Option.map_eq_none_iff, h name, Option.map_eq_none_iff]

/-- What the next metric is refused for depends on the first metric of its name only. -/
theorem OpenedBy.add_eq_error_iff (h : fs.OpenedBy before) (hopen : Openable (before ++ m :: ms)) :
    fs.add key m = .error e ↔ Refused (before ++ m :: ms) m e := by
  have hown : first? m.name (m :: ms) = some m := by rw [first?_cons, if_pos rfl]
  have hopening := h m.name
  unfold Refused
  rw [add_eq, map_eq_error_iff]
  cases hbefore : first? m.name before with
  | some o =>
    rw [hbefore, Option.map_some, Option.map_eq_some_iff] at hopening
    obtain ⟨f, hget, hf⟩ := hopening
    have hkind : f.kind = o.kind := congrArg (·.1) hf
    have hcount : f.labelNames.length = o.labels.size := by
      rw [← SortedMap.length_keys]
      exact congrArg (·.2.2.length) hf
    have hfirst : first? m.name (before ++ m :: ms) = some o := by rw [first?_append, hbefore, Option.some_or]
    rw [hget, hfirst, Family.next, Family.add_eq_error_iff, hkind, hcount]
    simp
  | none =>
    rw [hbefore, Option.map_none, Option.map_eq_none_iff] at hopening
    have hfirst : first? m.name (before ++ m :: ms) = some m := by rw [first?_append, hbefore, hown, Option.none_or]
    obtain ⟨hhelp, hnames⟩ := hopen _ _ hfirst
    have hown : Family.open? m = .ok { kind := m.kind, help := m.help, labelNames := m.labels.keys } :=
      Family.open?_eq_ok_iff.2 ⟨hhelp, hnames, rfl⟩
    rw [hopening, hfirst, Family.next, hown]
    have hbind : ∀ f : Family, (Except.ok f >>= fun f => f.add key m) = f.add key m := fun _ => rfl
    rw [hbind, Family.add_eq_error_iff, SortedMap.length_keys]
    simp

/-- A run fails as the first metric that is refused. -/
theorem OpenedBy.failsFirst (h : fs.OpenedBy before) (hopen : Openable (before ++ ms)) :
    FailsFirst (Refused (before ++ ms)) ms (Families.ofMetrics key fs ms) := by
  induction ms generalizing fs before with
  | nil => exact .ok fs
  | cons m ms ih =>
    refine FailsFirst.bind (.one fun e => h.add_eq_error_iff hopen) fun fs' hadd => ?_
    have hsplit : before ++ m :: ms = before ++ [m] ++ ms := by rw [List.append_assoc, List.singleton_append]
    rw [hsplit] at hopen ⊢
    exact ih (h.add hadd) hopen

/-- Metrics that open no family can be of any kind. -/
theorem ofMetrics_congr (h : List.Forall₂ (fun m m' => m' = { m with kind := m'.kind }) ms ms')
    (hfirst : ∀ name : MetricName, fs.get? name.text = none →
      (first? name ms').map (·.kind) = (first? name ms).map (·.kind)) :
    ofMetrics key fs ms' = ofMetrics key fs ms := by
  induction h generalizing fs with
  | nil => rfl
  | @cons m m' ms ms' hm hms ih =>
    have hname : m'.name = m.name := by rw [hm]
    have hadd : fs.add key m' = fs.add key m := by
      rw [add_eq, add_eq, hname]
      cases hget : fs.get? m.name.text with
      | none =>
        have hkind := hfirst m.name hget
        rw [first?_cons, first?_cons, if_pos hname, if_pos rfl, Option.map_some, Option.map_some,
          Option.some.injEq] at hkind
        rw [hm, hkind]
      | some f =>
        rw [hm]
        rfl
    rw [ofMetrics, ofMetrics, hadd]
    cases hfs' : fs.add key m with
    | error e => rfl
    | ok fs' =>
      refine ih fun name hnone => ?_
      obtain ⟨f, -, rfl⟩ := map_eq_ok_iff.1 ((add_eq key fs m).symm.trans hfs')
      rw [SortedMap.get?_insert] at hnone
      split at hnone
      case isTrue => cases hnone
      case isFalse htext =>
        have hne : m.name ≠ name := fun he => htext (congrArg MetricName.text he.symm)
        have hkind := hfirst name hnone
        rwa [first?_cons, first?_cons, hname, if_neg hne, if_neg hne] at hkind

end Families

/-- The same metrics, but those that open no family may be of another kind. -/
structure Retyped (ms ms' : List Metric) : Prop where
  same : List.Forall₂ (fun m m' => m' = { m with kind := m'.kind }) ms ms'
  first : ∀ name, (first? name ms').map (·.kind) = (first? name ms).map (·.kind)

/-- A list is refused for the first metric that its family cannot take: the family of a counter takes no
value below zero, and every family just so many labels as its first metric has. No two families are
exposed under one name, and the kind of a metric that opens no family counts for nothing. -/
theorem renderWith_refuses_first (hopen : Openable ms) (key : List String → String) {labels : Labels}
      (listing : Listing labels) :
    (∀ e, renderWith key ms listing = .error e ↔ FirstFailure (Refused ms) ms e) ∧
      ((∃ e, renderWith key ms listing = .error e) ↔ ∃ m ∈ ms, ∃ o, first? m.name ms = some o ∧
        ((o.kind = .counter ∧ m.value.isBelowZero) ∨ m.labels.size ≠ o.labels.size)) ∧
      (∀ before m after fs, ms = before ++ m :: after → Families.ofMetrics key ∅ before = .ok fs →
        (∀ b ∈ before, b.name ≠ m.name) → fullName m.name.text ∉ fs.keys.map fullName) ∧
      ∀ ms', Retyped ms ms' → renderWith key ms' listing = renderWith key ms listing := by
  have hfails : ∀ e, renderWith key ms listing = .error e ↔ FirstFailure (Refused ms) ms e :=
    (Families.openedBy_nil.failsFirst hopen).map
  refine ⟨hfails, ?_, ?_, ?_⟩
  · simp only [hfails, exists_firstFailure_iff, exists_refused_iff]
  · intro before m after fs _ hfs hnew hmem
    have hopened : fs.OpenedBy before := Families.openedBy_nil.ofMetrics hfs
    obtain ⟨t, ht, hfull⟩ := List.mem_map.1 hmem
    obtain ⟨f, hget⟩ := fs.mem_keys_iff.1 ht
    have htext : t = m.name.text := String.toList_injective (List.append_cancel_left hfull)
    rw [htext, hopened.get?_eq_none_iff.2 hnew] at hget
    cases hget
  · intro ms' h
    rw [renderWith, renderWith, Families.ofMetrics_congr h.same fun name _ => h.first name]

/-- A point of its name, for examples. -/
def point (name : MetricName) (value : Int) (labels : List (String × String)) : Metric :=
  .ofName name (.ofInt value) (.ofList labels) ⟨⟨2024, 2, 29⟩, 12, 0, 0, 0⟩

/-- A gauge below zero, and then a counter below zero that calls itself a gauge and has a label too many. -/
def overdrawnPoints : List Metric := [
  point .cpuUsage 5 [("cpu", "0")], point .memoryUsage (-1) [],
  { point .cpuUsage (-2) [("cpu", "1"), ("zone", "a")] with kind := .gauge }, point .memoryUsage 7 [("zone", "b")]]

theorem renderWith_overdrawnPoints : Openable overdrawnPoints ∧
    render overdrawnPoints ∅ = .error (.negativeCounter .cpuUsage (.ofInt (-2))) := by
  have hall : ∀ m ∈ overdrawnPoints, m.help ≠ "" ∧ ∀ n ∈ m.labels.keys, isLabelName n := by decide
  have hopen : Openable overdrawnPoints := fun name o ho => hall o (List.mem_of_find?_eq_some ho)
  have hbefore : ∀ b ∈ overdrawnPoints.take 2, ∃ o, first? b.name overdrawnPoints = some o ∧
      ¬ ((o.kind = .counter ∧ b.value.isBelowZero) ∨ b.labels.size ≠ o.labels.size) := by
    refine List.forall_mem_cons.2 ⟨⟨_, rfl, by decide⟩, List.forall_mem_singleton.2 ⟨_, rfl, by decide⟩⟩
  refine ⟨hopen, ((renderWith_refuses_first hopen String.join (.byText ∅)).1 _).2
    ⟨overdrawnPoints.take 2, _, _, rfl, ?_, ?_⟩⟩
  · intro b hb e he
    obtain ⟨o, ho, hnot⟩ := hbefore b hb
    obtain ⟨o', ho', hbad⟩ := exists_refused_iff.1 ⟨e, he⟩
    obtain rfl : o = o' := Option.some.inj (ho.symm.trans ho')
    exact hnot hbad
  · exact ⟨_, rfl, .negative (by decide)⟩

end PlatformSnapshot.Exposition
