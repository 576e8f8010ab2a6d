import Mathlib.Data.List.Forall2
import Mathlib.Data.List.Induction
import PlatformSnapshot.Fields
import PlatformSnapshot.Processor.Topology
import PlatformSnapshot.Processor.BusyTime
import PlatformSnapshot.Memory.Used
import PlatformSnapshot.Memory.Nodes
import PlatformSnapshot.ResourceControl
/-!
What a reading has done once it has succeeded: the source was readable, and its text parsed to the
result. Each reading has one lemma here, so that nothing later opens it again.
-/
namespace PlatformSnapshot

theorem bind_eq_ok_iff {x : Except ε α} {f : α → Except ε β} {b : β} :
    x >>= f = .ok b ↔ ∃ a, x = .ok a ∧ f a = .ok b := by
  cases x <;> simp [bind, Except.bind]

theorem mapError_eq_ok_iff {x : Except ε α} {f : ε → ε'} {a : α} :
    x.mapError f = .ok a ↔ x = .ok a := by
  cases x <;> constructor <;> rintro ⟨⟩ <;> rfl

theorem map_eq_ok_iff {x : Except ε α} {f : α → β} {b : β} :
    x.map f = .ok b ↔ ∃ a, x = .ok a ∧ f a = b := by
  cases x <;> simp [Except.map]

theorem map_bind {x : Except ε α} {f : α → Except ε β} {g : β → γ} :
    (x >>= f).map g = x >>= fun a => (f a).map g := by
  cases x <;> rfl

theorem map_eq_error_iff {x : Except ε α} {f : α → β} {e : ε} : x.map f = .error e ↔ x = .error e := by
  cases x <;> simp [Except.map]

theorem exists_error_iff {x : Except ε α} : (∃ e, x = .error e) ↔ ¬ ∃ a, x = .ok a := by
  cases x <;> simp

theorem exists_ok_iff {x : Except ε α} : (∃ a, x = .ok a) ↔ ∀ e, ¬ x = .error e := by
  cases x <;> simp

theorem exists_ok_of_isOk {x : Except ε α} (h : x.isOk = true) : ∃ a, x = .ok a := by
  cases x with
  | error e => cases h
  | ok a => exact ⟨a, rfl⟩

theorem bind_eq_error_iff {x : Except ε α} {f : α → Except ε β} {e : ε} :
    x >>= f = .error e ↔ x = .error e ∨ ∃ a, x = .ok a ∧ f a = .error e := by
  cases x <;> simp [bind, Except.bind]

theorem mapError_eq_error_iff {x : Except ε α} {f : ε → ε'} {e : ε'} :
    x.mapError f = .error e ↔ ∃ d, x = .error d ∧ f d = e := by
  cases x <;> simp [Except.mapError]

/-- The first of the things at fault, and what is wrong with it. -/
def FirstFailure (fails : α → ε → Prop) (as : List α) (e : ε) : Prop :=
  ∃ before a after, as = before ++ a :: after ∧ (∀ b ∈ before, ∀ d, ¬ fails b d) ∧ fails a e

section FirstFailure

variable {fails : α → ε → Prop} {a : α} {as : List α} {e : ε}

theorem firstFailure_nil : ¬ FirstFailure fails [] e := by simp [FirstFailure]

theorem firstFailure_cons : FirstFailure fails (a :: as) e ↔
    fails a e ∨ (∀ d, ¬ fails a d) ∧ FirstFailure fails as e := by
  constructor
  · rintro ⟨before, b, after, hsplit, hbefore, hb⟩
    cases before with
    | nil =>
      cases hsplit
      exact .inl hb
    | cons c before =>
      cases hsplit
      obtain ⟨hc, hbefore⟩ := List.forall_mem_cons.1 hbefore
      exact .inr ⟨hc, before, b, after, rfl, hbefore, hb⟩
  · rintro (ha | ⟨ha, before, b, after, rfl, hbefore, hb⟩)
    · exact ⟨[], a, as, rfl, by simp, ha⟩
    · exact ⟨a :: before, b, after, rfl, List.forall_mem_cons.2 ⟨ha, hbefore⟩, hb⟩

theorem exists_firstFailure_iff : (∃ e, FirstFailure fails as e) ↔ ∃ a ∈ as, ∃ e, fails a e := by
  induction as with
  | nil => simp [firstFailure_nil]
  | cons a as ih =>
    simp only [firstFailure_cons, exists_or, exists_and_left, ih, List.exists_mem_cons_iff]
    by_cases ha : ∃ e, fails a e
    · simp [ha]
    · simp [not_exists.1 ha]

theorem firstFailure_append {bs : List α} : FirstFailure fails (as ++ bs) e ↔
    FirstFailure fails as e ∨ (∀ d, ¬ FirstFailure fails as d) ∧ FirstFailure fails bs e := by
  induction as with
  | nil => simp [firstFailure_nil]
  | cons a as ih =>
    simp only [List.cons_append, firstFailure_cons, ih]
    by_cases ha : ∃ d, fails a d
    · have hnot : ¬ ∀ d, ¬ fails a d := not_forall_not.2 ha
      simp only [hnot, false_and, or_false]
    · simp [not_exists.1 ha]

theorem firstFailure_congr {fails' : α → ε → Prop} (h : ∀ a ∈ as, ∀ e, fails a e ↔ fails' a e) :
    FirstFailure fails as e ↔ FirstFailure fails' as e := by
  induction as with
  | nil => simp [firstFailure_nil]
  | cons a as ih =>
    obtain ⟨ha, has⟩ := List.forall_mem_cons.1 h
    simp only [firstFailure_cons, ha, ih has]

/-- A reading that uses these things in order: it fails as the first of them that is at fault. -/
def FailsFirst (fails : α → ε → Prop) (as : List α) (x : Except ε β) : Prop :=
  ∀ e, x = .error e ↔ FirstFailure fails as e

namespace FailsFirst

variable {x : Except ε β}

theorem ok (b : β) : FailsFirst fails [] (.ok b) := by
  intro e
  simp [firstFailure_nil]

theorem one (h : ∀ e, x = .error e ↔ fails a e) : FailsFirst fails [a] x := by
  intro e
  rw [h, firstFailure_cons]
  simp [firstFailure_nil]

theorem bind {f : β → Except ε γ} {bs : List α} (hx : FailsFirst fails as x)
    (hf : ∀ b, x = .ok b → FailsFirst fails bs (f b)) : FailsFirst fails (as ++ bs) (x >>= f) := by
  intro e
  have hfirst : ∀ d, FirstFailure fails as d ↔ x = .error d := fun d => (hx d).symm
  rw [bind_eq_error_iff, firstFailure_append, hfirst]
  simp only [hfirst]
  cases x with
  | error d => simp
  | ok b => simp [hf b rfl e]

theorem map {f : β → γ} (h : FailsFirst fails as x) : FailsFirst fails as (x.map f) := by
  intro e
  rw [map_eq_error_iff, h]

end FailsFirst

end FirstFailure

/-- A reading of many things succeeds if each is read. -/
theorem mapM_eq_ok_iff {f : α → Except ε β} {as : List α} {bs : List β} :
    as.mapM f = .ok bs ↔ List.Forall₂ (fun a b => f a = .ok b) as bs := by
  induction as generalizing bs with
  | nil => cases bs <;> simp [pure, Except.pure]
  | cons a as ih =>
    simp only [List.mapM_cons, bind_eq_ok_iff, ih, pure, Except.pure, Except.ok.injEq, List.forall₂_cons_left_iff]
    constructor
    · rintro ⟨b, hb, bs, hbs, rfl⟩
      exact ⟨b, bs, hb, hbs, rfl⟩
    · rintro ⟨b, bs, hb, hbs, rfl⟩
      exact ⟨b, hb, bs, hbs, rfl⟩

/-- It fails with what is wrong with the first that is not read. -/
theorem mapM_eq_error_iff {f : α → Except ε β} {as : List α} {e : ε} :
    as.mapM f = .error e ↔
      ∃ before a after, as = before ++ a :: after ∧ (∀ b ∈ before, ∃ c, f b = .ok c) ∧ f a = .error e := by
  have hfirst : as.mapM f = .error e ↔ FirstFailure (fun a d => f a = .error d) as e := by
    induction as with
    | nil => simp [pure, Except.pure, firstFailure_nil]
    | cons a as ih =>
      simp only [List.mapM_cons, bind_eq_error_iff, ih, pure, Except.pure, reduceCtorEq, and_false, exists_false,
        or_false, firstFailure_cons, ← exists_ok_iff, exists_and_right]
  simp only [hfirst, FirstFailure, exists_ok_iff]

theorem all_or_first (P : α → Prop) (as : List α) :
    (∀ a ∈ as, P a) ∨ ∃ before a after, as = before ++ a :: after ∧ (∀ b ∈ before, P b) ∧ ¬ P a := by
  induction as with
  | nil => exact .inl (by simp)
  | cons a as ih =>
    by_cases ha : P a
    · rcases ih with has | ⟨before, b, after, rfl, hbefore, hb⟩
      · exact .inl (List.forall_mem_cons.2 ⟨ha, has⟩)
      · exact .inr ⟨a :: before, b, after, rfl, List.forall_mem_cons.2 ⟨ha, hbefore⟩, hb⟩
    · exact .inr ⟨[], a, as, rfl, by simp, ha⟩

/-- Either all pairs are related, or there is a first thing that one before it is not related to. -/
theorem pairwise_or_first (R : α → α → Prop) (as : List α) :
    as.Pairwise R ∨
      ∃ before a after, as = before ++ a :: after ∧ before.Pairwise R ∧ ∃ b ∈ before, ¬ R b a := by
  induction as using List.reverseRecOn with
  | nil => exact .inl .nil
  | append_singleton as a ih =>
    rcases ih with has | ⟨before, b, after, rfl, hbefore, hb⟩
    · rcases all_or_first (R · a) as with hall | ⟨left, b, right, rfl, -, hb⟩
      · exact .inl (List.pairwise_append.2 ⟨has, List.pairwise_singleton R a, by simpa using hall⟩)
      · exact .inr ⟨left ++ b :: right, a, [], rfl, has, b, by simp, hb⟩
    · exact .inr ⟨before, b, after ++ [a], by simp, hbefore, hb⟩

theorem bind_eq_some {x : Option α} {f : α → Option β} {a : α} {b : β} (hx : x = some a) (hf : f a = some b) :
    x >>= f = some b := Option.bind_eq_some_iff.2 ⟨a, hx, hf⟩

theorem mapM_map_eq_some_map {write : α → β} {read : β → Option γ} {value : α → γ} {as : List α}
    (h : ∀ a ∈ as, read (write a) = some (value a)) : (as.map write).mapM read = some (as.map value) := by
  induction as with
  | nil => rfl
  | cons a as ih =>
    obtain ⟨ha, has⟩ := List.forall_mem_cons.1 h
    rw [List.map_cons, List.mapM_cons, ha, ih has]
    rfl

/-- What is read of written things is these things, if it is so for each. -/
theorem mapM_map_eq_some {write : α → β} {read : β → Option α} {as : List α}
    (h : ∀ a ∈ as, read (write a) = some a) : (as.map write).mapM read = some as := by
  have hall : (as.map write).mapM read = some (as.map id) := mapM_map_eq_some_map h
  rwa [List.map_id] at hall

/-- Among things with keys of their own, a key picks one. -/
theorem filter_key_eq_singleton [DecidableEq β] {f : α → β} {as : List α} (hd : (as.map f).Nodup) {a : α}
    (ha : a ∈ as) : as.filter (f · = f a) = [a] := by
  induction as with
  | nil => cases ha
  | cons b as ih =>
    obtain ⟨hb, hd⟩ := List.nodup_cons.1 hd
    rcases List.mem_cons.1 ha with rfl | ha
    · have hnone : as.filter (f · = f a) = [] :=
        List.filter_eq_nil_iff.2 fun c hc h => hb (List.mem_map.2 ⟨c, hc, by simpa using h⟩)
      rw [List.filter_cons_of_pos (by simp), hnone]
    · have hne : f b ≠ f a := fun h => hb (h ▸ List.mem_map_of_mem ha)
      rw [List.filter_cons_of_neg (by simpa using hne), ih hd ha]

/-- Of rows with keys of their own, each shown under one of its names or not at all, the names of a row pick
what is shown of it. -/
theorem Fields.pick?_filterMap [DecidableEq β] {names : List String} {spell : ρ → String} {shown : ρ → Option α}
    {rows : List ρ} {row : ρ} (key : ρ → β) (hd : (rows.map key).Nodup) (hrow : row ∈ rows)
    (hnames : ∀ r ∈ rows, spell r ∈ names ↔ key r = key row) :
    Fields.pick? names (rows.filterMap fun r => (shown r).map fun a => (spell r, a)) = some (shown row) := by
  have hfilter : (rows.filterMap fun r => (shown r).map fun a => (spell r, a)).filter (fun m => names.contains m.1) =
      ((shown row).map fun a => (spell row, a)).toList := by
    have hown : ∀ r ∈ rows, ((shown r).map fun a => (spell r, a)).filter (fun m => names.contains m.1) =
        if key r = key row then (shown r).map fun a => (spell r, a) else none := by
      intro r hr
      cases shown r <;> simp [Option.filter, hnames r hr]
    have hone : (rows.filter (key · = key row)).filterMap (fun r => (shown r).map fun a => (spell r, a)) = _ :=
      List.filterMap_filter
    simp only [filter_key_eq_singleton hd hrow, decide_eq_true_eq] at hone
    rw [List.filter_filterMap, List.filterMap_congr hown, ← hone]
    cases h : shown row <;> simp [h]
  rw [Fields.pick?, hfilter]
  cases shown row <;> rfl

variable {view other : Files.Access} {path : String}

namespace Attempt

variable {α ε : Type} {blame : String → ε → SourceError} {parse : String → Except ε α}

theorem outcome_source_eq_ok_iff {text : String} :
    outcome view (source path) = .ok text ↔ view.read path = .ok text := mapError_eq_ok_iff

theorem outcome_source_eq_error_iff {e : SourceError} :
    outcome view (source path) = .error e ↔ ∃ cause, view.read path = .error cause ∧ .unreadable path cause = e :=
  mapError_eq_error_iff

theorem outcome_source_congr (h : other.read path = view.read path) :
    outcome other (source path) = outcome view (source path) := by
  rw [outcome_source, outcome_source, h]

theorem outcome_parsed_eq_ok_iff {a : α} :
    outcome view (parsed path blame parse) = .ok a ↔ ∃ text, view.read path = .ok text ∧ parse text = .ok a := by
  simp only [parsed, outcome_bind, bind_eq_ok_iff, outcome_source_eq_ok_iff, outcome_given, mapError_eq_ok_iff]

theorem outcome_parsed_congr (h : other.read path = view.read path) :
    outcome other (parsed path blame parse) = outcome view (parsed path blame parse) := by
  rw [parsed, outcome_bind, outcome_bind, outcome_source_congr h]
  rfl

/-- What is not asked for gives nothing, and what is asked for gives what is read. -/
theorem onlyIf_eq_ok_iff {wanted : Bool} {x : Except SourceError α} {o : Option α} :
    onlyIf wanted x = .ok o ↔ o.isSome = wanted ∧ ∀ a ∈ o, x = .ok a := by
  have hread : onlyIf true x = x.map some := rfl
  have hnone : onlyIf false x = .ok none := rfl
  cases wanted <;> cases o <;> simp [hread, hnone, map_eq_ok_iff]

end Attempt

open Attempt

namespace Topology

theorem read_eq_ok_iff {t : Topology} :
    read view path = .ok t ↔ ∃ text, view.read path = .ok text ∧ parse text = .ok t :=
  outcome_parsed_eq_ok_iff

theorem firstRepeated?_eq_none_iff (seen : List UInt32) (seats : List Processor.Seat) :
    firstRepeated? seen seats = none ↔
      (seats.map (·.id)).Nodup ∧ ∀ s ∈ seats, s.id ∉ seen := by
  induction seats generalizing seen with
  | nil => simp [firstRepeated?]
  | cons s rest ih =>
    unfold firstRepeated?
    split
    case isTrue h => simp [h]
    case isFalse h =>
      have hhead : (∀ r ∈ s :: rest, r.id ∉ seen) ↔ ∀ r ∈ rest, r.id ∉ seen := by simp [h]
      rw [ih, hhead, List.map_cons, List.nodup_cons]
      simp only [List.mem_cons, not_or, List.mem_map]
      constructor
      · rintro ⟨hd, hn⟩
        exact ⟨⟨fun ⟨r, hr, he⟩ => (hn r hr).1 he, hd⟩, fun r hr => (hn r hr).2⟩
      · rintro ⟨⟨hs, hd⟩, hn⟩
        exact ⟨hd, fun r hr => ⟨fun he => hs ⟨r, hr, he⟩, hn r hr⟩⟩

/-- A descriptor is accepted if its records all have a seat and there are some, no two of them with
one processor; the topology is then that of the seats. -/
theorem parse_eq_ok_iff {text : String} {t : Topology} :
    parse text = .ok t ↔ ∃ records seats, Processor.records text = .ok records ∧
      Processor.seats records = .ok seats ∧ seats ≠ [] ∧ (seats.map (·.id)).Nodup ∧
        ofSeats seats (Processor.model text) = t := by
  have hnone : ∀ seats, firstRepeated? [] seats = none ↔ (seats.map (·.id)).Nodup := by
    intro seats
    simp [firstRepeated?_eq_none_iff]
  constructor
  · intro h
    obtain ⟨seats, hseats, h⟩ := bind_eq_ok_iff.1 h
    obtain ⟨records, hrecords, hseats⟩ := bind_eq_ok_iff.1 (mapError_eq_ok_iff.1 hseats)
    by_cases hnil : seats = []
    · simp only [hnil, if_true] at h
      cases h
    · simp only [hnil, if_false] at h
      cases hrep : firstRepeated? [] seats with
      | some id => simp [hrep] at h
      | none =>
        simp only [hrep, Except.ok.injEq] at h
        exact ⟨records, seats, hrecords, hseats, hnil, (hnone seats).1 hrep, h⟩
  · rintro ⟨records, seats, hrecords, hseats, hnil, hd, rfl⟩
    refine bind_eq_ok_iff.2 ⟨seats, mapError_eq_ok_iff.2 (bind_eq_ok_iff.2 ⟨records, hrecords, hseats⟩), ?_⟩
    simp [hnil, (hnone seats).2 hd]

end Topology

namespace Nodes

theorem readNode_eq_ok_iff {dir : String} {r : Reading} :
    readNode view dir = .ok r ↔
      (∃ text, view.read (Path.join dir "meminfo") = .ok text ∧ NodeMemory.parse text = .ok r.memory) ∧
      ∃ text, view.read (Path.join dir "cpulist") = .ok text ∧ IdList.decode text = .ok r.cpus := by
  obtain ⟨memory, cpus⟩ := r
  simp only [readNode, attemptNode, outcome_bind, outcome_pure, bind_eq_ok_iff, outcome_parsed_eq_ok_iff,
    Except.ok.injEq, Reading.mk.injEq]
  constructor
  · rintro ⟨_, hmemory, _, hcpus, rfl, rfl⟩
    exact ⟨hmemory, hcpus⟩
  · rintro ⟨hmemory, hcpus⟩
    exact ⟨memory, hmemory, cpus, hcpus, rfl, rfl⟩

theorem readNode_congr {dir : String} (h : ∀ file ∈ ["meminfo", "cpulist"],
      other.read (Path.join dir file) = view.read (Path.join dir file)) :
    readNode other dir = readNode view dir := by
  simp only [readNode, attemptNode, outcome_bind, outcome_pure, outcome_parsed_congr (h "meminfo" (by simp)),
    outcome_parsed_congr (h "cpulist" (by simp))]

/-- An entry that is no node is passed over. -/
theorem readEntries_skip {name : String} (hid : id? name = none) (root : String) (n : Nodes) (rest : List String) :
    readEntries view root n (name :: rest) = readEntries view root n rest := by
  rw [readEntries, attemptEntries, hid]
  rfl

/-- A node is read before those after it. -/
theorem readEntries_node {name : String} {id : UInt32} (hid : id? name = some id) (root : String) (n : Nodes)
    (rest : List String) :
    readEntries view root n (name :: rest) =
      (readNode view (Path.join root name)).bind fun r => readEntries view root (n.add id r) rest := by
  rw [readEntries, attemptEntries, hid]
  exact outcome_bind view _ _

theorem read_eq (view : Files.Access) (root : String) :
    read view root = (view.list root).mapError (.unreadable root) >>= readEntries view root {} :=
  outcome_bind view _ _

theorem read_eq_ok_iff {root : String} {n : Nodes} :
    read view root = .ok n ↔ ∃ names, view.list root = .ok names ∧ readEntries view root {} names = .ok n := by
  simp only [read_eq, bind_eq_ok_iff, mapError_eq_ok_iff]

end Nodes

end PlatformSnapshot
