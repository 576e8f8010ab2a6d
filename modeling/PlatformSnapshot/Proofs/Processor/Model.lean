import PlatformSnapshot.Processor.Model
import PlatformSnapshot.Proofs.Text.Blank
import PlatformSnapshot.Proofs.Text.Split
/-!
The model of the processor against the rule that the first line which names a model gives it. The
rule is kept unless a line that only begins like such a line stands before it: that line ends the
search, so a model named further down is not found.
-/
namespace PlatformSnapshot.Processor

open Text

/-- The line names this model: after `model name` and blanks stands a colon, after it the model, but
for the blanks around it. -/
def NamesModel (line : List Char) (value : String) : Prop :=
  ∃ gap rest, line = "model name".toList ++ (gap ++ ':' :: rest) ∧ (∀ c ∈ gap, isBlank c = true) ∧
    TrimsTo rest value.toList

def NamesNone (line : List Char) : Prop := ∀ value, ¬ NamesModel line value

/-- The first line that names a model names this one. -/
def FirstModel (ls : List (List Char)) (value : String) : Prop :=
  ∃ before line after, ls = before ++ line :: after ∧ (∀ l ∈ before, NamesNone l) ∧ NamesModel line value

/-- The model is that of the first line which names one, and unknown just if there is none, unless a
line says so. -/
structure FollowsRule (ls : List (List Char)) (m : String) : Prop where
  eq_of_first : ∀ value, FirstModel ls value → m = value
  unknown_iff : m = unknownModel ↔ (∀ l ∈ ls, NamesNone l) ∨ FirstModel ls unknownModel

/-- Before the first line that names a model stands one that begins with the same words. -/
def Shadowed (ls : List (List Char)) : Prop :=
  ∃ before line after, ls = before ++ line :: after ∧ (∀ l ∈ before, NamesNone l) ∧ NamesNone line ∧
    "model name".toList <+: line ∧ ∃ l ∈ after, ¬ NamesNone l

variable {line : List Char} {ls : List (List Char)} {value : String}

def named? (line : List Char) : Option String := (modelIn? line).map .ofList

theorem named?_eq_some_iff : named? line = some value ↔ NamesModel line value := by
  constructor
  · intro h
    obtain ⟨trimmed, hmodel, htrimmed⟩ := Option.map_eq_some_iff.1 h
    unfold modelIn? at hmodel
    split at hmodel
    case h_1 => cases hmodel
    case h_2 rest hafter =>
      split at hmodel
      case h_1 cs hcolon =>
        cases hmodel
        obtain ⟨gap, hrest, hgap, -⟩ := exists_trimLeft rest
        rw [hcolon] at hrest
        refine ⟨gap, cs, ?_, hgap, ofList_trim_eq_iff.1 htrimmed⟩
        rw [after?_eq_some_iff.1 hafter, hrest]
      case h_2 => cases hmodel
  · rintro ⟨gap, rest, rfl, hgap, hrest⟩
    have htrim : trimLeft (gap ++ ':' :: rest) = ':' :: rest := by
      rw [trimLeft_append hgap]
      exact trimLeft_eq_self (by rintro c ⟨⟩; decide)
    rw [named?, modelIn?, after?_append]
    simp only [htrim, Option.map_some, ofList_trim_eq_iff.2 hrest]

theorem namesNone_iff : NamesNone line ↔ named? line = none := by
  simp only [NamesNone, ← named?_eq_some_iff, Option.eq_none_iff_forall_ne_some, ne_eq]

theorem firstModel_iff : FirstModel ls value ↔ ls.findSome? named? = some value := by
  simp only [FirstModel, namesNone_iff, ← named?_eq_some_iff, List.findSome?_eq_some_iff, and_comm]

theorem forall_namesNone_iff : (∀ l ∈ ls, NamesNone l) ↔ ls.findSome? named? = none := by
  simp only [namesNone_iff, List.findSome?_eq_none_iff]

/-- The first line that names a model decides. -/
theorem followsRule_findSome? (ls : List (List Char)) : FollowsRule ls ((ls.findSome? named?).getD unknownModel) := by
  cases h : ls.findSome? named? with
  | none => exact ⟨by simp [firstModel_iff, h], by simp [forall_namesNone_iff, h]⟩
  | some value => exact ⟨by simp [firstModel_iff, h], by simp [firstModel_iff, forall_namesNone_iff, h]⟩

/-- The line begins as lines that name a model do. -/
def looksNamed (line : List Char) : Bool := startsWith "model name".toList line

theorem looksNamed_of_named? (h : named? line = some value) : looksNamed line = true := by
  obtain ⟨gap, rest, rfl, -⟩ := named?_eq_some_iff.1 h
  exact startsWith_iff.2 (List.prefix_append _ _)

theorem model_eq (text : String) :
    model text = (((lines text.toList).find? looksNamed).bind named?).getD unknownModel := by
  have hfind : (lines text.toList).find? (startsWith "model name".toList) = (lines text.toList).find? looksNamed := rfl
  rw [model, hfind]
  cases (lines text.toList).find? looksNamed with
  | none => rfl
  | some line =>
    dsimp only [Option.bind_some, named?]
    cases modelIn? line <;> rfl

theorem shadowed_cons : Shadowed (line :: ls) ↔
    NamesNone line ∧ (looksNamed line = true ∧ ¬ (∀ l ∈ ls, NamesNone l) ∨ Shadowed ls) := by
  have hlooks : looksNamed line = true ↔ "model name".toList <+: line := startsWith_iff
  have hsome : (¬ ∀ l ∈ ls, NamesNone l) ↔ ∃ l ∈ ls, ¬ NamesNone l := by simp
  rw [hlooks, hsome]
  constructor
  · rintro ⟨before, l, after, hsplit, hbefore, hnone, hwords, hlater⟩
    cases before with
    | nil =>
      cases hsplit
      exact ⟨hnone, .inl ⟨hwords, hlater⟩⟩
    | cons b before =>
      cases hsplit
      obtain ⟨hb, hbefore⟩ := List.forall_mem_cons.1 hbefore
      exact ⟨hb, .inr ⟨before, l, after, rfl, hbefore, hnone, hwords, hlater⟩⟩
  · rintro ⟨hline, ⟨hwords, hlater⟩ | ⟨before, l, after, rfl, hbefore, hnone, hwords, hlater⟩⟩
    · exact ⟨[], line, ls, rfl, by simp, hline, hwords, hlater⟩
    · exact ⟨line :: before, l, after, rfl, List.forall_mem_cons.2 ⟨hline, hbefore⟩, hnone, hwords, hlater⟩

/-- The first line that looks like it decides. It is the first line that names a model, or names none;
then no later line names one unless that is shadowed. -/
theorem find?_bind_named? (ls : List (List Char)) :
    (¬ Shadowed ls → (ls.find? looksNamed).bind named? = ls.findSome? named?) ∧
    (Shadowed ls → (ls.find? looksNamed).bind named? = none) := by
  induction ls with
  | nil => simp
  | cons line ls ih =>
    rw [shadowed_cons, namesNone_iff, forall_namesNone_iff]
    cases hnamed : named? line with
    | some value =>
      rw [List.find?_cons_of_pos (looksNamed_of_named? hnamed)]
      simp [hnamed]
    | none =>
      rw [List.findSome?_cons_of_isNone (by simp [hnamed])]
      cases hlooks : looksNamed line with
      | false =>
        rw [List.find?_cons_of_neg (by simp [hlooks])]
        simpa using ih
      | true =>
        rw [List.find?_cons_of_pos hlooks, Option.bind_some, hnamed]
        refine ⟨fun h => ?_, fun _ => rfl⟩
        cases hlater : ls.findSome? named? with
        | none => rfl
        | some value => exact absurd ⟨rfl, .inl ⟨rfl, by simp [hlater]⟩⟩ h

/-- The model follows the rule unless a line that only begins like one which names a model stands before
the first that does; then the model is not found. -/
theorem model_follows_unless_shadowed (text : String) :
    (¬ Shadowed (lines text.toList) → FollowsRule (lines text.toList) (model text)) ∧
    (Shadowed (lines text.toList) → model text = unknownModel) := by
  obtain ⟨hclear, hshadowed⟩ := find?_bind_named? (lines text.toList)
  rw [model_eq]
  constructor
  · intro h
    rw [hclear h]
    exact followsRule_findSome? _
  · intro h
    rw [hshadowed h]
    rfl

/-- The first line names a model, and the second begins like it. -/
def vendorLast : String := "model name\t: B :2 \nmodel name string : A\n"

theorem model_vendorLast :
    ¬ Shadowed (lines vendorLast.toList) ∧ FollowsRule (lines vendorLast.toList) (model vendorLast) := by
  have hclear : ¬ Shadowed (lines vendorLast.toList) := fun h => absurd ((find?_bind_named? _).2 h) (by decide +kernel)
  exact ⟨hclear, (model_follows_unless_shadowed vendorLast).1 hclear⟩

/-- The second line names a model, but the first one begins like it. -/
def vendorFirst : String := "model name string : A\nmodel name : B\n"

theorem vendorFirst_unnamed : model vendorFirst = unknownModel ∧ FirstModel (lines vendorFirst.toList) "B" ∧
    ¬ FollowsRule (lines vendorFirst.toList) (model vendorFirst) := by
  have hmodel : model vendorFirst = unknownModel := by decide +kernel
  have hfirst : FirstModel (lines vendorFirst.toList) "B" := firstModel_iff.2 (by decide +kernel)
  refine ⟨hmodel, hfirst, fun h => ?_⟩
  have hunknown : unknownModel = "B" := hmodel ▸ h.eq_of_first "B" hfirst
  exact absurd hunknown (by decide)

end PlatformSnapshot.Processor
