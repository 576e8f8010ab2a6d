import Mathlib.Data.Bool.AllAny
import Mathlib.Data.List.Basic
import PlatformSnapshot.Exposition
import PlatformSnapshot.Proofs.Number.Notation
import PlatformSnapshot.Proofs.Reading
/-!
Reading an exposition. A reader of the text format takes every line that is neither empty nor a
comment apart into a name, labels and a value, and resolves what stands escaped. What it finds in an
exposition are the series of the families, family by family, and nothing that a help text or a label
value could make up.
-/
namespace PlatformSnapshot.Exposition

open Text (splitOn splitOnce? splitOnce?_append after? unlines splitOn_unlines isBlank IsWord)

structure Sample where
  name : String
  labels : List (String × String)
  value : String
  deriving DecidableEq, Repr

/-- What stands before the closing quote, without its escapes, and the rest. -/
def quoted? : List Char → Option (List Char × List Char)
  | [] => none
  | '"' :: r => some ([], r)
  | '\\' :: '\\' :: r => (quoted? r).map fun e => ('\\' :: e.1, e.2)
  | '\\' :: 'n' :: r => (quoted? r).map fun e => ('\n' :: e.1, e.2)
  | '\\' :: '"' :: r => (quoted? r).map fun e => ('"' :: e.1, e.2)
  | '\\' :: _ => none
  | c :: r => (quoted? r).map fun e => (c :: e.1, e.2)

/-- The labels before the closing brace, and the rest. No more than `fuel` labels are read. -/
def labels? : Nat → List Char → Option (List (String × String) × List Char)
  | 0, _ => none
  | fuel + 1, cs => do
    let (name, r) ← splitOnce? '=' cs
    let (value, r) ← quoted? (← after? ['"'] r)
    let label := (String.ofList name, String.ofList value)
    match r with
    | '\x7d' :: r => some ([label], r)
    | ',' :: r => (labels? fuel r).map fun e => (label :: e.1, e.2)
    | _ => none

/-- Whether a name goes on with the character. -/
def isNamePart (c : Char) : Bool := c != '\x7b' && c != ' '

/-- A value is one word. -/
def value? (cs : List Char) : Option String := if cs.isEmpty || cs.any isBlank then none else some (.ofList cs)

/-- The labels in braces, if there are any, and the rest. -/
def bracedLabels? : List Char → Option (List (String × String) × List Char)
  | '\x7b' :: r => labels? r.length r
  | cs => some ([], cs)

def sample? (line : List Char) : Option Sample := do
  let (labels, r) ← bracedLabels? (line.dropWhile isNamePart)
  let value ← value? (← after? [' '] r)
  some ⟨.ofList (line.takeWhile isNamePart), labels, value⟩

/-- Whether there is something on a line, and it is no comment. -/
def isSampleLine (line : List Char) : Bool := !line.isEmpty && line.head? != some '#'

def sampleLines (text : String) : List (List Char) := (splitOn '\n' text.toList).filter isSampleLine

def samples? (text : String) : Option (List Sample) := (sampleLines text).mapM sample?

open scoped List

variable {name : String} {constant : List (String × String)}

theorem quoted?_escapeValue (w r : List Char) : quoted? (escapeValue w ++ '"' :: r) = some (w, r) := by
  induction w using escapeValue.induct with
  | case1 => simp [escapeValue, quoted?]
  | case2 w ih => simp [escapeValue, quoted?, ih]
  | case3 w ih => simp [escapeValue, quoted?, ih]
  | case4 w ih => simp [escapeValue, quoted?, ih]
  | case5 c w hslash hfeed hquote ih =>
    have hescape : escapeValue (c :: w) = c :: escapeValue w := by rw [escapeValue] <;> assumption
    rw [hescape, List.cons_append, quoted?, ih]
    · rfl
    all_goals grind

/-- Label values one after the other, each up to its closing quote. -/
def quotedKey (values : List String) : String := .ofList (values.flatMap fun v => escapeValue v.toList ++ ['"'])

/-- Rows of label values can be told apart by one text. -/
theorem quotedKey_injective : Function.Injective quotedKey := by
  intro as bs h
  replace h := String.ofList_injective h
  induction as generalizing bs with
  | nil =>
    cases bs with
    | nil => rfl
    | cons b bs => simp at h
  | cons a as ih =>
    cases bs with
    | nil => simp at h
    | cons b bs =>
      have hread := congrArg quoted? h
      simp only [List.flatMap_cons, List.append_assoc, List.singleton_append, quoted?_escapeValue, Option.some.injEq,
        Prod.mk.injEq, String.toList_inj] at hread
      rw [hread.1, ih hread.2]

/-- A name that no mark of the format can be taken for. -/
def IsName (name : String) : Prop := ∀ c ∈ name.toList, isNameStart c ∨ Numeral.isDigit c

instance : DecidablePred IsName := fun _ => decidable_of_decidable_of_iff List.all_iff_forall_prop

theorem isName_of_isLabelName (h : isLabelName name) : IsName name := by
  unfold isLabelName at h
  split at h
  case h_1 => cases h
  case h_2 c r hname =>
    rw [Bool.and_eq_true, List.all_eq_true] at h
    unfold IsName
    rw [hname, List.forall_mem_cons]
    exact ⟨.inl h.1, fun d hd => Bool.or_eq_true_iff.1 (h.2 d hd)⟩

theorem IsName.not_mem (h : IsName name) {c : Char} (hstart : isNameStart c = false)
    (hdigit : Numeral.isDigit c = false) : c ∉ name.toList := by
  intro hc
  simpa [hstart, hdigit] using h c hc

theorem isName_text (name : MetricName) : IsName name.text := by
  cases name <;> decide

theorem length_le_length_commaSeparated (ls : List (String × String)) :
    ls.length ≤ (commaSeparated (labelTexts ls)).length := by
  induction ls with
  | nil => exact Nat.zero_le _
  | cons l ls ih =>
    have hcomma : (labelText l.1 l.2).length + (commaSeparated (labelTexts ls)).length ≤
        (commaSeparated (labelTexts (l :: ls))).length := by
      cases ls with
      | nil => exact Nat.le_refl _
      | cons l' ls => simp [labelTexts, commaSeparated]
    have hlabel : 0 < (labelText l.1 l.2).length := List.length_pos_iff.2 (by simp [labelText])
    rw [List.length_cons]
    omega

theorem labels?_commaSeparated {ls : List (String × String)} (hne : ls ≠ []) (hnames : ∀ l ∈ ls, IsName l.1)
    {fuel : Nat} (hfuel : ls.length ≤ fuel) (r : List Char) :
    labels? fuel (commaSeparated (labelTexts ls) ++ '\x7d' :: r) = some (ls, r) := by
  induction ls generalizing fuel with
  | nil => exact absurd rfl hne
  | cons l ls ih =>
    obtain ⟨hname, hnames⟩ := List.forall_mem_cons.1 hnames
    obtain _ | fuel := fuel
    · cases hfuel
    have hfirst : ∀ s, labels? (fuel + 1) (labelText l.1 l.2 ++ s) =
        match s with
        | '\x7d' :: s => some ([l], s)
        | ',' :: s => (labels? fuel s).map fun e => (l :: e.1, e.2)
        | _ => none := by
      intro s
      have hequals : '=' ∉ l.1.toList := hname.not_mem (by decide) (by decide)
      simp [labels?, labelText, splitOnce?_append hequals, after?, quoted?_escapeValue]
    cases ls with
    | nil => exact hfirst _
    | cons l' ls =>
      have hcomma : commaSeparated (labelTexts (l :: l' :: ls)) =
          labelText l.1 l.2 ++ ',' :: commaSeparated (labelTexts (l' :: ls)) := rfl
      have hfuel : (l' :: ls).length ≤ fuel := by simpa using hfuel
      have hrest := ih (by simp) hnames hfuel
      rw [hcomma, List.append_assoc, hfirst]
      exact congrArg (Option.map fun e => (l :: e.1, e.2)) hrest

theorem bracedLabels?_braced {ls : List (String × String)} (hnames : ∀ l ∈ ls, IsName l.1) (value : List Char) :
    bracedLabels? (braced (labelTexts ls) ++ ' ' :: value) = some (ls, ' ' :: value) := by
  by_cases hne : ls = []
  · subst hne
    rfl
  · have hbraced : braced (labelTexts ls) ++ ' ' :: value =
        '\x7b' :: (commaSeparated (labelTexts ls) ++ '\x7d' :: ' ' :: value) := by
      simp [braced, labelTexts, hne]
    rw [hbraced]
    refine labels?_commaSeparated hne hnames ?_ _
    have hlength := length_le_length_commaSeparated ls
    rw [List.length_append]
    omega

/-- What follows a name ends it. -/
theorem exists_braced_append (ts : List (List Char)) (value : List Char) :
    ∃ c r, braced ts ++ ' ' :: value = c :: r ∧ ¬ isNamePart c := by
  unfold braced
  split
  case isTrue => exact ⟨' ', value, rfl, by decide⟩
  case isFalse => exact ⟨'\x7b', _, rfl, by decide⟩

theorem isNamePart_of_mem (h : IsName name) {c : Char} (hc : c ∈ name.toList) : isNamePart c := by
  rw [isNamePart, Bool.and_eq_true, bne_iff_ne, bne_iff_ne]
  constructor <;> (rintro rfl; exact absurd (h _ hc) (by decide))

/-- A sample as a line of text. -/
def Sample.line (s : Sample) : List Char :=
  s.name.toList ++ (braced (labelTexts s.labels) ++ ' ' :: s.value.toList)

/-- What can stand on one line: names without marks, and a value that is one word. -/
structure Sample.IsPlain (s : Sample) : Prop where
  name : IsName s.name
  labels : ∀ l ∈ s.labels, IsName l.1
  value : IsWord s.value.toList

theorem sample?_line {s : Sample} (hs : s.IsPlain) : sample? s.line = some s := by
  have hvalue : value? s.value.toList = some s.value := by
    have hblank : s.value.toList.any isBlank = false := List.any_eq_false.2 fun c hc => by simp [hs.value.2 c hc]
    simp [value?, hs.value.1, hblank]
  have hname : ∀ c ∈ s.name.toList, isNamePart c := fun c hc => isNamePart_of_mem hs.name hc
  obtain ⟨c, r, hrest, hend⟩ := exists_braced_append (labelTexts s.labels) s.value.toList
  have htake : s.line.takeWhile isNamePart = s.name.toList := by
    rw [Sample.line, hrest, List.takeWhile_append_of_pos hname, List.takeWhile_cons_of_neg hend, List.append_nil]
  have hdrop : s.line.dropWhile isNamePart = braced (labelTexts s.labels) ++ ' ' :: s.value.toList := by
    rw [Sample.line, hrest, List.dropWhile_append_of_pos hname, List.dropWhile_cons_of_neg hend]
  rw [sample?, htake, hdrop, bracedLabels?_braced hs.labels]
  simp [after?, hvalue]

/-- How a series of the family `name` is read. -/
def sampleOf (name : String) (labelNames : List String) (constant : List (String × String)) (s : Series) : Sample :=
  ⟨.ofList (fullName name), labelNames.zip s.labelValues ++ constant, .ofList s.value.sampleText⟩

/-- The samples of a family, one for each series. -/
def familySamples (constant : List (String × String)) (e : String × Family) : List Sample :=
  (e.2.series.values.mergeSort leqValues).map (sampleOf e.1 e.2.labelNames constant)

/-- The two lines that stand before the samples of a family. -/
def headLines (e : String × Family) : List (List Char) :=
  ["# HELP ".toList ++ fullName e.1 ++ ' ' :: escapeHelp e.2.help.toList,
    "# TYPE ".toList ++ fullName e.1 ++ ' ' :: e.2.kind.text.toList]

theorem sampleLine_eq (name : String) (labelNames : List String) (constant : List (String × String)) :
    sampleLine name labelNames constant = fun s => (sampleOf name labelNames constant s).line ++ ['\n'] := by
  funext s
  simp only [sampleLine, Sample.line, sampleOf, String.toList_ofList, List.append_assoc, List.cons_append]

theorem familyText_eq (constant : List (String × String)) (e : String × Family) :
    familyText constant e = unlines (headLines e ++ (familySamples constant e).map Sample.line) := by
  have htype : "\n# TYPE ".toList = '\n' :: "# TYPE ".toList := by decide
  unfold familyText headLines
  rw [htype]
  -- The literals stay closed: rewriting would compute their characters.
  generalize "# HELP ".toList = help, "# TYPE ".toList = type
  simp only [unlines, familySamples, List.map_map, List.flatMap_map, List.flatMap_cons, sampleLine_eq,
    List.append_assoc, List.cons_append, List.nil_append, Function.comp_def]

theorem not_mem_escapeHelp (w : List Char) : '\n' ∉ escapeHelp w := by
  induction w using escapeHelp.induct with
  | case1 => simp [escapeHelp]
  | case2 w ih => simpa [escapeHelp] using ih
  | case3 w ih => simpa [escapeHelp] using ih
  | case4 c w hslash hfeed ih =>
    have hescape : escapeHelp (c :: w) = c :: escapeHelp w := by rw [escapeHelp] <;> assumption
    rw [hescape, List.mem_cons]
    exact not_or.2 ⟨fun h => hfeed h.symm, ih⟩

theorem not_mem_escapeValue (w : List Char) : '\n' ∉ escapeValue w := by
  induction w using escapeValue.induct with
  | case1 => simp [escapeValue]
  | case2 w ih => simpa [escapeValue] using ih
  | case3 w ih => simpa [escapeValue] using ih
  | case4 w ih => simpa [escapeValue] using ih
  | case5 c w hslash hfeed hquote ih =>
    have hescape : escapeValue (c :: w) = c :: escapeValue w := by rw [escapeValue] <;> assumption
    rw [hescape, List.mem_cons]
    exact not_or.2 ⟨fun h => hfeed h.symm, ih⟩

theorem not_mem_braced {ws : List (List Char)} (hws : ∀ w ∈ ws, '\n' ∉ w) : '\n' ∉ braced ws := by
  have hcomma : '\n' ∉ commaSeparated ws := by
    induction ws using commaSeparated.induct with
    | case1 => simp [commaSeparated]
    | case2 w => simpa [commaSeparated] using hws
    | case3 w ws hne ih =>
      obtain ⟨hw, hws⟩ := List.forall_mem_cons.1 hws
      have hstep : commaSeparated (w :: ws) = w ++ ',' :: commaSeparated ws := by rw [commaSeparated]; exact hne
      simpa [hstep, hw] using ih hws
  unfold braced
  split <;> simp [hcomma]

theorem IsName.not_mem_fullName (h : IsName name) : '\n' ∉ fullName name := by
  have hlead : '\n' ∉ "platform_".toList := by decide
  exact fun hmem => (List.mem_append.1 hmem).elim hlead (h.not_mem (by decide) (by decide))

theorem Sample.IsPlain.not_mem_line {s : Sample} (hs : s.IsPlain) : '\n' ∉ s.line := by
  have hlabels : ∀ w ∈ labelTexts s.labels, '\n' ∉ w := by
    intro w hw
    obtain ⟨l, hl, rfl⟩ := List.mem_map.1 hw
    have hname : '\n' ∉ l.1.toList := (hs.labels l hl).not_mem (by decide) (by decide)
    simp [labelText, hname, not_mem_escapeValue]
  have hname : '\n' ∉ s.name.toList := hs.name.not_mem (by decide) (by decide)
  have hvalue : '\n' ∉ s.value.toList := fun h => absurd (hs.value.2 _ h) (by decide)
  simp [Sample.line, hname, not_mem_braced hlabels, hvalue]

theorem Sample.IsPlain.isSampleLine_line {s : Sample} (hs : s.IsPlain) : isSampleLine s.line := by
  obtain ⟨c, r, hrest, hend⟩ := exists_braced_append (labelTexts s.labels) s.value.toList
  have hc : c ≠ '#' := by
    rintro rfl
    exact hend (by decide)
  rw [Sample.line, hrest]
  cases hname : s.name.toList with
  | nil => simpa [isSampleLine] using hc
  | cons d w =>
    have hd : d ≠ '#' := by
      rintro rfl
      exact hs.name.not_mem (by decide) (by decide) (hname ▸ List.mem_cons_self)
    simpa [isSampleLine] using hd

theorem filter_headLines (e : String × Family) : (headLines e).filter isSampleLine = [] := by
  have hhelp : "# HELP ".toList.head? = some '#' := by decide
  have htype : "# TYPE ".toList.head? = some '#' := by decide
  unfold headLines
  generalize "# HELP ".toList = help, "# TYPE ".toList = type at hhelp htype
  simp [isSampleLine, hhelp, htype]

/-- All samples of an exposition, family by family. -/
def allSamples (constant : List (String × String)) (fs : Families) : List Sample :=
  fs.entries.flatMap (familySamples constant)

variable {fs : Families}

theorem toList_text (constant : List (String × String)) (fs : Families) : (text constant fs).toList =
    unlines (fs.entries.flatMap fun e => headLines e ++ (familySamples constant e).map Sample.line) := by
  rw [text, String.toList_ofList, unlines, List.flatMap_assoc]
  exact List.flatMap_congr fun e _ => familyText_eq _ e

theorem isPlain_of_mem_familySamples {e : String × Family} (hname : IsName e.1)
    (hnames : ∀ n ∈ e.2.labelNames, IsName n)
    (hconstant : ∀ l ∈ constant, IsName l.1) : ∀ s ∈ familySamples constant e, s.IsPlain := by
  intro s hs
  obtain ⟨series, -, rfl⟩ := List.mem_map.1 hs
  constructor
  case name =>
    have hlead : IsName "platform_" := by decide
    rw [IsName, sampleOf, String.toList_ofList]
    exact List.forall_mem_append.2 ⟨hlead, hname⟩
  case labels =>
    refine List.forall_mem_append.2 ⟨fun l hl => hnames _ (List.of_mem_zip hl).1, hconstant⟩
  case value =>
    rw [sampleOf, String.toList_ofList]
    exact Binary64.isWord_sampleText _

theorem not_mem_headLines {e : String × Family} (hname : IsName e.1) : ∀ l ∈ headLines e, '\n' ∉ l := by
  have hkind : '\n' ∉ e.2.kind.text.toList := by cases e.2.kind <;> decide
  have hhelp : '\n' ∉ "# HELP ".toList := by decide
  have htype : '\n' ∉ "# TYPE ".toList := by decide
  unfold headLines
  generalize "# HELP ".toList = help, "# TYPE ".toList = type at hhelp htype
  simp [hname.not_mem_fullName, not_mem_escapeHelp, hkind, hhelp, htype]

theorem isPlain_of_mem_allSamples (hfs : ∀ e ∈ fs.entries, IsName e.1 ∧ ∀ n ∈ e.2.labelNames, IsName n)
    (hconstant : ∀ l ∈ constant, IsName l.1) : ∀ s ∈ allSamples constant fs, s.IsPlain := by
  intro s hs
  obtain ⟨e, he, hs⟩ := List.mem_flatMap.1 hs
  exact isPlain_of_mem_familySamples (hfs e he).1 (hfs e he).2 hconstant s hs

/-- The lines of an exposition that are no comments are the lines of its samples. -/
theorem sampleLines_text (hfs : ∀ e ∈ fs.entries, IsName e.1 ∧ ∀ n ∈ e.2.labelNames, IsName n)
    (hconstant : ∀ l ∈ constant, IsName l.1) :
    sampleLines (text constant fs) = (allSamples constant fs).map Sample.line := by
  have hplain := isPlain_of_mem_allSamples hfs hconstant
  have hlines : ∀ l ∈ fs.entries.flatMap fun e =>
      headLines e ++ (familySamples constant e).map Sample.line, '\n' ∉ l := by
    intro l hl
    obtain ⟨e, he, hl⟩ := List.mem_flatMap.1 hl
    rcases List.mem_append.1 hl with hl | hl
    · exact not_mem_headLines (hfs e he).1 l hl
    · obtain ⟨s, hs, rfl⟩ := List.mem_map.1 hl
      exact (hplain s (List.mem_flatMap.2 ⟨e, he, hs⟩)).not_mem_line
  have hfamily : ∀ e ∈ fs.entries,
      (headLines e ++ (familySamples constant e).map Sample.line).filter isSampleLine =
        (familySamples constant e).map Sample.line := by
    intro e he
    have hsamples : ∀ l ∈ (familySamples constant e).map Sample.line, isSampleLine l := by
      intro l hl
      obtain ⟨s, hs, rfl⟩ := List.mem_map.1 hl
      exact (hplain s (List.mem_flatMap.2 ⟨e, he, hs⟩)).isSampleLine_line
    have hhead : (headLines e).filter isSampleLine = [] := filter_headLines e
    rw [List.filter_append, hhead, List.nil_append, List.filter_eq_self.2 hsamples]
  calc sampleLines (text constant fs)
      = (fs.entries.flatMap fun e => headLines e ++ (familySamples constant e).map Sample.line).filter
          isSampleLine := by
        rw [sampleLines, toList_text, splitOn_unlines hlines, List.filter_append]
        exact List.append_nil _
    _ = fs.entries.flatMap fun e => (familySamples constant e).map Sample.line := by
        rw [List.filter_flatMap]
        exact List.flatMap_congr hfamily
    _ = (allSamples constant fs).map Sample.line := by rw [allSamples, List.map_flatMap]

/-- In whatever order the labels of the host are listed, their names are the same. -/
theorem Listing.isName {labels : Labels} (listing : Listing labels) (h : ∀ n ∈ labels.keys, IsName n) :
    ∀ l ∈ listing.pairs, IsName l.1 :=
  fun _ hl => h _ (List.mem_map_of_mem (listing.perm.mem_iff.1 hl))

/-- Every sample of an exposition is read as it is meant. -/
theorem samples?_text (hfs : ∀ e ∈ fs.entries, IsName e.1 ∧ ∀ n ∈ e.2.labelNames, IsName n)
    (hconstant : ∀ l ∈ constant, IsName l.1) : samples? (text constant fs) = some (allSamples constant fs) := by
  have hplain := isPlain_of_mem_allSamples hfs hconstant
  rw [samples?, sampleLines_text hfs hconstant]
  exact mapM_map_eq_some fun s hs => sample?_line (hplain s hs)

end PlatformSnapshot.Exposition
