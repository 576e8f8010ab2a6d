import PlatformSnapshot.Metric
import PlatformSnapshot.Number.Notation
/-!
The text exposition of metrics. Metrics of one name form a family, which keeps the kind, the help
text and the label names of its first metric; metrics of a family that agree in their label values
form a series. A gauge series shows its last value, a counter series the sum of its values. Families
are ordered by name and series by their label values, so the order of the metrics does not show.
Series are told apart by a key made of the label values; the exposition uses their concatenation.
Behind its own labels every sample has the labels of the host, in any order, but in the same for all.
-/
namespace PlatformSnapshot.Exposition

inductive Error where
  | emptyHelp
  | badLabelName (name : String)
  | negativeCounter (name : MetricName) (value : Binary64)
  | cardinality (expected actual : Nat)
  deriving DecidableEq, Repr

def Error.message : Error → String
  | .emptyHelp => "Error: empty help string"
  | .badLabelName name => s!"Error: '{name}' is not a valid label name"
  | .negativeCounter name value =>
    s!"Error: counter {name.text} has negative value {String.ofList value.sampleText}"
  | .cardinality expected actual =>
    s!"Inconsistent label cardinality, expect {expected} label values, but got {actual}"

structure Series where
  labelValues : List String
  value : Binary64
  deriving DecidableEq

structure Family where
  kind : MetricKind
  help : String
  labelNames : List String
  series : SortedMap String Series := ∅

abbrev Families := SortedMap String Family

def isNameStart (c : Char) : Bool :=
  ('a' ≤ c && c ≤ 'z') || ('A' ≤ c && c ≤ 'Z') || c == '_'

/-- A letter or an underscore, then letters, digits and underscores, all ASCII. -/
def isLabelName (name : String) : Bool :=
  match name.toList with
  | [] => false
  | c :: r => isNameStart c && r.all fun d => isNameStart d || Numeral.isDigit d

namespace Family

/-- The empty family that a first metric opens. -/
def open? (m : Metric) : Except Error Family :=
  if m.help = "" then .error .emptyHelp
  else match m.labels.keys.find? fun n => !isLabelName n with
    | some name => .error (.badLabelName name)
    | none => .ok { kind := m.kind, help := m.help, labelNames := m.labels.keys }

/-- A series keeps the label values that it was opened with. -/
def observe (kind : MetricKind) (values : List String) (value : Binary64) : Option Series → Series
  | none => ⟨values, match kind with | .gauge => value | .counter => Binary64.zero false + value⟩
  | some s => ⟨s.labelValues, match kind with | .gauge => value | .counter => s.value + value⟩

def add (key : List String → String) (f : Family) (m : Metric) : Except Error Family :=
  if f.kind = .counter ∧ m.value.isBelowZero then .error (.negativeCounter m.name m.value)
  else if m.labels.size ≠ f.labelNames.length then
    .error (.cardinality f.labelNames.length m.labels.size)
  else
    let values := m.labels.values
    .ok { f with series := f.series.alter (key values) (observe f.kind values m.value) }

end Family

namespace Families

def add (key : List String → String) (fs : Families) (m : Metric) : Except Error Families := do
  let family ← match fs.get? m.name.text with
    | some f => .ok f
    | none => Family.open? m
  return fs.insert m.name.text (← family.add key m)

def ofMetrics (key : List String → String) (fs : Families) : List Metric → Except Error Families
  | [] => .ok fs
  | m :: ms => do ofMetrics key (← fs.add key m) ms

end Families

/-- A backslash and a line feed stand escaped in a help text. -/
def escapeHelp : List Char → List Char
  | [] => []
  | '\\' :: r => '\\' :: '\\' :: escapeHelp r
  | '\n' :: r => '\\' :: 'n' :: escapeHelp r
  | c :: r => c :: escapeHelp r

/-- In a label value also the quote. -/
def escapeValue : List Char → List Char
  | [] => []
  | '\\' :: r => '\\' :: '\\' :: escapeValue r
  | '\n' :: r => '\\' :: 'n' :: escapeValue r
  | '"' :: r => '\\' :: '"' :: escapeValue r
  | c :: r => c :: escapeValue r

def labelText (name value : String) : List Char :=
  name.toList ++ '=' :: '"' :: escapeValue value.toList ++ ['"']

/-- Labels of a line, each name with its value. -/
def labelTexts (ls : List (String × String)) : List (List Char) := ls.map fun l => labelText l.1 l.2

/-- The labels of the host in some order. A hash map holds them, and it lists its entries in any order
and in another one each time. -/
structure Listing (labels : Labels) where
  pairs : List (String × String)
  perm : pairs.Perm labels.entries

/-- The order of their texts. -/
def Listing.byText (labels : Labels) : Listing labels where
  pairs := labels.entries.mergeSort fun a b =>
    compare (String.ofList (labelText a.1 a.2)) (.ofList (labelText b.1 b.2)) != .gt
  perm := List.mergeSort_perm ..

def commaSeparated : List (List Char) → List Char
  | [] => []
  | [w] => w
  | w :: ws => w ++ ',' :: commaSeparated ws

def braced (texts : List (List Char)) : List Char :=
  if texts = [] then [] else '\x7b' :: commaSeparated texts ++ ['\x7d']

/-- The name of a family as it is exposed. -/
def fullName (name : String) : List Char := "platform_".toList ++ name.toList

def sampleLine (name : String) (labelNames : List String) (constant : List (String × String)) (s : Series) :
    List Char :=
  let own := labelNames.zip s.labelValues
  fullName name ++ braced (labelTexts (own ++ constant)) ++ ' ' :: s.value.sampleText ++ ['\n']

def leqValues (a b : Series) : Bool := compare a.labelValues b.labelValues != .gt

def familyText (constant : List (String × String)) (e : String × Family) : List Char :=
  "# HELP ".toList ++ fullName e.1 ++ ' ' :: escapeHelp e.2.help.toList ++
    "\n# TYPE ".toList ++ fullName e.1 ++ ' ' :: e.2.kind.text.toList ++
    '\n' :: (e.2.series.values.mergeSort leqValues).flatMap
      (sampleLine e.1 e.2.labelNames constant)

def text (constant : List (String × String)) (fs : Families) : String :=
  .ofList (fs.entries.flatMap (familyText constant))

variable {labels : Labels}

/-- The exposition with series told apart by any key and the labels of the host listed in any order. -/
def renderWith (key : List String → String) (metrics : List Metric) (listing : Listing labels) :
    Except Error String :=
  (Families.ofMetrics key ∅ metrics).map (text listing.pairs)

/-- The exposition with the labels of the host in the order of their texts. It stands for all those that
differ from it in that order only. -/
def render (metrics : List Metric) (labels : Labels) : Except Error String :=
  renderWith String.join metrics (.byText labels)

end PlatformSnapshot.Exposition
