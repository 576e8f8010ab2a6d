import PlatformSnapshot.Document
import PlatformSnapshot.Json.Quoted
import PlatformSnapshot.Number.Notation
/-!
Documents as JSON: compact, or with one entry a line and two spaces for each level. Ids as keys are
written between quotes.
-/
namespace PlatformSnapshot.Json

def keyText : Document.Key → List Char
  | .name s => quote s.toList
  | .id n => '"' :: Numeral.ofNat n ++ ['"']

/-- Infinity and no number cannot be written; a positive exponent carries its sign. -/
def numberText : Binary64 → List Char
  | .finite negative m e => Binary64.signText negative ++ Binary64.magnitudeText .plus m e
  | _ => "null".toList

mutual

def compact : Document → List Char
  | .null => "null".toList
  | .flag b => (if b then "true" else "false").toList
  | .integer n => Numeral.ofInt n
  | .number x => numberText x
  | .text s => quote s.toList
  | .list items => '[' :: compactItems items ++ [']']
  | .table entries => '\x7b' :: compactEntries entries ++ ['\x7d']

def compactItems : List Document → List Char
  | [] => []
  | [d] => compact d
  | d :: ds => compact d ++ ',' :: compactItems ds

def compactEntries : List (Document.Key × Document) → List Char
  | [] => []
  | [(k, d)] => keyText k ++ ':' :: compact d
  | (k, d) :: es => keyText k ++ ':' :: compact d ++ ',' :: compactEntries es

end

/-- A line break before something at a level. -/
def newLine (level : Nat) : List Char := '\n' :: List.replicate (2 * level) ' '

mutual

def pretty (level : Nat) : Document → List Char
  | .list (d :: ds) =>
    '[' :: newLine (level + 1) ++ prettyItems (level + 1) (d :: ds) ++ newLine level ++ [']']
  | .table (e :: es) =>
    '\x7b' :: newLine (level + 1) ++ prettyEntries (level + 1) (e :: es) ++ newLine level ++ ['\x7d']
  | d => compact d

def prettyItems (level : Nat) : List Document → List Char
  | [] => []
  | [d] => pretty level d
  | d :: ds => pretty level d ++ ',' :: newLine level ++ prettyItems level ds

def prettyEntries (level : Nat) : List (Document.Key × Document) → List Char
  | [] => []
  | [(k, d)] => keyText k ++ ':' :: ' ' :: pretty level d
  | (k, d) :: es =>
    keyText k ++ ':' :: ' ' :: pretty level d ++ ',' :: newLine level ++ prettyEntries level es

end

def render (d : Document) : String := .ofList (compact d)

def renderPretty (d : Document) : String := .ofList (pretty 0 d)

end PlatformSnapshot.Json
