import PlatformSnapshot.Document
import PlatformSnapshot.Number.Notation
import PlatformSnapshot.Yaml.Spelling
import PlatformSnapshot.Yaml.Scalar
/-!
Documents as YAML, in block style with two spaces for each level; sequences are not indented under
their keys. Text stands plain where it can, in single quotes where plain text would mean something
else, in double quotes where it needs escapes, and as a literal block where it has several lines.
-/
namespace PlatformSnapshot.Yaml

/-- What forbids some styles to a text. -/
structure Analysis where
  /-- Indicators that would end or change a plain scalar. -/
  hasIndicators : Bool := false
  hasBreaks : Bool := false
  /-- Characters that cannot stand for themselves. -/
  hasSpecial : Bool := false
  /-- A space right before a break, or after one. -/
  hasSpaceBreak : Bool := false
  hasBreakSpace : Bool := false

def isPrintable (c : Char) : Bool :=
  let n := c.toNat
  n == 0x0A || (0x20 ≤ n && n ≤ 0x7E) || (0xA0 ≤ n && n ≤ 0xD7FF) ||
    (0xE000 ≤ n && n ≤ 0xFFFD && n != 0xFEFF) || 0x10000 ≤ n

/-- Whether a first character keeps a scalar from being plain, given the next one. -/
def isLeadIndicator (c : Char) (next : Option Char) : Bool :=
  "#,[]\x7b\x7d&*!|>'\"%@\x60".toList.contains c ||
    ((c == '?' || c == ':' || c == '-') && Cursor.endsWord next)

/-- Whether a later character does, given the characters beside it. -/
def isInnerIndicator (previous : Char) (c : Char) (next : Option Char) : Bool :=
  (c == ':' && Cursor.endsWord next) || (c == '#' && isBlankOrBreak previous)

def analyzeFrom (previous : Option Char) (a : Analysis) : List Char → Analysis
  | [] => a
  | c :: r =>
    let indicates := match previous with
      | none => isLeadIndicator c r.head?
      | some p => isInnerIndicator p c r.head?
    analyzeFrom (some c) {
      hasIndicators := a.hasIndicators || indicates
      hasBreaks := a.hasBreaks || isBreak c
      hasSpecial := a.hasSpecial || !isPrintable c
      hasSpaceBreak := a.hasSpaceBreak || (isBreak c && previous == some ' ')
      hasBreakSpace := a.hasBreakSpace || (c == ' ' && previous.any isBreak) } r

def analyze (cs : List Char) : Analysis :=
  let startsLikeMark := cs.take 3 == "---".toList || cs.take 3 == "...".toList
  analyzeFrom none { hasIndicators := startsLikeMark } cs

def startsOrEndsWith (p : Char → Bool) (cs : List Char) : Bool := cs.head?.any p || cs.getLast?.any p

def Analysis.allowsPlain (a : Analysis) (cs : List Char) : Bool :=
  !(a.hasIndicators || a.hasBreaks || a.hasSpecial || a.hasSpaceBreak || a.hasBreakSpace ||
    startsOrEndsWith (fun c => c == ' ' || isBreak c) cs)

def Analysis.allowsSingle (a : Analysis) : Bool :=
  !(a.hasSpecial || a.hasSpaceBreak || a.hasBreakSpace)

def Analysis.allowsBlock (a : Analysis) (cs : List Char) : Bool :=
  !(a.hasSpecial || a.hasSpaceBreak || cs.getLast? == some ' ')

/-- The style in which a text is written. -/
def styleOf (cs : List Char) : Style :=
  let a := analyze cs
  if cs.contains '\n' then (if a.allowsBlock cs then .literal else .doubleQuoted)
  else if a.allowsPlain cs ∧ ¬Spelling.isAmbiguous cs then .plain
  else if a.allowsSingle then .singleQuoted
  else .doubleQuoted

def spaces (n : Nat) : List Char := List.replicate n ' '

def hexDigits (width n : Nat) : List Char :=
  (List.range width).reverse.map fun i =>
    let d := n >>> (4 * i) % 16
    if d < 10 then Char.ofNat (48 + d) else Char.ofNat (55 + d)

def escapeChar (c : Char) : List Char :=
  let n := c.toNat
  if c = '"' ∨ c = '\\' then ['\\', c]
  else if isPrintable c ∧ ¬isBreak c then [c]
  else '\\' ::
    if c = '\x00' then ['0']
    else if c = '\x07' then ['a']
    else if c = '\x08' then ['b']
    else if c = '\t' then ['t']
    else if c = '\n' then ['n']
    else if c = '\x0b' then ['v']
    else if c = '\x0c' then ['f']
    else if c = '\r' then ['r']
    else if c = '\x1b' then ['e']
    else if c = '\x85' then ['N']
    else if c = '\u2028' then ['L']
    else if c = '\u2029' then ['P']
    else if n ≤ 0xFF then 'x' :: hexDigits 2 n
    else if n ≤ 0xFFFF then 'u' :: hexDigits 4 n
    else 'U' :: hexDigits 8 n

def doubleQuoted (cs : List Char) : List Char := '"' :: cs.flatMap escapeChar ++ ['"']

/-- Text after a break, with the indentation that a line needs. -/
def singleQuotedFrom (indent : Nat) (afterBreak : Bool) : List Char → List Char
  | [] => (if afterBreak then spaces indent else []) ++ ['\'']
  | c :: r =>
    if isBreak c then c :: singleQuotedFrom indent true r
    else
      (if afterBreak then spaces indent else []) ++ (if c = '\'' then ['\'', '\''] else [c]) ++
        singleQuotedFrom indent false r

def singleQuoted (indent : Nat) (cs : List Char) : List Char :=
  '\'' :: singleQuotedFrom indent false cs

/-- How a literal block tells its indentation and what becomes of its last line break. -/
def blockHints (cs : List Char) : List Char :=
  (if cs.head?.any fun c => c == ' ' || isBreak c then ['2'] else []) ++
    match cs.reverse with
    | [] => ['-']
    | [c] => if isBreak c then ['+'] else ['-']
    | c :: d :: _ => if !isBreak c then ['-'] else if isBreak d then ['+'] else []

def literalLines (indent : Nat) (afterBreak : Bool) : List Char → List Char
  | [] => if afterBreak then [] else ['\n']
  | c :: r =>
    if isBreak c then c :: literalLines indent true r
    else (if afterBreak then spaces indent else []) ++ c :: literalLines indent false r

def literal (indent : Nat) (cs : List Char) : List Char :=
  '|' :: blockHints cs ++ '\n' :: literalLines indent true cs

/-- A text and the end of its line; further lines of it are indented. -/
def textLine (indent : Nat) (cs : List Char) : List Char :=
  match styleOf cs with
  | .plain | .folded => cs ++ ['\n']
  | .singleQuoted => singleQuoted indent cs ++ ['\n']
  | .doubleQuoted => doubleQuoted cs ++ ['\n']
  | .literal => literal indent cs

def numberText : Binary64 → List Char
  | .nan => ".nan".toList
  | .infinite negative => Binary64.signText negative ++ ".inf".toList
  | .finite negative m e => Binary64.signText negative ++ Binary64.magnitudeText .omitted m e

def keyText : Document.Key → List Char
  | .name s => s.toList
  | .id n => Numeral.ofNat n

mutual

/-- A document that begins at the column `indent`, to the end of its last line. -/
def block (indent : Nat) : Document → List Char
  | .null => "null\n".toList
  | .flag b => (if b then "true\n" else "false\n").toList
  | .integer n => Numeral.ofInt n ++ ['\n']
  | .number x => numberText x ++ ['\n']
  | .text s => textLine indent s.toList
  | .list [] => "[]\n".toList
  | .list (d :: ds) => items indent (d :: ds)
  | .table [] => "\x7b\x7d\n".toList
  | .table (e :: es) => entries indent (e :: es)

/-- What follows the colon of a key at the column `indent`. -/
def afterKey (indent : Nat) : Document → List Char
  | .list (d :: ds) => '\n' :: spaces indent ++ items indent (d :: ds)
  | .table (e :: es) => '\n' :: spaces (indent + 2) ++ entries (indent + 2) (e :: es)
  | d => ' ' :: block (indent + 2) d

def items (indent : Nat) : List Document → List Char
  | [] => []
  | [d] => '-' :: ' ' :: block (indent + 2) d
  | d :: ds => '-' :: ' ' :: block (indent + 2) d ++ spaces indent ++ items indent ds

def entries (indent : Nat) : List (Document.Key × Document) → List Char
  | [] => []
  | [(k, d)] => keyText k ++ ':' :: afterKey indent d
  | (k, d) :: es => keyText k ++ ':' :: afterKey indent d ++ spaces indent ++ entries indent es

end

def render (d : Document) : String := .ofList (block 0 d)

end PlatformSnapshot.Yaml
