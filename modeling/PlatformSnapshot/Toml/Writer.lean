import PlatformSnapshot.Document
import PlatformSnapshot.Number.Notation
/-!
Records as TOML, one line an entry. Text stands between single quotes where it can, three of them if
it holds a quote or a line break, and otherwise between double quotes with escapes. Entries without
a value are left out, since TOML has no way to write them.
-/
namespace PlatformSnapshot.Toml

def isControl (c : Char) : Bool := c ≤ '\x1f' || c == '\x7f'

/-- The longest run of single quotes, given the length of the run before. -/
def longestRun (run : Nat) : List Char → Nat
  | [] => run
  | c :: r => if c = '\'' then longestRun (run + 1) r else max run (longestRun 0 r)

/-- Whether a text can stand as it is between single quotes, three of them if need be. -/
def isLiteral (cs : List Char) : Bool :=
  cs.all (fun c => c == '\t' || c == '\n' || !isControl c) && longestRun 0 cs < 3 &&
    cs.getLast? != some '\''

def hexDigit (n : Nat) : Char := if n < 10 then Char.ofNat (48 + n) else Char.ofNat (55 + n)

/-- A character between double quotes; only a text of several lines keeps its line feeds. -/
def escapeChar (isMultiline : Bool) (c : Char) : List Char :=
  if c = '\x08' then ['\\', 'b']
  else if c = '\t' then ['\\', 't']
  else if c = '\n' then (if isMultiline then ['\n'] else ['\\', 'n'])
  else if c = '\x0c' then ['\\', 'f']
  else if c = '\r' then ['\\', 'r']
  else if c = '"' then ['\\', '"']
  else if c = '\\' then ['\\', '\\']
  else if isControl c then
    ['\\', 'u', '0', '0', hexDigit (c.toNat / 16), hexDigit (c.toNat % 16)]
  else [c]

def quote (cs : List Char) : List Char :=
  let isMultiline := cs.contains '\n'
  if isLiteral cs then
    if isMultiline then "'''\n".toList ++ cs ++ "'''".toList
    else if cs.contains '\'' then "'''".toList ++ cs ++ "'''".toList
    else '\'' :: cs ++ ['\'']
  else if isMultiline then "\"\"\"\n".toList ++ cs.flatMap (escapeChar true) ++ "\"\"\"".toList
  else '"' :: cs.flatMap (escapeChar false) ++ ['"']

/-- The text of a value that a line of its own can hold. -/
def valueText? : Document → Option (List Char)
  | .flag b => some (if b then "true" else "false").toList
  | .integer n => some (Numeral.ofInt n)
  | .text s => some (quote s.toList)
  | _ => none

def keyText : Document.Key → List Char
  | .name s => s.toList
  | .id n => Numeral.ofNat n

def entryLine (e : Document.Key × Document) : List Char :=
  match valueText? e.2 with
  | none => []
  | some v => keyText e.1 ++ " = ".toList ++ v ++ ['\n']

def render : Document → String
  | .table entries => .ofList (entries.flatMap entryLine)
  | _ => ""

end PlatformSnapshot.Toml
