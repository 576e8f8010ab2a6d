import PlatformSnapshot.Text.Numeral
/-!
A place in a YAML text: what is left of the text, and how far it is from the start, by characters
and by lines and columns. The column is what indentation goes by.
-/
namespace PlatformSnapshot.Yaml

def isBlank (c : Char) : Bool := c == ' ' || c == '\t'

def isBreak (c : Char) : Bool :=
  c == '\n' || c == '\r' || c == '\x85' || c == '\u2028' || c == '\u2029'

def isBlankOrBreak (c : Char) : Bool := isBlank c || isBreak c

/-- A letter, a digit, an underscore or a dash. -/
def isWordChar (c : Char) : Bool :=
  ('a' ≤ c && c ≤ 'z') || ('A' ≤ c && c ≤ 'Z') || Numeral.isDigit c || c == '_' || c == '-'

/-- The characters that a text may hold at all. -/
def isAllowed (c : Char) : Bool :=
  let n := c.toNat
  n == 9 || n == 10 || n == 13 || (0x20 ≤ n && n ≤ 0x7E) || n == 0x85 || (0xA0 ≤ n && n ≤ 0xD7FF) ||
    (0xE000 ≤ n && n ≤ 0xFFFD) || 0x10000 ≤ n

structure Cursor where
  rest : List Char
  index : Nat := 0
  line : Nat := 0
  column : Nat := 0

namespace Cursor

def peek (c : Cursor) : Option Char := c.rest.head?

def peekAt (c : Cursor) (n : Nat) : Option Char := c.rest[n]?

/-- Whether a character is a blank, a line break or missing. -/
def endsWord : Option Char → Bool
  | none => true
  | some c => isBlankOrBreak c

/-- Passes over characters of one line. -/
def skip (c : Cursor) (n : Nat) : Cursor :=
  { c with rest := c.rest.drop n, index := c.index + n, column := c.column + n }

def skipWhile (c : Cursor) (p : Char → Bool) : Cursor := c.skip (c.rest.takeWhile p).length

/-- The word at a place, and the place after it. -/
def takeWhile (c : Cursor) (p : Char → Bool) : List Char × Cursor :=
  (c.rest.takeWhile p, c.skipWhile p)

def nextLine (c : Cursor) (n : Nat) : Cursor :=
  ⟨c.rest.drop n, c.index + n, c.line + 1, 0⟩

/-- The line break at a place as the text it stands for: a separator of lines or paragraphs stands
for itself and every other break for a line feed. -/
def lineBreak? (c : Cursor) : Option (List Char × Cursor) :=
  match c.rest with
  | [] => none
  | '\r' :: '\n' :: _ => some (['\n'], c.nextLine 2)
  | b :: _ =>
    if b = '\u2028' ∨ b = '\u2029' then some ([b], c.nextLine 1)
    else if isBreak b then some (['\n'], c.nextLine 1)
    else none

/-- Whether three equal characters stand alone at the start of a line. -/
def isAtMarker (c : Cursor) (mark : Char) : Bool :=
  c.column == 0 && c.rest.take 3 == [mark, mark, mark] && endsWord (c.peekAt 3)

def isAtDocumentMark (c : Cursor) : Bool := c.isAtMarker '-' || c.isAtMarker '.'

end Cursor
end PlatformSnapshot.Yaml
