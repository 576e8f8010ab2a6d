import PlatformSnapshot.Json.Quoted
/-!
JSON text as a tree of terms. Numbers and strings stay as they were written, since it depends on
what is asked of a term whether they have a meaning; a part of a text that nobody asks for only has
to be well formed.
-/
namespace PlatformSnapshot.Json

inductive Term where
  | null
  | flag (b : Bool)
  | number (raw : List Char)
  | text (raw : List Char)
  | list (items : List Term)
  | record (members : List (List Char × Term))
  deriving Inhabited

open Numeral (isDigit)

def isSpace (c : Char) : Bool := c == ' ' || c == '\n' || c == '\t' || c == '\r'

def skip (cs : List Char) : List Char := cs.dropWhile isSpace

/-- A leading run of digits, and the rest. -/
def digitRun (cs : List Char) : List Char × List Char := (cs.takeWhile isDigit, cs.dropWhile isDigit)

/-- A zero, or a run of digits that starts with another one. -/
def wholePart? (cs : List Char) : Option (List Char × List Char) :=
  match cs with
  | '0' :: r => some (['0'], r)
  | cs => if (digitRun cs).1 = [] then none else some (digitRun cs)

def fractionPart? : List Char → Option (List Char × List Char)
  | '.' :: r => if (digitRun r).1 = [] then none else some ('.' :: (digitRun r).1, (digitRun r).2)
  | cs => some ([], cs)

def signPart : List Char → List Char × List Char
  | '+' :: r => (['+'], r)
  | '-' :: r => (['-'], r)
  | cs => ([], cs)

def exponentPart? : List Char → Option (List Char × List Char)
  | [] => some ([], [])
  | c :: r =>
    if c = 'e' ∨ c = 'E' then
      let (sign, r) := signPart r
      if (digitRun r).1 = [] then none else some (c :: sign ++ (digitRun r).1, (digitRun r).2)
    else some ([], c :: r)

def number? (cs : List Char) : Option (List Char × List Char) := do
  let (sign, cs) := match cs with
    | '-' :: r => (['-'], r)
    | cs => ([], cs)
  let (whole, cs) ← wholePart? cs
  let (fraction, cs) ← fractionPart? cs
  let (exponent, cs) ← exponentPart? cs
  return (sign ++ whole ++ fraction ++ exponent, cs)

def literal? (word : List Char) (t : Term) (cs : List Char) : Option (Term × List Char) :=
  if word.isPrefixOf cs then some (t, cs.drop word.length) else none

mutual

/-- The value at the front of a text without leading spaces, and the rest; `fuel` bounds the
nesting and the number of items. -/
def value? : (fuel : Nat) → List Char → Option (Term × List Char)
  | 0, _ => none
  | _, [] => none
  | fuel + 1, c :: r =>
    if c = 'n' then literal? "null".toList .null (c :: r)
    else if c = 't' then literal? "true".toList (.flag true) (c :: r)
    else if c = 'f' then literal? "false".toList (.flag false) (c :: r)
    else if c = '"' then (scan? r).map fun (s, t) => (.text s, t)
    else if c = '[' then
      match skip r with
      | ']' :: t => some (.list [], t)
      | r => (items? fuel r).map fun (ts, t) => (.list ts, t)
    else if c = '\x7b' then
      match skip r with
      | '\x7d' :: t => some (.record [], t)
      | r => (members? fuel r).map fun (ms, t) => (.record ms, t)
    else (number? (c :: r)).map fun (n, t) => (.number n, t)

/-- The items up to a closing bracket. -/
def items? : (fuel : Nat) → List Char → Option (List Term × List Char)
  | 0, _ => none
  | fuel + 1, cs => do
    let (t, r) ← value? fuel cs
    match skip r with
    | ']' :: r => return ([t], r)
    | ',' :: r =>
      let (ts, r) ← items? fuel (skip r)
      return (t :: ts, r)
    | _ => none

/-- The members up to a closing brace. -/
def members? : (fuel : Nat) → List Char → Option (List (List Char × Term) × List Char)
  | 0, _ => none
  | fuel + 1, cs => do
    let '"' :: r := cs | none
    let (key, r) ← scan? r
    let ':' :: r := skip r | none
    let (t, r) ← value? fuel (skip r)
    match skip r with
    | '\x7d' :: r => return ([(key, t)], r)
    | ',' :: r =>
      let (ms, r) ← members? fuel (skip r)
      return ((key, t) :: ms, r)
    | _ => none

end

/-- The one value of a text, with nothing but spaces around it. Each step down in the reading takes
a character or comes right before one that does, so twice the length is fuel enough. -/
def Term.ofText? (s : String) : Option Term := do
  let cs := s.toList
  let (t, rest) ← value? (2 * cs.length + 2) (skip cs)
  if skip rest = [] then some t else none

end PlatformSnapshot.Json
