import PlatformSnapshot.Toml.Token
import PlatformSnapshot.Number.DecimalRange
import PlatformSnapshot.Text.Split
/-!
Values of a TOML text. Only text and truth values keep their content; of numbers and dates it only
matters whether they are well formed. Integers have to fit 64 bits and decimals have to be finite;
a date is checked no further than its tokens.
-/
namespace PlatformSnapshot.Toml

inductive Value where
  | text (s : List Char)
  | flag (b : Bool)
  | number
  | list (items : List Value)
  /-- A table in braces, or one that dotted keys have made and may add to. -/
  | table (isDotted : Bool) (entries : List (List Char × Value))
  deriving Inhabited

abbrev Read := StateT (List Token) Option

namespace Read

def peek : Read (Option Token) := do return (← get).head?

def next : Read Token := do
  match ← get with
  | t :: ts => set ts; return t
  | [] => failure

/-- Passes over the next token if it is the given one. -/
def accept (t : Token) : Read Bool := do
  if (← peek) = some t then let _ ← next; return true
  else return false

def expect (t : Token) : Read Unit := do unless ← accept t do failure

def skipBlanks : Read Unit := do
  if let some (.blanks _) ← peek then let _ ← next

def bareWord : Read (List Char) := do
  match ← next with
  | .bare w => return w
  | _ => failure

end Read

open Read

def isDigitOf (base : Nat) (c : Char) : Bool := (Json.hexValue? c).any (· < base)

/-- A run of digits with single underscores between them, without the underscores, and the rest. A
zero in front of other digits is refused unless `zeros` allows it. -/
def digitsFrom? (zeros : Bool) (base : Nat) (isFirst hasZero afterUnderscore : Bool) :
    List Char → Option (List Char × List Char)
  | [] => if isFirst || afterUnderscore then none else some ([], [])
  | c :: r =>
    if c = '0' ∧ isFirst then
      (digitsFrom? zeros base false true false r).map fun (ds, t) => (c :: ds, t)
    else if isDigitOf base c then
      if !isFirst ∧ hasZero ∧ !zeros then none
      else (digitsFrom? zeros base false hasZero false r).map fun (ds, t) => (c :: ds, t)
    else if c = '_' then
      if isFirst || afterUnderscore then none else digitsFrom? zeros base false hasZero true r
    else if isFirst || afterUnderscore then none
    else some ([], c :: r)

def digits? (zeros : Bool) (base : Nat) (cs : List Char) : Option (List Char × List Char) :=
  digitsFrom? zeros base true false false cs

/-- A sign, which is read if it is a minus or `plus` allows the other, digits, and the rest. -/
def signed? (zeros : Bool) : List Char → Option (Bool × List Char × List Char)
  | '-' :: r => (digits? zeros 10 r).map fun (ds, t) => (true, ds, t)
  | '+' :: r => (digits? zeros 10 r).map fun (ds, t) => (false, ds, t)
  | cs => (digits? zeros 10 cs).map fun (ds, t) => (false, ds, t)

def valueOf (base : Nat) (ds : List Char) : Nat :=
  ds.foldl (fun n d => base * n + (Json.hexValue? d).getD 0) 0

/-- Integers are signed words. -/
def isInteger (cs : List Char) : Bool :=
  match signed? false cs with
  | some (negative, ds, []) =>
    let n : Int := valueOf 10 ds
    (Numeral.inInt64? (if negative then -n else n)).isSome
  | _ => false

def isBasedInteger (base : Nat) (cs : List Char) : Bool :=
  match digits? true base cs with
  | some (ds, []) => (Numeral.inInt64? (valueOf base ds)).isSome
  | _ => false

/-- The exponent behind its letter: signed digits, or a plus token and digits. -/
def exponent (cs : List Char) : Read Int := do
  let (negative, ds, rest) ←
    if cs = [] then do
      let _ ← accept .plus
      let (ds, rest) ← (digits? true 10 (← bareWord) : Option _)
      pure (false, ds, rest)
    else (signed? true cs : Option _)
  unless rest = [] do failure
  let n := valueOf 10 ds
  return if negative then -(n : Int) else n

/-- A decimal whose part before the point is the front of a word, and whose part behind the point
is given if there is one. -/
def decimal (word : List Char) (behind : Option (List Char)) : Read Value := do
  let (_, whole, rest) ← (signed? false word : Option _)
  let (fraction, rest) ← match behind with
    | none => pure ([], rest)
    | some cs => if rest = [] then (digits? true 10 cs : Option _) else failure
  let e ← match rest with
    | [] => pure 0
    | c :: r => if c = 'e' ∨ c = 'E' then exponent r else failure
  unless DecimalRange.isFinite (valueOf 10 (whole ++ fraction)) (e - fraction.length) do failure
  return .number

def hasExponent (word : List Char) : Bool := word.contains 'e' || word.contains 'E'

def number (word : List Char) : Read Value := do
  let based (lead : String) (base : Nat) : Option Bool :=
    (Text.after? lead.toList word).map (isBasedInteger base)
  match based "0x" 16 <|> based "0o" 8 <|> based "0b" 2 with
  | some isGood => if isGood then return .number else failure
  | none =>
    if hasExponent word then decimal word none
    else if ← accept .period then decimal word (some (← bareWord))
    else if ["inf", "-inf", "nan", "-nan"].any fun s => s.toList == word then return .number
    else if isInteger word then return .number
    else failure

/-- Whether a word begins a date: it holds the letter before a time, or a dash that belongs to no
exponent. -/
def looksLikeDate (word : List Char) : Bool :=
  word.contains 'T' || word.contains 't' ||
    (word.tail.contains '-' && !Text.contains "e-".toList word && !Text.contains "E-".toList word)

/-- The tokens of a date after its first word. A time may follow after one space, and seconds have
to follow minutes. -/
def date (colonTaken : Bool) : Read Value := do
  if let .blanks [' '] :: .bare _ :: rest ← get then set rest
  if colonTaken || (← accept .colon) then
    let _ ← bareWord
    expect .colon
    let _ ← bareWord
    if ← accept .period then let _ ← bareWord
    if ← accept .plus then let _ ← bareWord
    if ← accept .colon then let _ ← bareWord
  return .number

def numberOrDate (word : List Char) : Read Value := do
  if looksLikeDate word then date false
  else if ← accept .colon then date true
  else number word

def key : Read (List Char) := do
  match ← next with
  | .bare w => return w
  | .quoted s isMultiline => if isMultiline then failure else return s
  | _ => failure

/-- Keys with points between them. -/
def dottedKey : (fuel : Nat) → Read (List (List Char))
  | 0 => failure
  | fuel + 1 => do
    let k ← key
    skipBlanks
    if ← accept .period then
      skipBlanks
      return k :: (← dottedKey fuel)
    else return [k]

/-- A table of one entry, whose key is a row of keys. -/
def nest (v : Value) : List (List Char) → Value
  | [] => v
  | k :: ks => .table true [(k, nest v ks)]

/-- Adds an entry under a row of keys; the tables on the way must have been made by dotted keys. -/
def withPair? (v : Value) : List (List Char) → List (List Char × Value) →
    Option (List (List Char × Value))
  | [], es => some es
  | [k], es => some (es ++ [(k, v)])
  | k :: ks, es =>
    match es.span (·.1 != k) with
    | (_, []) => some (es ++ [(k, nest v ks)])
    | (before, (_, .table true inner) :: after) =>
      (withPair? v ks inner).map fun inner => before ++ (k, .table true inner) :: after
    | _ => none

/-- Passes over blanks, comments and line breaks. -/
def skipLines : (fuel : Nat) → Read Unit
  | 0 => return ()
  | fuel + 1 => do
    skipBlanks
    if ← accept .newline then skipLines fuel
    else if ← accept .comment then
      unless (← get) = [] do expect .newline
      skipLines fuel

mutual

def value : (fuel : Nat) → Read Value
  | 0 => failure
  | fuel + 1 => do
    match ← next with
    | .quoted s _ => return .text s
    | .bare w =>
      if w = "true".toList then return .flag true
      else if w = "false".toList then return .flag false
      else if w = "inf".toList ∨ w = "nan".toList ∨
          w.head?.any (fun c => c == '-' || Numeral.isDigit c) then numberOrDate w
      else failure
    | .plus => number (← bareWord)
    | .openBrace =>
      skipBlanks
      if ← accept .closeBrace then return .table false []
      else return .table false (← pairs fuel [])
    | .openBracket => return .list (← items fuel)
    | _ => failure

/-- The entries of a table in braces after some others, up to the closing brace. -/
def pairs : (fuel : Nat) → List (List Char × Value) → Read (List (List Char × Value))
  | 0, _ => failure
  | fuel + 1, es => do
    let ks ← dottedKey fuel
    expect .equals
    skipBlanks
    let v ← value fuel
    let es ← (withPair? v ks es : Option _)
    skipBlanks
    if ← accept .closeBrace then return es
    expect .comma
    skipBlanks
    pairs fuel es

/-- The items of a list up to the closing bracket; a comma may follow the last one. -/
def items : (fuel : Nat) → Read (List Value)
  | 0 => failure
  | fuel + 1 => do
    skipLines fuel
    if ← accept .closeBracket then return []
    let v ← value fuel
    skipLines fuel
    if ← accept .comma then return v :: (← items fuel)
    expect .closeBracket
    return [v]

end

end PlatformSnapshot.Toml
