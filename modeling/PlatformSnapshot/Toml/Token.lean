import PlatformSnapshot.Text.Numeral
import PlatformSnapshot.Json.Quoted
/-!
Tokens of a TOML text. Bare words are runs of letters, digits, dashes and underscores, so that a
number or a date is made of several tokens. A carriage return counts only right before a line feed.
-/
namespace PlatformSnapshot.Toml

inductive Token where
  | blanks (run : List Char)
  | newline
  | comment
  | equals
  | period
  | comma
  | colon
  | plus
  | openBrace
  | closeBrace
  | openBracket
  | closeBracket
  | bare (word : List Char)
  | quoted (text : List Char) (isMultiline : Bool)
  deriving DecidableEq, Repr

/-- Each carriage return before a line feed is dropped. -/
def foldReturns : List Char → List Char
  | '\r' :: '\n' :: r => '\n' :: foldReturns r
  | c :: r => c :: foldReturns r
  | [] => []

def isBare (c : Char) : Bool :=
  ('a' ≤ c && c ≤ 'z') || ('A' ≤ c && c ≤ 'Z') || Numeral.isDigit c || c == '-' || c == '_'

def isBlank (c : Char) : Bool := c == ' ' || c == '\t'

def isCommentChar (c : Char) : Bool := c == '\t' || ' ' ≤ c

/-- The characters that a string may hold as they are. -/
def isStringChar (c : Char) : Bool := (c == '\t' || ' ' ≤ c) && c != '\x7f'

/-- The text of a string, and what follows its closing quotes. -/
structure Quoted where
  text : List Char
  rest : List Char

def Quoted.cons (c : Char) (q : Quoted) : Quoted := { q with text := c :: q.text }

/-- What follows the first of three closing quotes: up to two more belong to the text. -/
def closeTriple (quote : Char) : List Char → Quoted
  | c :: d :: r =>
    if c = quote then (if d = quote then ⟨[quote, quote], r⟩ else ⟨[quote], d :: r⟩)
    else ⟨[], c :: d :: r⟩
  | [c] => if c = quote then ⟨[quote], []⟩ else ⟨[], [c]⟩
  | [] => ⟨[], []⟩

def literal? : List Char → Option Quoted
  | [] => none
  | c :: r =>
    if c = '\'' then some ⟨[], r⟩
    else if isStringChar c then (literal? r).map (·.cons c)
    else none

def literalLines? : List Char → Option Quoted
  | [] => none
  | '\'' :: '\'' :: '\'' :: r => some (closeTriple '\'' r)
  | c :: r => if c = '\n' ∨ isStringChar c then (literalLines? r).map (·.cons c) else none

def shortEscape? : Char → Option Char
  | '"' => some '"'
  | '\\' => some '\\'
  | 'b' => some '\x08'
  | 'f' => some '\x0c'
  | 'n' => some '\n'
  | 'r' => some '\r'
  | 't' => some '\t'
  | _ => none

/-- The character with a number in hexadecimal digits, if there is one. -/
def hexChar? (ds : List Char) : Option Char := do
  let n ← ds.foldlM (fun n d => (Json.hexValue? d).map fun v => 16 * n + v) 0
  if (0xD800 ≤ n ∧ n < 0xE000) ∨ 0x110000 ≤ n then none else some (Char.ofNat n)

def basic? : List Char → Option Quoted
  | [] => none
  | '\\' :: 'u' :: a :: b :: c :: d :: r => do
    let x ← hexChar? [a, b, c, d]
    return (← basic? r).cons x
  | '\\' :: 'U' :: a :: b :: c :: d :: e :: f :: g :: h :: r => do
    let x ← hexChar? [a, b, c, d, e, f, g, h]
    return (← basic? r).cons x
  | '\\' :: c :: r => do
    let x ← shortEscape? c
    return (← basic? r).cons x
  | c :: r =>
    if c = '"' then some ⟨[], r⟩
    else if c ≠ '\\' ∧ isStringChar c then (basic? r).map (·.cons c)
    else none

/-- What follows a line that ends in a backslash: blanks and empty lines are passed over. -/
def afterEscapedBreak? (cs : List Char) : Option (List Char) :=
  match cs.dropWhile isBlank with
  | '\n' :: r => some (r.dropWhile fun c => isBlank c || c == '\n')
  | _ => none

def basicLines? : (fuel : Nat) → List Char → Option Quoted
  | 0, _ | _, [] => none
  | _, '"' :: '"' :: '"' :: r => some (closeTriple '"' r)
  | fuel + 1, '\\' :: 'u' :: a :: b :: c :: d :: r => do
    let x ← hexChar? [a, b, c, d]
    return (← basicLines? fuel r).cons x
  | fuel + 1, '\\' :: 'U' :: a :: b :: c :: d :: e :: f :: g :: h :: r => do
    let x ← hexChar? [a, b, c, d, e, f, g, h]
    return (← basicLines? fuel r).cons x
  | fuel + 1, '\\' :: c :: r =>
    if isBlank c ∨ c = '\n' then (afterEscapedBreak? (c :: r)).bind (basicLines? fuel)
    else do
      let x ← shortEscape? c
      return (← basicLines? fuel r).cons x
  | fuel + 1, c :: r =>
    if c = '\n' ∨ (c ≠ '\\' ∧ isStringChar c) then (basicLines? fuel r).map (·.cons c) else none

/-- A line feed right after three opening quotes is no part of the text. -/
def dropNewline : List Char → List Char
  | '\n' :: r => r
  | cs => cs

def quoted? : List Char → Option (Token × List Char)
  | '\'' :: '\'' :: '\'' :: r =>
    (literalLines? (dropNewline r)).map fun q => (.quoted q.text true, q.rest)
  | '\'' :: r => (literal? r).map fun q => (.quoted q.text false, q.rest)
  | '"' :: '"' :: '"' :: r =>
    (basicLines? (r.length + 1) (dropNewline r)).map fun q => (.quoted q.text true, q.rest)
  | '"' :: r => (basic? r).map fun q => (.quoted q.text false, q.rest)
  | _ => none

/-- The token at the front of a text. -/
def token? : List Char → Option (Token × List Char)
  | [] => none
  | c :: r =>
    if c = '\n' then some (.newline, r)
    else if isBlank c then some (.blanks ((c :: r).takeWhile isBlank), r.dropWhile isBlank)
    else if c = '#' then some (.comment, r.dropWhile isCommentChar)
    else if c = '=' then some (.equals, r)
    else if c = '.' then some (.period, r)
    else if c = ',' then some (.comma, r)
    else if c = ':' then some (.colon, r)
    else if c = '+' then some (.plus, r)
    else if c = '\x7b' then some (.openBrace, r)
    else if c = '\x7d' then some (.closeBrace, r)
    else if c = '[' then some (.openBracket, r)
    else if c = ']' then some (.closeBracket, r)
    else if c = '\'' ∨ c = '"' then quoted? (c :: r)
    else if isBare c then some (.bare ((c :: r).takeWhile isBare), r.dropWhile isBare)
    else none

def tokensFrom? : (fuel : Nat) → List Char → Option (List Token)
  | _, [] => some []
  | 0, _ => none
  | fuel + 1, cs => do
    let (t, r) ← token? cs
    return t :: (← tokensFrom? fuel r)

/-- A mark of byte order in front counts for nothing. -/
def dropMark : List Char → List Char
  | '\ufeff' :: r => r
  | cs => cs

/-- Every token takes a character, so the length of the text is fuel enough. -/
def tokens? (s : String) : Option (List Token) :=
  let cs := foldReturns (dropMark s.toList)
  tokensFrom? cs.length cs

end PlatformSnapshot.Toml
