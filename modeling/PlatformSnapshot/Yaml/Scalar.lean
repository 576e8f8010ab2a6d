import PlatformSnapshot.Yaml.Cursor
import PlatformSnapshot.Json.Quoted
/-!
Scalars of a YAML text. A scalar is plain, quoted or a block; line breaks within the first two are
folded, which turns one break into a space and drops the first of several. A plain scalar ends before
a comment, a colon that a blank follows, a document mark or a lesser indentation, and within brackets
also before an indicator.
-/
namespace PlatformSnapshot.Yaml

inductive Style where
  | plain
  | singleQuoted
  | doubleQuoted
  | literal
  | folded
  deriving DecidableEq, Repr

/-- Blanks and line breaks between two parts of a scalar. -/
structure Gap where
  blanks : List Char := []
  isBroken : Bool := false
  firstBreak : List Char := []
  moreBreaks : List Char := []

namespace Gap

/-- What stands for the gap in the value of the scalar. -/
def text (g : Gap) : List Char :=
  if !g.isBroken then g.blanks
  else if g.firstBreak.head? = some '\n' then
    (if g.moreBreaks = [] then [' '] else g.moreBreaks)
  else g.firstBreak ++ g.moreBreaks

/-- Passes over a gap. In a line after the first, a tab left of column `indent` is refused. -/
def read (indent : Nat) : (fuel : Nat) → Gap → Cursor → Option (Gap × Cursor)
  | 0, g, c => some (g, c)
  | fuel + 1, g, c =>
    match c.peek with
    | none => some (g, c)
    | some a =>
      if isBlank a then
        if !g.isBroken then read indent fuel { g with blanks := g.blanks ++ [a] } (c.skip 1)
        else if c.column < indent ∧ a = '\t' then none
        else read indent fuel g (c.skip 1)
      else
        match c.lineBreak? with
        | none => some (g, c)
        | some (b, c) =>
          if g.isBroken then read indent fuel { g with moreBreaks := g.moreBreaks ++ b } c
          else read indent fuel { isBroken := true, firstBreak := b } c

end Gap

def isFlowIndicator (c : Char) : Bool :=
  c == ',' || c == '[' || c == ']' || c == '\x7b' || c == '\x7d'

/-- The characters of a plain scalar up to the next gap or its end; within brackets a colon must not
run into an indicator. -/
def plainPart? (inFlow : Bool) : List Char → Option (List Char)
  | [] => some []
  | c :: r =>
    if isBlankOrBreak c then some []
    else if inFlow ∧ c = ':' ∧ r.head?.any fun d => isFlowIndicator d || d == '?' then none
    else if (c = ':' ∧ Cursor.endsWord r.head?) ∨ (inFlow ∧ isFlowIndicator c) then some []
    else (plainPart? inFlow r).map (c :: ·)

/-- The scalar's text, the gap behind it and the place after that gap. -/
def readPlain (inFlow : Bool) (indent : Nat) :
    (fuel : Nat) → List Char → Gap → Cursor → Option (List Char × Gap × Cursor)
  | 0, text, g, c => some (text, g, c)
  | fuel + 1, text, g, c => do
    if c.isAtDocumentMark ∨ c.peek = some '#' then return (text, g, c)
    let part ← plainPart? inFlow c.rest
    if part = [] then return (text, g, c)
    let text := text ++ g.text ++ part
    let (g, c) ← Gap.read indent c.rest.length {} (c.skip part.length)
    if ¬inFlow ∧ g.isBroken ∧ c.column < indent then return (text, g, c)
    if ¬g.isBroken ∧ g.blanks = [] then return (text, g, c)
    readPlain inFlow indent fuel text g c

/-- Why a part of a quoted scalar ends. -/
inductive PartEnd where
  | quote
  | escapedBreak
  | gap
  deriving DecidableEq

/-- Some text, how many characters it took, and why it ends there. -/
structure QuotedPart where
  text : List Char := []
  width : Nat := 0
  stop : PartEnd

def QuotedPart.cons (c : Char) (width : Nat) (p : QuotedPart) : QuotedPart :=
  { p with text := c :: p.text, width := p.width + width }

def singlePart : List Char → QuotedPart
  | [] => { stop := .gap }
  | '\'' :: '\'' :: r => (singlePart r).cons '\'' 2
  | c :: r =>
    if c = '\'' then { stop := .quote }
    else if isBlankOrBreak c then { stop := .gap }
    else (singlePart r).cons c 1

def simpleEscape? : Char → Option Char
  | '0' => some '\x00'
  | 'a' => some '\x07'
  | 'b' => some '\x08'
  | 't' => some '\t'
  | '\t' => some '\t'
  | 'n' => some '\n'
  | 'v' => some '\x0b'
  | 'f' => some '\x0c'
  | 'r' => some '\r'
  | 'e' => some '\x1b'
  | ' ' => some ' '
  | '"' => some '"'
  | '/' => some '/'
  | '\\' => some '\\'
  | 'N' => some '\x85'
  | '_' => some '\xa0'
  | 'L' => some '\u2028'
  | 'P' => some '\u2029'
  | _ => none

/-- The character that some hexadecimal digits name. -/
def hexChar? (ds : List Char) : Option Char := do
  let n ← ds.foldlM (fun n d => (Json.hexValue? d).map fun v => 16 * n + v) 0
  if (0xD800 ≤ n ∧ n ≤ 0xDFFF) ∨ 0x10FFFF < n then none else some (Char.ofNat n)

def doublePart? : List Char → Option QuotedPart
  | [] => some { stop := .gap }
  | '\\' :: 'x' :: a :: b :: r => do
    let c ← hexChar? [a, b]
    return (← doublePart? r).cons c 4
  | '\\' :: 'u' :: a :: b :: c :: d :: r => do
    let c ← hexChar? [a, b, c, d]
    return (← doublePart? r).cons c 6
  | '\\' :: 'U' :: a :: b :: c :: d :: e :: f :: g :: h :: r => do
    let c ← hexChar? [a, b, c, d, e, f, g, h]
    return (← doublePart? r).cons c 10
  | '\\' :: c :: r =>
    if isBreak c then some { width := 1, stop := .escapedBreak }
    else do
      let c ← simpleEscape? c
      return (← doublePart? r).cons c 2
  | c :: r =>
    if c = '\\' then none
    else if c = '"' then some { stop := .quote }
    else if isBlankOrBreak c then some { stop := .gap }
    else (doublePart? r).map (·.cons c 1)

/-- Reads on after the opening quote; a document mark must not stand within the quotes. -/
def readQuoted (single : Bool) : (fuel : Nat) → List Char → Cursor → Option (List Char × Cursor)
  | 0, _, _ => none
  | fuel + 1, text, c => do
    if c.isAtDocumentMark ∨ c.rest = [] then none
    let part ← if single then some (singlePart c.rest) else doublePart? c.rest
    let text := text ++ part.text
    let c := c.skip part.width
    match part.stop with
    | .quote => return (text, c.skip 1)
    | .escapedBreak =>
      let (_, c) ← c.lineBreak?
      let (g, c) ← Gap.read 0 c.rest.length { isBroken := true } c
      readQuoted single fuel (text ++ g.text) c
    | .gap =>
      let (g, c) ← Gap.read 0 c.rest.length {} c
      readQuoted single fuel (text ++ g.text) c

/-- What becomes of the line breaks at the end of a block. -/
inductive Chomping where
  | strip
  | clip
  | keep
  deriving DecidableEq

structure BlockHeader where
  chomping : Chomping := .clip
  /-- The indentation relative to the parent, if it is given. -/
  increment : Option Nat := none

def chomping? : Char → Option Chomping
  | '+' => some .keep
  | '-' => some .strip
  | _ => none

/-- A digit of a block's header, which is not zero. -/
def increment? (c : Char) : Option Nat :=
  if Numeral.isDigit c ∧ c ≠ '0' then some (Numeral.digitValue c) else none

/-- At most one indicator of each kind, in any order, and then nothing but a comment. -/
def readHeader (c : Cursor) : Option (BlockHeader × Cursor) := do
  let (h, c) ← match c.peek.bind chomping? with
    | some chomping =>
      match c.peekAt 1 with
      | some d =>
        if Numeral.isDigit d then do
          let n ← increment? d
          some (({ chomping, increment := some n } : BlockHeader), c.skip 2)
        else some ({ chomping }, c.skip 1)
      | none => some ({ chomping }, c.skip 1)
    | none =>
      match c.peek with
      | some d =>
        if Numeral.isDigit d then do
          let n ← increment? d
          match (c.peekAt 1).bind chomping? with
          | some chomping => some ({ chomping, increment := some n }, c.skip 2)
          | none => some ({ increment := some n }, c.skip 1)
        else some ({}, c)
      | none => some ({}, c)
  let c := c.skipWhile isBlank
  let c := if c.peek = some '#' then c.skipWhile fun a => !isBreak a else c
  match c.lineBreak? with
  | some (_, c) => return (h, c)
  | none => if c.rest = [] then return (h, c) else none

/-- Passes over empty lines, and over the indentation of the line after them. An indentation of zero
is not known yet; a tab in its place is refused. -/
def readBlockBreaks (indent : Nat) :
    (fuel : Nat) → (deepest : Nat) → List Char → Cursor → Option (Nat × List Char × Cursor)
  | 0, deepest, breaks, c => some (deepest, breaks, c)
  | fuel + 1, deepest, breaks, c => do
    let spaces := (c.rest.takeWhile (· == ' ')).length
    let c := c.skip (if indent = 0 then spaces else min spaces (indent - c.column))
    let deepest := max deepest c.column
    if (indent = 0 ∨ c.column < indent) ∧ c.peek = some '\t' then none
    match c.lineBreak? with
    | some (b, c) => readBlockBreaks indent fuel deepest (breaks ++ b) c
    | none => return (deepest, breaks, c)

/-- The state between two lines of a block. -/
structure BlockText where
  text : List Char := []
  lastBreak : List Char := []
  emptyLines : List Char := []
  /-- Whether the line before began with a blank. -/
  isIndented : Bool := false

/-- Adds what stands between two lines. In a folded block the break between two lines that do not
begin with a blank becomes a space, or vanishes beside empty lines. -/
def BlockText.join (b : BlockText) (literal nextIndented : Bool) : List Char :=
  if !literal ∧ b.lastBreak.head? = some '\n' ∧ !b.isIndented ∧ !nextIndented then
    (if b.emptyLines = [] then b.text ++ [' '] else b.text ++ b.emptyLines)
  else b.text ++ b.lastBreak ++ b.emptyLines

def readBlockLines (literal : Bool) (indent : Nat) :
    (fuel : Nat) → BlockText → Cursor → Option (BlockText × Cursor)
  | 0, b, c => some (b, c)
  | fuel + 1, b, c => do
    if c.column ≠ indent ∨ c.rest = [] then return (b, c)
    let isIndented := c.peek.any isBlank
    let (line, c') := c.takeWhile fun a => !isBreak a
    let (lastBreak, c') := (c'.lineBreak?).getD ([], c')
    let (_, emptyLines, c') ← readBlockBreaks indent c'.rest.length 0 [] c'
    readBlockLines literal indent fuel
      ⟨b.join literal isIndented ++ line, lastBreak, emptyLines, isIndented⟩ c'

/-- Reads a block after its indicator, for a parent at the column `parent` (-1 for none). -/
def readBlock (literal : Bool) (parent : Int) (c : Cursor) : Option (List Char × Cursor) := do
  let (h, c) ← readHeader c
  let given := match h.increment with
    | some n => (max parent 0).toNat + n
    | none => 0
  let (deepest, emptyLines, c) ← readBlockBreaks given c.rest.length 0 [] c
  let indent := if given = 0 then max (max deepest (parent + 1).toNat) 1 else given
  let (b, c) ← readBlockLines literal indent c.rest.length { emptyLines } c
  let text := match h.chomping with
    | .strip => b.text
    | .clip => b.text ++ b.lastBreak
    | .keep => b.text ++ b.lastBreak ++ b.emptyLines
  return (text, c)

end PlatformSnapshot.Yaml
