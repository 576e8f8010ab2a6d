import PlatformSnapshot.Yaml.Scalar
/-!
Tokens of a YAML text. Block structure is told by columns: a key or an entry further to the right
than the open block opens a block of its own, and a line further to the left closes blocks. A key is
only known as one by the colon after it, so the place of the last token that could begin a key is
kept for each level of brackets, and the key token is put in there when the colon comes.
-/
namespace PlatformSnapshot.Yaml

inductive Token where
  | version (major minor : Nat)
  | tagHandle (handle lead : List Char)
  | documentStart
  | documentEnd
  | blockSequenceStart
  | blockMappingStart
  | blockEnd
  | flowSequenceStart
  | flowSequenceEnd
  | flowMappingStart
  | flowMappingEnd
  | blockEntry
  | flowEntry
  | key
  | value
  | alias (name : List Char)
  | anchor (name : List Char)
  | tag (handle suffix : List Char)
  | scalar (text : List Char) (style : Style)
  deriving DecidableEq

/-- A token that may turn out to begin a key. -/
structure KeyPlace where
  /-- A key that has to be one: it stands where the open block's entries begin. -/
  isRequired : Bool
  /-- How many tokens come before it. -/
  position : Nat
  index : Nat
  line : Nat
  column : Nat

structure Lexer where
  cursor : Cursor
  tokens : Array Token := #[]
  /-- The column of the open block, -1 outside of all blocks. -/
  indent : Int := -1
  /-- The columns of the blocks around it. -/
  outer : List Int := []
  /-- The possible key of the innermost brackets and of all around them. -/
  keys : List (Option KeyPlace) := [none]
  /-- Whether a key may begin here. -/
  keyAllowed : Bool := true

namespace Lexer

def inFlow (l : Lexer) : Bool := 1 < l.keys.length

def push (l : Lexer) (t : Token) : Lexer := { l with tokens := l.tokens.push t }

def skip (l : Lexer) (n : Nat) : Lexer := { l with cursor := l.cursor.skip n }

def allowKey (l : Lexer) (b : Bool) : Lexer := { l with keyAllowed := b }

/-- Opens a block at a column to the right of the open one; its token goes to a given position. -/
def openBlock (l : Lexer) (column position : Nat) (t : Token) : Lexer :=
  if !l.inFlow ∧ l.indent < column then
    { l with
      outer := l.indent :: l.outer
      indent := column
      tokens := l.tokens.insertIdxIfInBounds position t }
  else l

def openBlockHere (l : Lexer) (t : Token) : Lexer := l.openBlock l.cursor.column l.tokens.size t

/-- Closes the blocks to the right of a column, given the columns of the blocks around. -/
def closeBlocksWithin (column : Int) (l : Lexer) : List Int → Lexer
  | [] => { l with outer := [] }
  | o :: os =>
    if column < l.indent then
      closeBlocksWithin column ({ l with indent := o }.push .blockEnd) os
    else { l with outer := o :: os }

def closeBlocks (l : Lexer) (column : Int) : Lexer :=
  if l.inFlow then l else closeBlocksWithin column l l.outer

/-- Gives up the possible key of the innermost brackets; one that has to be a key is an error. -/
def dropKey? (l : Lexer) : Option Lexer :=
  match l.keys with
  | some k :: rest => if k.isRequired then none else some { l with keys := none :: rest }
  | _ => some l

def saveKey? (l : Lexer) : Option Lexer :=
  if !l.keyAllowed then some l
  else do
    let l ← l.dropKey?
    let c := l.cursor
    let place : KeyPlace :=
      ⟨!l.inFlow && l.indent == c.column, l.tokens.size, c.index, c.line, c.column⟩
    return { l with keys := some place :: l.keys.tail }

/-- A key ends in its line and within 1024 characters; a place too far back is no longer one. -/
def freshKey? (c : Cursor) : Option KeyPlace → Option (Option KeyPlace)
  | none => some none
  | some k =>
    if k.line < c.line ∨ k.index + 1024 < c.index then
      if k.isRequired then none else some none
    else some (some k)

def dropStaleKeys? (l : Lexer) : Option Lexer :=
  (l.keys.mapM (freshKey? l.cursor)).map fun keys => { l with keys }

/-- Passes over blanks, comments and line breaks; after a line break a key may begin, outside of
brackets. Tabs do not count as blanks where a key may begin. -/
def skipToToken : (fuel : Nat) → Lexer → Lexer
  | 0, l => l
  | fuel + 1, l =>
    let c := l.cursor
    let c := if c.index = 0 ∧ c.peek = some '\ufeff' then c.skip 1 else c
    let c := c.skipWhile fun a => a == ' ' || ((l.inFlow || !l.keyAllowed) && a == '\t')
    let c := if c.peek = some '#' then c.skipWhile fun a => !isBreak a else c
    match c.lineBreak? with
    | none => { l with cursor := c }
    | some (_, c) => skipToToken fuel { l with cursor := c, keyAllowed := l.keyAllowed || !l.inFlow }

def versionNumber? (c : Cursor) : Option (Nat × Cursor) :=
  let (ds, c) := c.takeWhile Numeral.isDigit
  if ds = [] ∨ 9 < ds.length then none else some (Numeral.valueFrom 0 ds, c)

/-- An exclamation mark, word characters and another exclamation mark, which a mark on its own or,
outside of directives, word characters may lack. -/
def tagHandle? (inDirective : Bool) (c : Cursor) : Option (List Char × Cursor) :=
  if c.peek ≠ some '!' then none
  else
    let (word, c) := (c.skip 1).takeWhile isWordChar
    if c.peek = some '!' then some ('!' :: word ++ ['!'], c.skip 1)
    else if inDirective ∧ word ≠ [] then none
    else some ('!' :: word, c)

def isUriChar (verbatim : Bool) (c : Char) : Bool :=
  isWordChar c || ";/?:@&=+$.!~*'()".toList.contains c || (verbatim && (c == ',' || c == '[' || c == ']'))

def hexOctet? (a b : Char) : Option Nat := do return 16 * (← Json.hexValue? a) + (← Json.hexValue? b)

/-- How many octets follow the first one of a character in UTF-8. -/
def followers? (octet : Nat) : Option Nat :=
  if octet < 0x80 then some 0
  else if 0xC0 ≤ octet ∧ octet < 0xE0 then some 1
  else if 0xE0 ≤ octet ∧ octet < 0xF0 then some 2
  else if 0xF0 ≤ octet ∧ octet < 0xF8 then some 3
  else none

/-- The characters of an address; `due` escaped octets still belong to the last character. Octets
are kept as they are. -/
def uri? (verbatim : Bool) (due : Nat) : List Char → Option (List Char × Nat)
  | [] => if due = 0 then some ([], 0) else none
  | '%' :: a :: b :: r => do
    let octet ← hexOctet? a b
    let due ← if due = 0 then followers? octet
      else if 0x80 ≤ octet ∧ octet < 0xC0 then some (due - 1) else none
    let (text, width) ← uri? verbatim due r
    return (Char.ofNat octet :: text, width + 3)
  | c :: r =>
    if due ≠ 0 ∨ c = '%' then none
    else if isUriChar verbatim c then (uri? verbatim 0 r).map fun (text, width) => (c :: text, width + 1)
    else some ([], 0)

def readUri? (verbatim : Bool) (c : Cursor) : Option (List Char × Cursor) :=
  (uri? verbatim 0 c.rest).map fun (text, width) => (text, c.skip width)

/-- The rest of a directive's line: blanks and a comment. -/
def endDirective? (c : Cursor) : Option Cursor :=
  let c := c.skipWhile isBlank
  let c := if c.peek = some '#' then c.skipWhile fun a => !isBreak a else c
  match c.lineBreak? with
  | some (_, c) => some c
  | none => if c.rest = [] then some c else none

def directive? (c : Cursor) : Option (Token × Cursor) := do
  let (name, c) := (c.skip 1).takeWhile isWordChar
  if !Cursor.endsWord c.peek then none
  let c := c.skipWhile isBlank
  if name = "YAML".toList then
    let (major, c) ← versionNumber? c
    if c.peek ≠ some '.' then none
    let (minor, c) ← versionNumber? (c.skip 1)
    return (.version major minor, ← endDirective? c)
  else if name = "TAG".toList then
    let (handle, c) ← tagHandle? true c
    if !c.peek.any isBlank then none
    let (lead, c) ← readUri? true (c.skipWhile isBlank)
    if lead = [] ∨ !Cursor.endsWord c.peek then none
    return (.tagHandle handle lead, ← endDirective? c)
  else none

/-- The name of an anchor or alias, after its indicator. -/
def anchorName? (c : Cursor) : Option (List Char × Cursor) :=
  let (name, c) := (c.skip 1).takeWhile isWordChar
  if name = [] then none
  else if Cursor.endsWord c.peek ∨ c.peek.any "?:,]\x7d%@\x60".toList.contains then some (name, c)
  else none

def tag? (inFlow : Bool) (c : Cursor) : Option (Token × Cursor) := do
  let (t, c) ←
    if c.peekAt 1 = some '<' then do
      let (suffix, c) ← readUri? true (c.skip 2)
      if suffix = [] ∨ c.peek ≠ some '>' then none
      some (Token.tag [] suffix, c.skip 1)
    else do
      let (handle, c) ← tagHandle? false c
      if 1 < handle.length ∧ handle.getLast? = some '!' then do
        let (suffix, c) ← readUri? false c
        if suffix = [] then none
        some (Token.tag handle suffix, c)
      else do
        let (suffix, c) ← readUri? false c
        let suffix := handle.tail ++ suffix
        some (if suffix = [] then Token.tag [] ['!'] else Token.tag ['!'] suffix, c)
  if Cursor.endsWord c.peek ∨ (inFlow ∧ c.peek = some ',') then some (t, c) else none

def documentMark? (l : Lexer) (t : Token) : Option Lexer :=
  (l.closeBlocks (-1)).dropKey?.map fun l => ((l.allowKey false).push t).skip 3

def openFlow? (l : Lexer) (t : Token) : Option Lexer :=
  l.saveKey?.map fun l => ({ l with keys := none :: l.keys, keyAllowed := true }.push t).skip 1

def closeFlow? (l : Lexer) (t : Token) : Option Lexer :=
  l.dropKey?.map fun l =>
    let keys := if l.inFlow then l.keys.tail else l.keys
    ({ l with keys, keyAllowed := false }.push t).skip 1

def comma? (l : Lexer) : Option Lexer :=
  l.dropKey?.map fun l => ((l.allowKey true).push .flowEntry).skip 1

def dash? (l : Lexer) : Option Lexer :=
  if !l.inFlow ∧ !l.keyAllowed then none
  else (l.openBlockHere .blockSequenceStart).dropKey?.map fun l =>
    ((l.allowKey true).push .blockEntry).skip 1

def explicitKey? (l : Lexer) : Option Lexer :=
  if !l.inFlow ∧ !l.keyAllowed then none
  else (l.openBlockHere .blockMappingStart).dropKey?.map fun l =>
    ((l.allowKey (!l.inFlow)).push .key).skip 1

def value? (l : Lexer) : Option Lexer :=
  match l.keys with
  | some k :: rest =>
    let l := { l with
      tokens := l.tokens.insertIdxIfInBounds k.position .key, keys := none :: rest, keyAllowed := false }
    some (((l.openBlock k.column k.position .blockMappingStart).push .value).skip 1)
  | _ =>
    if !l.inFlow ∧ !l.keyAllowed then none
    else
      let l := l.openBlockHere .blockMappingStart
      some (((l.allowKey (!l.inFlow)).push .value).skip 1)

/-- A token that may begin a key and ends at a given place. -/
def atom? (l : Lexer) (read : Lexer → Option (Token × Cursor)) : Option Lexer := do
  let l ← l.saveKey?
  let (t, c) ← read l
  return { (l.allowKey false).push t with cursor := c }

def block? (l : Lexer) (style : Style) : Option Lexer := do
  let l ← l.dropKey?
  let (text, c) ← readBlock (style == .literal) l.indent (l.cursor.skip 1)
  return { (l.allowKey true).push (.scalar text style) with cursor := c }

def quoted? (l : Lexer) (style : Style) : Option Lexer :=
  l.atom? fun l => do
    let c := l.cursor.skip 1
    let (text, c) ← readQuoted (style == .singleQuoted) (c.rest.length + 1) [] c
    return (.scalar text style, c)

/-- After a plain scalar that ran into further lines, a key may begin. -/
def plain? (l : Lexer) : Option Lexer := do
  let l ← l.saveKey?
  let (text, g, c) ←
    readPlain l.inFlow (l.indent + 1).toNat (l.cursor.rest.length + 1) [] {} l.cursor
  return { (l.allowKey g.isBroken).push (.scalar text .plain) with cursor := c }

def beginsPlain (l : Lexer) (c : Char) (next : Option Char) : Bool :=
  !(isBlankOrBreak c || "-?:,[]\x7b\x7d#&*!|>'\"%@\x60".toList.contains c) ||
    (c == '-' && !next.any isBlank) ||
    (!l.inFlow && (c == '?' || c == ':') && !Cursor.endsWord next)

/-- Reads the token that begins with `c`. -/
def token? (l : Lexer) (c : Char) : Option Lexer :=
  let cur := l.cursor
  let next := cur.peekAt 1
  let alone := l.inFlow || Cursor.endsWord next
  if cur.column = 0 ∧ c = '%' then do
    let l ← (l.closeBlocks (-1)).dropKey?
    let (t, c) ← directive? l.cursor
    return { (l.allowKey false).push t with cursor := c }
  else if cur.isAtMarker '-' then l.documentMark? .documentStart
  else if cur.isAtMarker '.' then l.documentMark? .documentEnd
  else if c = '[' then l.openFlow? .flowSequenceStart
  else if c = '\x7b' then l.openFlow? .flowMappingStart
  else if c = ']' then l.closeFlow? .flowSequenceEnd
  else if c = '\x7d' then l.closeFlow? .flowMappingEnd
  else if c = ',' then l.comma?
  else if c = '-' ∧ Cursor.endsWord next then l.dash?
  else if c = '?' ∧ alone then l.explicitKey?
  else if c = ':' ∧ alone then l.value?
  else if c = '*' then l.atom? fun l => (anchorName? l.cursor).map fun (n, c) => (.alias n, c)
  else if c = '&' then l.atom? fun l => (anchorName? l.cursor).map fun (n, c) => (.anchor n, c)
  else if c = '!' then l.atom? fun l => tag? l.inFlow l.cursor
  else if c = '|' ∧ !l.inFlow then l.block? .literal
  else if c = '>' ∧ !l.inFlow then l.block? .folded
  else if c = '\'' then l.quoted? .singleQuoted
  else if c = '"' then l.quoted? .doubleQuoted
  else if l.beginsPlain c next then l.plain?
  else none

/-- Reads on to the end of the text. Every token takes a character, so the length of the text is
fuel enough. -/
def run? : (fuel : Nat) → Lexer → Option Lexer
  | 0, _ => none
  | fuel + 1, l => do
    let l ← (skipToToken l.cursor.rest.length.succ l).dropStaleKeys?
    let l := l.closeBlocks l.cursor.column
    match l.cursor.peek with
    | none => (l.closeBlocks (-1)).dropKey?
    | some c => run? fuel (← l.token? c)

end Lexer

/-- The tokens of a text without foreign characters. -/
def tokens? (cs : List Char) : Option (List Token) :=
  if cs.all isAllowed then
    (Lexer.run? (cs.length + 1) { cursor := { rest := cs } }).map (·.tokens.toList)
  else none

end PlatformSnapshot.Yaml
