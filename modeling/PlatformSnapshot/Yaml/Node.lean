import PlatformSnapshot.Yaml.Token
/-!
Nodes of a YAML text. An alias is kept as a number and resolved when its content is asked for, so
a node may stand within itself. The number of an anchor is the count of the names so far: naming an
anchor anew moves its name to another number, which a later name may come to share.
-/
namespace PlatformSnapshot.Yaml

structure Scalar where
  text : List Char
  style : Style
  tag : Option (List Char) := none
  deriving DecidableEq

inductive Node where
  | scalar (s : Scalar)
  | sequence (items : List Node)
  | mapping (entries : List (Node × Node))
  | alias (number : Nat)
  deriving Inhabited

/-- The anchors so far: the number of each name, and what each number stands for, the latest first;
sequences and mappings are only known to be none. -/
structure Anchors where
  numbers : List (List Char × Nat) := []
  contents : List (Nat × Option Scalar) := []

namespace Anchors

def define (a : Anchors) (name : List Char) (content : Option Scalar) : Anchors :=
  let number := a.numbers.length
  { numbers := (name, number) :: a.numbers.filter (·.1 != name)
    contents := (number, content) :: a.contents }

end Anchors

/-- A reading position among the tokens. -/
structure Reading where
  tokens : List Token
  handles : List (List Char × List Char)
  anchors : Anchors := {}

abbrev Read := StateT Reading Option

namespace Read

def peek : Read (Option Token) := do return (← get).tokens.head?

def skip : Read Unit := modify fun r => { r with tokens := r.tokens.tail }

/-- Passes over the next token if it is the given one. -/
def accept (t : Token) : Read Bool := do
  if (← peek) = some t then skip; return true
  else return false

/-- Whether the next token is one of some, or missing. -/
def isBefore (ts : List Token) : Read Bool := do
  match ← peek with
  | none => return false
  | some t => return ts.contains t

end Read

open Read

/-- The scalar of a missing node. -/
def emptyScalar : Scalar := ⟨[], .plain, none⟩

/-- Anchor and tag before a node. -/
structure Properties where
  anchor : Option (List Char) := none
  tag : Option (List Char × List Char) := none

def readProperties : Read Properties := do
  match ← peek with
  | some (.anchor a) =>
    skip
    match ← peek with
    | some (.tag h s) => skip; return ⟨a, some (h, s)⟩
    | _ => return ⟨a, none⟩
  | some (.tag h s) =>
    skip
    match ← peek with
    | some (.anchor a) => skip; return ⟨a, some (h, s)⟩
    | _ => return ⟨none, some (h, s)⟩
  | _ => return {}

/-- The full name of a tag: a handle stands for what a directive has declared for it. -/
def resolveTag (handle suffix : List Char) : Read (List Char) := do
  if handle = [] then return suffix
  match (← get).handles.lookup handle with
  | some lead => return lead ++ suffix
  | none => failure

def define (p : Properties) (content : Option Scalar) : Read Unit :=
  match p.anchor with
  | none => return ()
  | some name => modify fun r => { r with anchors := r.anchors.define name content }

mutual

/-- One node. Within brackets no block may open, and a sequence need not be indented only as the
value of a key. -/
def node : (fuel : Nat) → (inBlock mayIndentLess : Bool) → Read Node
  | 0, _, _ => failure
  | fuel + 1, inBlock, mayIndentLess => do
    if let some (.alias name) ← peek then
      skip
      match (← get).anchors.numbers.lookup name with
      | some number => return .alias number
      | none => failure
    let p ← readProperties
    let tag ← match p.tag with
      | none => pure none
      | some (h, s) => some <$> resolveTag h s
    match ← peek with
    | some (.scalar text style) =>
      skip
      -- A lone exclamation mark says no more than that the node is a scalar.
      let s : Scalar := ⟨text, style, if tag = some ['!'] then none else tag⟩
      define p s
      return .scalar s
    | some .blockEntry =>
      if mayIndentLess then define p none; .sequence <$> indentLessItems fuel
      else emptyNode p tag
    | some .flowSequenceStart => skip; define p none; .sequence <$> flowItems fuel true
    | some .flowMappingStart => skip; define p none; .mapping <$> flowEntries fuel true
    | some .blockSequenceStart =>
      if inBlock then skip; define p none; .sequence <$> blockItems fuel
      else emptyNode p tag
    | some .blockMappingStart =>
      if inBlock then skip; define p none; .mapping <$> blockEntries fuel
      else emptyNode p tag
    | _ => emptyNode p tag

/-- A node that is nothing but its properties. -/
def emptyNode (p : Properties) (tag : Option (List Char)) : Read Node := do
  if p.anchor = none ∧ p.tag = none then failure
  let s : Scalar := { emptyScalar with tag }
  define p s
  return .scalar s

/-- A node, or the empty scalar before one of some tokens. -/
def nodeUnless (fuel : Nat) (inBlock mayIndentLess : Bool) (ends : List Token) : Read Node :=
  match fuel with
  | 0 => failure
  | fuel + 1 => do
    if ← isBefore ends then return .scalar emptyScalar
    node fuel inBlock mayIndentLess

def blockItems : (fuel : Nat) → Read (List Node)
  | 0 => failure
  | fuel + 1 => do
    if ← accept .blockEnd then return []
    unless ← accept .blockEntry do failure
    let item ← nodeUnless fuel true false [.blockEntry, .blockEnd]
    return item :: (← blockItems fuel)

def indentLessItems : (fuel : Nat) → Read (List Node)
  | 0 => failure
  | fuel + 1 => do
    unless ← accept .blockEntry do return []
    let item ← nodeUnless fuel true false [.blockEntry, .key, .value, .blockEnd]
    return item :: (← indentLessItems fuel)

def blockEntries : (fuel : Nat) → Read (List (Node × Node))
  | 0 => failure
  | fuel + 1 => do
    if ← accept .blockEnd then return []
    unless ← accept .key do failure
    let ends := [Token.key, .value, .blockEnd]
    let key ← nodeUnless fuel true true ends
    let value ← if ← accept .value then nodeUnless fuel true true ends
      else pure (.scalar emptyScalar)
    return (key, value) :: (← blockEntries fuel)

def flowItems : (fuel : Nat) → (isFirst : Bool) → Read (List Node)
  | 0, _ => failure
  | fuel + 1, isFirst => do
    if ← accept .flowSequenceEnd then return []
    unless isFirst do unless ← accept .flowEntry do failure
    if ← accept .flowSequenceEnd then return []
    let item ← if ← accept .key then (fun e => .mapping [e]) <$> flowPair fuel
      else node fuel false false
    return item :: (← flowItems fuel false)

/-- A key and its value that stand as one item of a sequence. Where the key is missing, so is the
token that ends it, and with it the value. -/
def flowPair : (fuel : Nat) → Read (Node × Node)
  | 0 => failure
  | fuel + 1 => do
    let key ← if ← isBefore [.value, .flowEntry, .flowSequenceEnd] then
        skip; pure (.scalar emptyScalar)
      else node fuel false false
    let value ← if ← accept .value then
        nodeUnless fuel false false [.flowEntry, .flowSequenceEnd]
      else pure (.scalar emptyScalar)
    return (key, value)

def flowEntries : (fuel : Nat) → (isFirst : Bool) → Read (List (Node × Node))
  | 0, _ => failure
  | fuel + 1, isFirst => do
    if ← accept .flowMappingEnd then return []
    unless isFirst do unless ← accept .flowEntry do failure
    if ← accept .flowMappingEnd then return []
    let e ← if ← accept .key then do
        let key ← nodeUnless fuel false false [.value, .flowEntry, .flowMappingEnd]
        let value ← if ← accept .value then
            nodeUnless fuel false false [.flowEntry, .flowMappingEnd]
          else pure (.scalar emptyScalar)
        pure (key, value)
      else do
        let key ← node fuel false false
        pure (key, .scalar emptyScalar)
    return e :: (← flowEntries fuel false)

end

/-- The handles that stand for something without a directive. -/
def standardHandles : List (List Char × List Char) :=
  [("!".toList, "!".toList), ("!!".toList, "tag:yaml.org,2002:".toList)]

/-- Reads directives: at most one version, which is 1.1 or 1.2, and each handle once. -/
def directives? (hasVersion : Bool) (handles : List (List Char × List Char)) :
    List Token → Option (List (List Char × List Char) × List Token)
  | .version major minor :: ts =>
    if hasVersion ∨ major ≠ 1 ∨ (minor ≠ 1 ∧ minor ≠ 2) then none
    else directives? true handles ts
  | .tagHandle handle lead :: ts =>
    if (handles.lookup handle).isSome then none
    else directives? hasVersion ((handle, lead) :: handles) ts
  | ts => some (handles, ts)

structure Stream where
  root : Node
  anchors : Anchors

/-- The root of a document, of which nothing may be left after its mark. -/
def rootFrom? (fuel : Nat) (isExplicit : Bool) (handles : List (List Char × List Char))
    (tokens : List Token) : Option Stream := do
  let read : Read Node := do
    match ← peek with
    | none | some .documentEnd =>
      if isExplicit then return .scalar emptyScalar else node fuel true false
    | _ =>
      if isExplicit ∧ (← isBefore [.documentStart]) then return .scalar emptyScalar
      node fuel true false
  let (root, r) ← read.run { tokens, handles := handles ++ standardHandles }
  if r.tokens.all (· == .documentEnd) then some ⟨root, r.anchors⟩ else none

/-- The only document of a stream; a stream without any document is a success of its own. -/
def Stream.ofTokens? (ts : List Token) : Option (Option Stream) :=
  let fuel := 3 * ts.length + 3
  match ts with
  | [] => some none
  | .documentStart :: ts => (rootFrom? fuel true [] ts).map some
  | .version .. :: _ | .tagHandle .. :: _ =>
    match directives? false [] ts with
    | some (handles, .documentStart :: ts) => (rootFrom? fuel true handles ts).map some
    | _ => none
  | ts => (rootFrom? fuel false [] ts).map some

def Stream.ofText? (s : String) : Option (Option Stream) := (tokens? s.toList).bind ofTokens?

namespace Stream

/-- The scalar that a node is or stands for. -/
def scalar? (d : Stream) : Node → Option Scalar
  | .scalar s => some s
  | .alias number => (d.anchors.contents.lookup number).join
  | .sequence _ | .mapping _ => none

end Stream
end PlatformSnapshot.Yaml
