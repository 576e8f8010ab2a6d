import PlatformSnapshot.Toml.Value
/-!
Tables of a TOML text. A header opens a table that holds the entries up to the next header; tables
are nested by their headers when the text is read as a whole. A table must not be opened twice
within the item of a list of tables that it belongs to, and a plain table cannot become a list.
-/
namespace PlatformSnapshot.Toml

structure Table where
  header : List (List Char)
  isListItem : Bool
  /-- What the table holds, until it is visited. -/
  entries : Option (List (List Char × Value))
  deriving Inhabited

open Read

def endLine : Read Unit := do
  skipBlanks
  let _ ← accept .comment
  unless (← get) = [] do expect .newline

def header (fuel : Nat) : Read Table := do
  expect .openBracket
  let isListItem ← accept .openBracket
  skipBlanks
  let ks ← dottedKey fuel
  expect .closeBracket
  if isListItem then expect .closeBracket
  endLine
  return ⟨ks, isListItem, some []⟩

/-- The tables from an open one on. -/
def tablesFrom : (fuel : Nat) → Table → Read (List Table)
  | 0, _ => failure
  | fuel + 1, current => do
    skipLines fuel
    let close (ts : List Table) : List Table :=
      if current.header = [] ∧ current.entries.isNone then ts else current :: ts
    match ← peek with
    | none => return close []
    | some .openBracket => return close (← tablesFrom fuel (← header fuel))
    | some _ =>
      let ks ← dottedKey fuel
      expect .equals
      skipBlanks
      let v ← value fuel
      endLine
      let es ← (withPair? v ks (current.entries.getD []) : Option _)
      tablesFrom fuel { current with entries := some es }

/-- The tables of a text in order, a first one without header for the entries before all headers.
Every step takes a token or comes right before one that does. -/
def tables? (s : String) : Option (List Table) := do
  let ts ← tokens? s
  let (tables, _) ← (tablesFrom (3 * ts.length + 3) ⟨[], false, none⟩).run ts
  return tables

/-- The tables, of which the visited ones have lost their entries. -/
abbrev Visit := StateT (List Table) Option

/-- The first table from `cur` up to `max` that is not visited and lies under a row of keys. -/
def firstUnder? (ts : List Table) (under : List (List Char)) (cur max : Nat) : Option Nat :=
  (List.range max).find? fun i =>
    cur ≤ i && (ts[i]?).any fun t => t.entries.isSome && under.isPrefixOf t.header

def tableAt (i : Nat) : Visit Table := do
  match (← get)[i]? with
  | some t => return t
  | none => failure

/-- The entries of a table that is visited now. -/
def takeEntries (i : Nat) : Visit (List (List Char × Value)) := do
  match (← tableAt i).entries with
  | none => failure
  | some es =>
    modify fun ts => ts.modify i fun t => { t with entries := none }
    return es

mutual

/-- Visits the tables from `cur` up to `max` that lie under the first `depth` keys of a parent. A
member is a key with its value, or with none if tables stand for the value. -/
def visitTable : (fuel depth parent cur max : Nat) → Visit (List (List Char × Option Value))
  | 0, _, _, _, _ => failure
  | fuel + 1, depth, parent, cur, max => do
    if parent = max ∨ cur = max then return []
    let p ← tableAt parent
    match firstUnder? (← get) (p.header.take depth) cur max with
    | none => return []
    | some i =>
      let t ← tableAt i
      if parent ≠ i ∧ t.header = p.header then failure
      let parent := if parent ≠ i ∧ t.header.length < p.header.length then i else parent
      match t.header[depth]? with
      | none =>
        if t.isListItem then failure
        let es ← takeEntries i
        return es.map (fun e => (e.1, some e.2)) ++ (← visitTable fuel depth parent i max)
      | some k =>
        if t.isListItem ∧ depth + 1 = t.header.length then visitItems fuel depth i max
        else let _ ← visitTable fuel (depth + 1) i 0 max
        return (k, none) :: (← visitTable fuel depth parent (i + 1) max)

/-- Visits the items of a list of tables from one item on; each reaches to the next. -/
def visitItems : (fuel depth item max : Nat) → Visit Unit
  | 0, _, _, _ => failure
  | fuel + 1, depth, item, max => do
    if item = max then return ()
    let t ← tableAt item
    let ts ← get
    let next := ((List.range max).find? fun i =>
      item < i && (ts[i]?).any fun u => u.isListItem && u.header == t.header).getD max
    let _ ← takeEntries item
    let _ ← visitTable fuel (depth + 1) item 0 next
    visitItems fuel depth next max

end

/-- The members at the top of a text. A visit goes no deeper than the headers and takes at most two
steps for each table on every level. -/
def members? (s : String) : Option (List (List Char × Option Value)) := do
  let ts ← tables? s
  let deepest := (ts.flatMap fun t => t.header).length
  let (ms, _) ← (visitTable ((deepest + 2) * (3 * ts.length + 4)) 0 0 0 ts.length).run ts
  return ms

end PlatformSnapshot.Toml
