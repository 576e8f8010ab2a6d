import PlatformSnapshot.Files.Access
import PlatformSnapshot.Files.Path
/-!
A file system as a value: a tree of directories whose leaves hold bytes. A path is walked name by
name from the top directory; empty names and `.` stay where they are but demand a directory, and `..`
goes back. Outside the tree, above its top or on an absolute path, there are only empty directories.
-/
namespace PlatformSnapshot.Files

inductive Node where
  | file (content : ByteArray)
  | directory (entries : List (String × Node))
  deriving Inhabited

abbrev Tree := List (String × Node)

namespace Node

/-- Follows the names from a node, with the directories above it for `..`. -/
def walk (above : List Node) (here : Node) : List String → Except ReadFailure Node
  | [] => .ok here
  | name :: rest =>
    match here with
    | .file _ => .error .notADirectory
    | .directory entries =>
      if name = "" ∨ name = "." then walk above here rest
      else if name = ".." then
        match above with
        | [] => walk [] (.directory []) rest
        | up :: above => walk above up rest
      else if 255 < name.utf8ByteSize then .error .nameTooLong
      else match entries.lookup name with
        | none => .error .notFound
        | some next => walk (here :: above) next rest

end Node

namespace Tree

def locate (t : Tree) (path : String) : Except ReadFailure Node :=
  if path.contains '\x00' then .error .nameWithNul
  else if 4096 ≤ path.utf8ByteSize then .error .nameTooLong
  else match Path.components path with
    | [] | [""] => .error .notFound
    | "" :: rest => if rest.all fun n => n == "" || n == "." then .ok (.directory []) else .error .notFound
    | names => Node.walk [] (.directory t) names

def read (t : Tree) (path : String) : Except ReadFailure String := do
  match ← t.locate path with
  | .directory _ => .error .isADirectory
  | .file content =>
    match String.fromUTF8? content with
    | some text => .ok text
    | none => .error .notText

def list (t : Tree) (path : String) : Except ReadFailure (List String) := do
  match ← t.locate path with
  | .directory entries => .ok (entries.map (·.1))
  | .file _ => .error .notADirectory

def has (t : Tree) (path : String) : Bool := (t.locate path).isOk

def access (t : Tree) : Access := ⟨t.read, t.list, t.has⟩

/-- Binds a name, in place if it is there already. -/
def put (name : String) (f : Option Node → Node) : Tree → Tree
  | [] => [(name, f none)]
  | e :: es => if e.1 = name then (name, f (some e.2)) :: es else e :: put name f es

/-- Puts a node at the end of a row of names and makes the directories on the way; an existing
directory stays as it is where a directory is put. -/
def graft (node : Node) : List String → Tree → Tree
  | [], t => t
  | [name], t =>
    put name (fun old =>
      match node, old with
      | .directory _, some (.directory es) => .directory es
      | _, _ => node) t
  | name :: rest, t =>
    put name (fun old =>
      match old with
      | some (.directory es) => .directory (graft node rest es)
      | _ => .directory (graft node rest [])) t

def prune : List String → Tree → Tree
  | [], t => t
  | [name], t => t.filter (·.1 != name)
  | name :: rest, t =>
    t.map fun e =>
      match e with
      | (n, .directory es) => if n = name then (n, .directory (prune rest es)) else e
      | e => e

/-- The names of a path inside the tree, without the empty ones and `.`. -/
def names (path : String) : List String :=
  (Path.components path).filter fun n => n != "" && n != "."

def write (t : Tree) (path : String) (content : ByteArray) : Tree := graft (.file content) (names path) t

def makeDirectory (t : Tree) (path : String) : Tree := graft (.directory []) (names path) t

def remove (t : Tree) (path : String) : Tree := prune (names path) t

end Tree
end PlatformSnapshot.Files
