import PlatformSnapshot.SortedMap
import PlatformSnapshot.Attempt
import PlatformSnapshot.Files.Path
import PlatformSnapshot.Memory.Used
/-!
Memory nodes: the free and used memory of each and the processors that belong to it. A node is an
entry of the node directory whose name is `node` and a number; all other entries are passed over.
Nodes are all read or none: one broken node fails the whole reading.
-/
namespace PlatformSnapshot

open Text

/-- The free and used memory of one node in bytes, where its file gives them. -/
structure NodeMemory where
  free : Option Int64 := none
  used : Option Int64 := none
  deriving DecidableEq

namespace NodeMemory

inductive Kind where
  | free | used
  deriving DecidableEq, Repr

def Kind.key : Kind → String
  | .free => "MemFree:"
  | .used => "MemUsed:"

def Kind.ofKey? (key : List Char) : Option Kind :=
  [Kind.free, .used].find? fun k => k.key.toList = key

def set (m : NodeMemory) (value : Int64) : Kind → NodeMemory
  | .free => { m with free := some value }
  | .used => { m with used := some value }

/-- The kind and the amount of a line of five words whose third is a known key. -/
def figure? (line : List Char) : Option (Kind × List Char) :=
  match words line with
  | [_, _, key, amount, _] => (Kind.ofKey? key).map fun k => (k, amount)
  | _ => none

def amount (k : Kind) (w : List Char) : Except Fault Int64 :=
  match Numeral.int64? w with
  | none => .error (.badAmount (.ofList w) k.key)
  | some kib =>
    match UsedMemory.bytes? kib with
    | none => .error (.amountOverflow k.key kib)
    | some n => .ok n

def figures (m : NodeMemory) : List (List Char) → Except Fault NodeMemory
  | [] => .ok m
  | line :: rest =>
    match figure? line with
    | none => figures m rest
    | some (k, w) =>
      match amount k w with
      | .error e => .error e
      | .ok n => figures (m.set n k) rest

def parse (content : String) : Except Fault NodeMemory := figures {} (lines content.toList)

end NodeMemory

structure Nodes where
  free : SortedMap UInt32 Int64 := ∅
  used : SortedMap UInt32 Int64 := ∅
  cpus : SortedMap UInt32 IdSet := ∅
  deriving DecidableEq

namespace Nodes

/-- The id in the name of a node's directory. -/
def id? (name : String) : Option UInt32 :=
  match after? "node".toList name.toList with
  | none => none
  | some digits =>
    (Numeral.digits? digits).bind fun n => if n < UInt32.size then some (.ofNat n) else none

/-- What one node's directory says. -/
structure Reading where
  memory : NodeMemory
  cpus : IdSet

def attemptNode (dir : String) : Attempt Reading := do
  let memory ← .parsed (Path.join dir "meminfo") .malformed NodeMemory.parse
  let cpus ← .parsed (Path.join dir "cpulist") .badList IdList.decode
  return ⟨memory, cpus⟩

def insertSome (m : SortedMap UInt32 Int64) (id : UInt32) : Option Int64 → SortedMap UInt32 Int64
  | none => m
  | some n => m.insert id n

def add (n : Nodes) (id : UInt32) (r : Reading) : Nodes :=
  ⟨insertSome n.free id r.memory.free, insertSome n.used id r.memory.used, n.cpus.insert id r.cpus⟩

/-- Reads the nodes among some entries of the node directory. -/
def attemptEntries (root : String) (n : Nodes) : List String → Attempt Nodes
  | [] => return n
  | name :: rest =>
    match id? name with
    | none => attemptEntries root n rest
    | some id => do attemptEntries root (n.add id (← attemptNode (Path.join root name))) rest

def attempt (root : String) : Attempt Nodes := do attemptEntries root {} (← .listing root)

def readNode (view : Files.Access) (dir : String) : Except SourceError Reading := (attemptNode dir).outcome view

def readEntries (view : Files.Access) (root : String) (n : Nodes) (names : List String) : Except SourceError Nodes :=
  (attemptEntries root n names).outcome view

def read (view : Files.Access) (root : String) : Except SourceError Nodes := (attempt root).outcome view

end Nodes
end PlatformSnapshot
