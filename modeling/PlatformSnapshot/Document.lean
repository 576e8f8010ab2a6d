import PlatformSnapshot.Number.Binary64
/-!
Documents: what a report or a set of settings is before it is written in some format. The entries of
a table stand in the order in which they are written; its keys are names or ids.
-/
namespace PlatformSnapshot

namespace Document

inductive Key where
  | name (text : String)
  | id (n : Nat)
  deriving DecidableEq, Repr

end Document

inductive Document where
  | null
  | flag (b : Bool)
  | integer (n : Int)
  | number (x : Binary64)
  | text (s : String)
  | list (items : List Document)
  | table (entries : List (Document.Key × Document))
  deriving Inhabited

namespace Document

def ofOption (f : α → Document) : Option α → Document
  | none => .null
  | some a => f a

/-- A table with named entries. -/
def record (entries : List (String × Document)) : Document :=
  .table (entries.map fun e => (.name e.1, e.2))

end Document
end PlatformSnapshot
