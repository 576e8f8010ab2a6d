import PlatformSnapshot.Text.Split
/-!
Paths as text. Joining adds a slash only where one is missing and normalises nothing, so a report
names a file exactly as its root was given.
-/
namespace PlatformSnapshot.Path

open Text (splitOn)

def join (root name : String) : String :=
  match root.toList.getLast? with
  | none => name
  | some c => if c = '/' then root ++ name else root ++ "/" ++ name

/-- The names between the slashes, the empty ones included. -/
def components (path : String) : List String := (splitOn '/' path.toList).map .ofList

/-- The last name that is no empty step and no step in place. -/
def fileName? (path : String) : Option String :=
  match ((components path).filter fun n => n != "" && n != ".").getLast? with
  | some ".." => none
  | name => name

/-- What follows the last point of a name, unless the name begins with that point. -/
def extensionOf (name : List Char) : Option (List Char) :=
  match (splitOn '.' name).reverse with
  | last :: before :: rest => if before = [] ∧ rest = [] then none else some last
  | _ => none

def extension? (path : String) : Option String :=
  (fileName? path).bind fun name => (extensionOf name.toList).map .ofList

end PlatformSnapshot.Path
