import PlatformSnapshot.IdSet
import PlatformSnapshot.Text.Blank
import PlatformSnapshot.Text.Split
import PlatformSnapshot.Text.Numeral
/-!
The kernel's list format for sets of ids: single ids and inclusive ranges between commas. Reading
expands the ranges; writing gives the canonical form, which has every id once, in ascending order,
and no range.
-/
namespace PlatformSnapshot.IdList

open Text

inductive Error where
  | invalidToken (token : String)
  | reversedRange (first last : UInt32)
  deriving DecidableEq, Repr

def Error.message : Error → String
  | .invalidToken token => s!"invalid token '{token}'"
  | .reversedRange first last => s!"range start {first} is greater than end {last}"

/-- An id with optional blanks around it. -/
def bound? (cs : List Char) : Option UInt32 := Numeral.word32? (trim cs)

/-- The ids of one token: an id, or two ids around the first dash. -/
def token (cs : List Char) : Except Error (List UInt32) :=
  let invalid := Error.invalidToken (.ofList (trim cs))
  match splitOnce? '-' cs with
  | none =>
    match bound? cs with
    | some a => .ok [a]
    | none => .error invalid
  | some (l, r) =>
    match bound? l, bound? r with
    | some a, some b => if b < a then .error (.reversedRange a b) else .ok (IdSet.interval a b)
    | _, _ => .error invalid

/-- The ids of all tokens, unless one is wrong: then the error of the first wrong one. -/
def tokens : List (List Char) → Except Error (List UInt32)
  | [] => .ok []
  | t :: ts =>
    match token t with
    | .error e => .error e
    | .ok ids =>
      match tokens ts with
      | .error e => .error e
      | .ok rest => .ok (ids ++ rest)

/-- Blanks around the whole list count for nothing, and a list of blanks alone is the empty set. -/
def decode (text : String) : Except Error IdSet :=
  match trim text.toList with
  | [] => .ok ∅
  | cs => (tokens (splitOn ',' cs)).map IdSet.ofList

/-- An absent list is the empty set. -/
def decode? (text : Option String) : Except Error IdSet :=
  match text with
  | none => .ok ∅
  | some text => decode text

def joinWith (sep : Char) : List (List Char) → List Char
  | [] => []
  | [w] => w
  | w :: ws => w ++ sep :: joinWith sep ws

def encode (s : IdSet) : String :=
  .ofList (joinWith ',' (s.ids.map fun a => Numeral.ofNat a.toNat))

end PlatformSnapshot.IdList
