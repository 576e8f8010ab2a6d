import PlatformSnapshot.Fault
import PlatformSnapshot.SortedMap
import PlatformSnapshot.Text.Blank
import PlatformSnapshot.Text.Split
import PlatformSnapshot.Text.Numeral
/-!
Records of the processor descriptor. A record is a maximal run of non-blank lines, each a key and a
value around its first colon; of two lines with one key the later counts. The lines are cut before
any record is looked at, so a line without a colon is reported ahead of every other fault.
-/
namespace PlatformSnapshot.Processor

open Text

abbrev Record := SortedMap String String

/-- Key and value around the first colon, without the blanks around them. -/
def pair? (line : List Char) : Option (String × String) :=
  (splitOnce? ':' line).map fun (k, v) => (.ofList (trim k), .ofList (trim v))

/-- Puts a record in front unless it is empty. -/
def close (current : Record) (rest : List Record) : List Record :=
  if current.entries.isEmpty then rest else current :: rest

/-- The records of the lines from number `n` on, with the fields so far of the record that is open. -/
def recordsFrom (n : Nat) (current : Record) : List (List Char) → Except Fault (List Record)
  | [] => .ok (close current [])
  | line :: rest =>
    if isBlankLine line then (recordsFrom (n + 1) ∅ rest).map (close current)
    else match pair? line with
      | none => .error (.notAPair n (.ofList line))
      | some (k, v) => recordsFrom (n + 1) (current.insert k v) rest

def records (content : String) : Except Fault (List Record) :=
  recordsFrom 1 ∅ (lines content.toList)

/-- Where a logical processor sits. -/
structure Seat where
  id : UInt32
  socket : UInt32
  core : UInt32
  deriving DecidableEq, Repr

def field (r : Record) (key : String) : Except Fault UInt32 :=
  match r.get? key with
  | none => .error (.missingKey key)
  | some value =>
    match Numeral.word32? value.toList with
    | none => .error (.notAnInteger key value)
    | some n => .ok n

def seat (r : Record) : Except Fault Seat := do
  let id ← field r "processor"
  let socket ← field r "physical id"
  let core ← field r "core id"
  return ⟨id, socket, core⟩

/-- The seats of all records, or the fault of the first record that has one. -/
def seats : List Record → Except Fault (List Seat)
  | [] => .ok []
  | r :: rs => do return (← seat r) :: (← seats rs)

end PlatformSnapshot.Processor
