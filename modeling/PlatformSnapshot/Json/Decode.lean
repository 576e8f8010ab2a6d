import PlatformSnapshot.Json.Term
import PlatformSnapshot.Fields
import PlatformSnapshot.SortedMap
import PlatformSnapshot.IdSet
/-!
Reading typed values off terms. Integers have to be written as such and lie in the range asked for.
A record is read by the names of its fields: one given twice is refused, a foreign one is passed
over, and a list with exactly one item for each field will do as well. A map takes the last value
given for a key, and its keys are integers between quotes.
-/
namespace PlatformSnapshot.Json

def decodeText? (raw : List Char) : Option String := (unescape? raw).map .ofList

/-- An integer without leading zeros; there is no minus zero. -/
def decodeInteger? (raw : List Char) : Option Int :=
  match raw with
  | '-' :: ds => if ds.head? = some '0' then none else (Numeral.digits? ds).map fun n => -(n : Int)
  | ds => if ds.head? = some '0' ∧ ds ≠ ['0'] then none else (Numeral.digits? ds).map Int.ofNat

namespace Term

def text? : Term → Option String
  | .text raw => decodeText? raw
  | _ => none

def flag? : Term → Option Bool
  | .flag b => some b
  | _ => none

def integer? : Term → Option Int
  | .number raw => decodeInteger? raw
  | _ => none

def inWord32? (n : Int) : Option UInt32 :=
  if 0 ≤ n ∧ n.toNat < UInt32.size then some (.ofNat n.toNat) else none

def word32? (t : Term) : Option UInt32 := t.integer?.bind inWord32?

def word64? (t : Term) : Option UInt64 :=
  t.integer?.bind fun n => if 0 ≤ n ∧ n.toNat < UInt64.size then some (.ofNat n.toNat) else none

def count? (t : Term) : Option Nat := t.word64?.map (·.toNat)

def int64? (t : Term) : Option Int64 := t.integer?.bind Numeral.inInt64?

def list? (f : Term → Option α) : Term → Option (List α)
  | .list items => items.mapM f
  | _ => none

def idSet? (t : Term) : Option IdSet := (t.list? word32?).map .ofList

def idMap? (f : Term → Option α) : Term → Option (SortedMap UInt32 α)
  | .record members =>
    (members.mapM fun (key, t) => do
      return (← (decodeInteger? key).bind inWord32?, ← f t)).map .ofList
  | _ => none

/-- The fields of a record, each known by one or more names, in the order asked for. -/
def fields? (names : List (List String)) : Term → Option (List (Option Term))
  | .record members => do
    let members ← members.mapM fun (key, t) => do return (← decodeText? key, t)
    Fields.pickAll? names members
  | .list items => if items.length = names.length then some (items.map some) else none
  | _ => none

def required? (f : Term → Option α) (t : Option Term) : Option α := t.bind f

/-- A field that may be missing or null. -/
def optional? (f : Term → Option α) : Option Term → Option (Option α)
  | none | some .null => some none
  | some t => (f t).map some

end Term
end PlatformSnapshot.Json
