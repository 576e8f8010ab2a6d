import PlatformSnapshot.Number.DecimalRange
import PlatformSnapshot.Text.Split
import PlatformSnapshot.Json.Quoted
/-!
What a plain scalar without a tag means by its spelling: nothing, a truth value, a number, or else
text. Text that is spelled like one of the others has to be quoted. A number with a leading zero is
text, and so is one that no type of number can hold.
-/
namespace PlatformSnapshot.Yaml.Spelling

open Text (after?)

def isNull (cs : List Char) : Bool :=
  ["null", "Null", "NULL", "~"].any fun s => s.toList == cs

def flag? (cs : List Char) : Option Bool :=
  if ["true", "True", "TRUE"].any fun s => s.toList == cs then some true
  else if ["false", "False", "FALSE"].any fun s => s.toList == cs then some false
  else none

def isSign (c : Char) : Bool := c == '+' || c == '-'

def dropPlus : List Char → List Char
  | '+' :: r => r
  | cs => cs

/-- A leading zero and further digits, after an optional sign. -/
def hasLeadingZero (cs : List Char) : Bool :=
  let cs := match cs with
    | c :: r => if isSign c then r else c :: r
    | [] => []
  match cs with
  | '0' :: d :: r => (d :: r).all Numeral.isDigit
  | _ => false

/-- The number that digits of a base spell. -/
def inBase? (base : Nat) (cs : List Char) : Option Nat :=
  if cs = [] then none
  else cs.foldlM (fun n c =>
    (Json.hexValue? c).bind fun d => if d < base then some (base * n + d) else none) 0

def bases : List (String × Nat) := [("0x", 16), ("0o", 8), ("0b", 2)]

/-- A number with a base in front, as far as 128 bits reach. -/
def isBased (cs : List Char) : Bool :=
  bases.any fun (lead, base) =>
    let positive := (after? lead.toList (dropPlus cs)).bind (inBase? base)
    let negative := (after? ('-' :: lead.toList) cs).bind (inBase? base)
    positive.any (· < 1 <<< 128) || negative.any (· ≤ 1 <<< 127)

/-- A decimal as digits and a power of ten: digits with an optional point among or before them, and
an optional exponent. -/
def decimal? (cs : List Char) : Option (Nat × Int) :=
  let whole := cs.takeWhile Numeral.isDigit
  let r := cs.dropWhile Numeral.isDigit
  let (fraction, r) := match r with
    | '.' :: r => (r.takeWhile Numeral.isDigit, r.dropWhile Numeral.isDigit)
    | r => ([], r)
  if whole = [] ∧ fraction = [] then none
  else
    let m := Numeral.valueFrom 0 (whole ++ fraction)
    let k : Int := -(fraction.length : Int)
    match r with
    | [] => some (m, k)
    | c :: r =>
      if c = 'e' ∨ c = 'E' then (Numeral.integer? r).map fun n => (m, n + k) else none

def isInfinite (cs : List Char) : Bool :=
  [".inf", ".Inf", ".INF"].any fun s => s.toList == dropPlus cs || '-' :: s.toList == cs

def isNoNumber (cs : List Char) : Bool := [".nan", ".NaN", ".NAN"].any fun s => s.toList == cs

def isDecimal (cs : List Char) : Bool :=
  let digits := match cs with
    | c :: r => if isSign c then r else c :: r
    | [] => []
  (decimal? digits).any fun (m, k) => DecimalRange.isFinite m k

/-- Whether a text is spelled like something else than text. -/
def isAmbiguous (cs : List Char) : Bool :=
  cs.isEmpty || isNull cs || (flag? cs).isSome || hasLeadingZero cs || isBased cs || isDecimal cs ||
    isInfinite cs || isNoNumber cs

end PlatformSnapshot.Yaml.Spelling
