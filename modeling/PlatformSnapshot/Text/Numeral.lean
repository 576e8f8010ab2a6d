/-!
Decimal numerals with a range. A numeral is an optional sign and one or more ASCII digits, leading
zeros included; a minus sign is read only where the type has negative values. A numeral outside the
range of its type is no numeral of that type at all, so readers need a single failure.
-/
namespace PlatformSnapshot.Numeral

def isDigit (c : Char) : Bool := '0' ≤ c && c ≤ '9'

def digitValue (c : Char) : Nat := c.toNat - 48

/-- The number that a row of digits spells, most significant first, after the value `acc`. -/
def valueFrom (acc : Nat) : List Char → Nat
  | [] => acc
  | c :: r => valueFrom (10 * acc + digitValue c) r

/-- One or more digits and nothing else. -/
def digits? (cs : List Char) : Option Nat :=
  if !cs.isEmpty && cs.all isDigit then some (valueFrom 0 cs) else none

/-- A numeral without a minus sign. -/
def natural? : List Char → Option Nat
  | '+' :: r => digits? r
  | cs => digits? cs

def integer? : List Char → Option Int
  | '-' :: r => (digits? r).map fun n => -(n : Int)
  | cs => (natural? cs).map Int.ofNat

def word32? (cs : List Char) : Option UInt32 :=
  (natural? cs).bind fun n => if n < UInt32.size then some (.ofNat n) else none

def word64? (cs : List Char) : Option UInt64 :=
  (natural? cs).bind fun n => if n < UInt64.size then some (.ofNat n) else none

/-- The integer as a signed word, if it is in range. -/
def inInt64? (n : Int) : Option Int64 :=
  if Int64.minValue.toInt ≤ n ∧ n ≤ Int64.maxValue.toInt then some (.ofInt n) else none

def int64? (cs : List Char) : Option Int64 := (integer? cs).bind inInt64?

theorem toInt_of_inInt64? {n : Int} {i : Int64} (h : inInt64? n = some i) : i.toInt = n := by
  unfold inInt64? at h
  split at h
  · rename_i range
    obtain rfl := Option.some.inj h
    exact Int64.toInt_ofInt_of_le range.1 (Int.lt_add_one_of_le range.2)
  · simp at h

def digitChar (n : Nat) : Char := Char.ofNat (48 + n % 10)

/-- The shortest decimal numeral of a number. -/
def ofNat (n : Nat) : List Char :=
  if n < 10 then [digitChar n] else ofNat (n / 10) ++ [digitChar n]

def ofInt : Int → List Char
  | .ofNat n => ofNat n
  | .negSucc n => '-' :: ofNat (n + 1)

/-- The numeral filled up with zeros on the left. -/
def padded (width n : Nat) : List Char :=
  let ds := ofNat n
  List.replicate (width - ds.length) '0' ++ ds

end PlatformSnapshot.Numeral
