import PlatformSnapshot.Number.Shortest
/-!
The two ways in which binary numbers are written. Samples use positional notation throughout;
documents write a point in every number and turn to an exponent for the very large and very small,
with or without a sign on a positive exponent.
-/
namespace PlatformSnapshot.Binary64

open Numeral

def signText (negative : Bool) : List Char := if negative then ['-'] else []

/-- The digits of a decimal around its point; `whole` stands for a missing fraction. -/
def positional (d : Shortest.Decimal) (whole : List Char) : List Char :=
  let ds := Numeral.ofNat d.digits
  let point := (ds.length : Int) + d.exponent
  if 0 ≤ d.exponent then ds ++ List.replicate d.exponent.toNat '0' ++ whole
  else if 0 < point then ds.take point.toNat ++ '.' :: ds.drop point.toNat
  else '0' :: '.' :: List.replicate (-point).toNat '0' ++ ds

/-- The text of a sample's value: no exponent, and no point in a whole number. -/
def sampleText : Binary64 → List Char
  | .nan => "NaN".toList
  | .infinite negative => signText negative ++ "inf".toList
  | .finite negative m e =>
    signText negative ++ if m = 0 then ['0'] else positional (Shortest.decimal m e) []

/-- How a positive exponent is written. -/
inductive ExponentSign where
  | plus
  | omitted
  deriving DecidableEq, Repr

def exponentText (sign : ExponentSign) (n : Int) : List Char :=
  match sign with
  | .plus => if 0 ≤ n then '+' :: Numeral.ofInt n else Numeral.ofInt n
  | .omitted => Numeral.ofInt n

/-- One digit before the point, and a power of ten. -/
def scientific (sign : ExponentSign) (d : Shortest.Decimal) : List Char :=
  let ds := Numeral.ofNat d.digits
  let power := (ds.length : Int) + d.exponent - 1
  (match ds with
    | a :: b :: r => a :: '.' :: b :: r
    | ds => ds) ++ 'e' :: exponentText sign power

/-- The size of a finite number in a document: positional with up to sixteen digits before the
point and up to five zeros behind it. -/
def magnitudeText (sign : ExponentSign) (m : Nat) (e : Int) : List Char :=
  if m = 0 then "0.0".toList
  else
    let d := Shortest.decimal m e
    let point := ((Numeral.ofNat d.digits).length : Int) + d.exponent
    if -5 < point ∧ point ≤ 16 then positional d ".0".toList else scientific sign d

end PlatformSnapshot.Binary64
