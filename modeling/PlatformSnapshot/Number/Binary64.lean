/-!
Binary floating-point numbers of 64 bits, as exact integers: a finite number is a significand times
a power of two. Every operation computes exactly and then rounds once, to the nearest number that
can be represented and to an even significand where two are equally near.
-/
namespace PlatformSnapshot

inductive Binary64 where
  | nan
  | infinite (negative : Bool)
  /-- The number `significand · 2 ^ exponent`, with its sign. -/
  | finite (negative : Bool) (significand : Nat) (exponent : Int)
  deriving DecidableEq, Repr, Inhabited

namespace Binary64

/-- The exponent of the smallest positive number. -/
def minExponent : Int := -1074

/-- The exponent of the largest finite numbers. -/
def maxExponent : Int := 971

/-- The highest of the 53 bits of a significand. -/
def leadingBit : Nat := 1 <<< 52

def zero (negative : Bool) : Binary64 := .finite negative 0 minExponent

/-- The quotient by `2 ^ shift`, to the nearest integer and to the even one of two. -/
def shiftRightToEven (m shift : Nat) : Nat :=
  let unit := 1 <<< shift
  let q := m >>> shift
  let r := m % unit
  if 2 * r < unit then q else if unit < 2 * r then q + 1 else q + q % 2

/-- A number with 53 bits or the least exponent, unless it is too large. -/
def pack (negative : Bool) (m : Nat) (e : Int) : Binary64 :=
  let (m, e) := if m = 2 * leadingBit then (leadingBit, e + 1) else (m, e)
  if maxExponent < e then .infinite negative else .finite negative m e

/-- The representable number nearest to `m · 2 ^ e`. -/
def round (negative : Bool) (m : Nat) (e : Int) : Binary64 :=
  if m = 0 then zero negative
  else
    let shift := max ((m.log2 : Int) - 52) (minExponent - e)
    if shift ≤ 0 then pack negative (m <<< shift.natAbs) (e + shift)
    else pack negative (shiftRightToEven m shift.natAbs) (e + shift)

def ofInt (n : Int) : Binary64 := round (n < 0) n.natAbs 0

def ofNat (n : Nat) : Binary64 := round false n 0

/-- The number with a given representation: sign, eleven bits of exponent, 52 bits of significand. -/
def ofBits (w : UInt64) : Binary64 :=
  let n : Nat := w.toNat
  let negative := n >>> 63 == 1
  let field := n >>> 52 % 2048
  let fraction := n % leadingBit
  if field = 2047 then (if fraction = 0 then .infinite negative else .nan)
  else if field = 0 then .finite negative fraction minExponent
  else .finite negative (leadingBit + fraction) ((field : Int) - 1075)

def toBits : Binary64 → UInt64
  | .nan => 0x7ff8000000000000
  | .infinite negative => .ofNat ((if negative then 1 <<< 63 else 0) + 2047 * leadingBit)
  | .finite negative m e =>
    let sign := if negative then 1 <<< 63 else 0
    if m < leadingBit then .ofNat (sign + m)
    else .ofNat (sign + (e + 1075).toNat * leadingBit + (m - leadingBit))

/-- Whether the number compares as less than zero; minus zero and no number do not. -/
def isBelowZero : Binary64 → Bool
  | .nan => false
  | .infinite negative => negative
  | .finite negative m _ => negative && m != 0

def signed (negative : Bool) (m : Nat) : Int := if negative then -(m : Int) else m

/-- The sum, rounded once. A sum of zero is positive unless both terms are negative. -/
def add : Binary64 → Binary64 → Binary64
  | .nan, _ | _, .nan => .nan
  | .infinite a, .infinite b => if a = b then .infinite a else .nan
  | .infinite a, .finite .. => .infinite a
  | .finite .., .infinite b => .infinite b
  | .finite a m e, .finite b n f =>
    let low := min e f
    let sum := signed a (m <<< (e - low).toNat) + signed b (n <<< (f - low).toNat)
    if sum = 0 then zero (a && b) else round (sum < 0) sum.natAbs low

instance : Add Binary64 := ⟨add⟩

end Binary64
end PlatformSnapshot
