import PlatformSnapshot.Text.Numeral
/-!
Whether a decimal is in the range of the binary floating-point numbers of 64 bits. A decimal that is
half a unit or more above the largest finite number rounds to infinity.
-/
namespace PlatformSnapshot.DecimalRange

/-- Half a unit above the largest finite number. -/
def bound : Nat := (1 <<< 1024) - (1 <<< 970)

/-- Whether `m · 10 ^ k` rounds to a finite number. The number of digits decides for the very large
and the very small, so the power of ten that is computed stays small. -/
def isFinite (m : Nat) (k : Int) : Bool :=
  let digits : Int := (Numeral.ofNat m).length
  if m = 0 ∨ digits + k ≤ 0 then true
  else if 310 < digits + k then false
  else m * Nat.pow 10 k.toNat < bound * Nat.pow 10 (-k).toNat

end PlatformSnapshot.DecimalRange
