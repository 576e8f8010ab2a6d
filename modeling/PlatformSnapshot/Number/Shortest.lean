import PlatformSnapshot.Number.Binary64
import PlatformSnapshot.Text.Numeral
/-!
The fewest decimal digits that read back as a given binary number. The decimals that read back form
an interval around the number, half way to its neighbours; its ends belong to it if the significand
is even. The coarsest decimal grid with a point in the interval gives the digits: of the two grid
points beside the number the nearer one, and the upper one of two equally near.
-/
namespace PlatformSnapshot.Shortest

/-- A decimal `digits · 10 ^ exponent`. -/
structure Decimal where
  digits : Nat
  exponent : Int
  deriving DecidableEq, Repr

/-- A positive number and its interval, as multiples of one fraction `num / den`. -/
structure Window where
  low : Nat
  value : Nat
  high : Nat
  closed : Bool
  num : Nat
  den : Nat

/-- In quarters of the last place: below a power of two the neighbour is only half as far away. -/
def window (m : Nat) (e : Int) : Window where
  low := 4 * m - (if m = Binary64.leadingBit ∧ Binary64.minExponent < e then 1 else 2)
  value := 4 * m
  high := 4 * m + 2
  closed := m % 2 == 0
  num := 1 <<< (e - 2).toNat
  den := 1 <<< (2 - e).toNat

/-- The point of the window's interval on the grid of `10 ^ k`, if there is one. -/
def onGrid? (w : Window) (k : Int) : Option Nat :=
  -- Both sides are brought to one denominator: a grid point `c` is `c * unit`, the number `v * scale`.
  let unit := Nat.pow 10 k.toNat * w.den
  let scale := w.num * Nat.pow 10 (-k).toNat
  let inside := fun c =>
    if w.closed then w.low * scale ≤ c * unit && c * unit ≤ w.high * scale
    else w.low * scale < c * unit && c * unit < w.high * scale
  let below := w.value * scale / unit
  let rest := w.value * scale % unit
  match inside below, inside (below + 1) with
  | true, true => some (if 2 * rest < unit then below else below + 1)
  | true, false => some below
  | false, true => some (below + 1)
  | false, false => none

/-- Tries the grids of `10 ^ k`, `10 ^ (k - 1)` and so on. -/
def search (w : Window) (k : Int) : Nat → Decimal
  | 0 => ⟨w.value * (w.num * Nat.pow 10 (-k).toNat) / (Nat.pow 10 k.toNat * w.den), k⟩
  | n + 1 =>
    match onGrid? w k with
    | some c => ⟨c, k⟩
    | none => search w (k - 1) n

/-- The shortest decimal of `m · 2 ^ e` for a positive `m`. The first grid tried is wider than the
number, and twenty steps further the grid is finer than the spacing of the binary numbers. -/
def decimal (m : Nat) (e : Int) : Decimal :=
  let top := (e + m.log2) * 30103 / 100000 + 2
  search (window m e) top 24

end PlatformSnapshot.Shortest
