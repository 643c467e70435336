/-! The fewest decimal digits that still name a given double.

    A finite double above zero is `m * 2 ^ q` for whole `m` and `q`, and the reals that round to it form an
    interval around it, with its ends exactly when `m` is even. A decimal `c * 10 ^ k` names the double when
    it lies in that interval. Of the grids of multiples of `10 ^ k` the coarsest with a point in the interval
    has the fewest digits, and if it has a point there at all then one of the two points next to the double
    is there: so two candidates for each grid are enough. All comparisons are between natural numbers. -/

namespace Fleet.Decimal

/-- A double above zero as `mantissa * 2 ^ exponent`; `lowest` says that the gap to the next smaller double
    is half as wide as the gap to the next larger one. -/
structure Binary where
  mantissa : Nat
  exponent : Int
  lowest : Bool

/-- The parts of the size of a finite double, read from its bits: 11 bits of exponent, 52 of fraction, with
    the leading one left out except for the smallest doubles. -/
def Binary.ofBits (bits : UInt64) : Binary :=
  let fraction : Nat := bits.toNat % 0x10000000000000
  let field : Nat := bits.toNat / 0x10000000000000 % 0x800
  if field = 0 then ⟨fraction, -1074, false⟩
  else ⟨0x10000000000000 + fraction, (field : Int) - 1075, fraction = 0 && field > 1⟩

/-- The decimal `coefficient * 10 ^ exponent`. -/
structure Scientific where
  coefficient : Nat
  exponent : Int
  deriving DecidableEq

namespace Binary

/-- Quarters of the double's last place, brought to a common scale with the multiples of `10 ^ k`. -/
def quarters (b : Binary) (k : Int) (n : Nat) : Nat :=
  n * Nat.pow 2 (b.exponent - 2).toNat * Nat.pow 10 (-k).toNat

/-- The decimal `c * 10 ^ k` at the same scale. -/
def multiples (b : Binary) (k : Int) (c : Nat) : Nat :=
  c * Nat.pow 10 k.toNat * Nat.pow 2 (2 - b.exponent).toNat

/-- True when reading `c * 10 ^ k` gives the double back. -/
def names (b : Binary) (k : Int) (c : Nat) : Bool :=
  let low := b.quarters k (4 * b.mantissa - if b.lowest then 1 else 2)
  let high := b.quarters k (4 * b.mantissa + 2)
  let point := b.multiples k c
  if b.mantissa % 2 = 0 then low ≤ point && point ≤ high else low < point && point < high

/-- The point of the grid of `10 ^ k` that names the double, if there is one: the nearer of the two beside
    it when both do, and the even one when they are equally near. -/
def onGrid? (b : Binary) (k : Int) : Option Nat :=
  let exact := b.quarters k (4 * b.mantissa)
  let below := exact / b.multiples k 1
  let above := below + 1
  let takeBelow := b.names k below && below ≠ 0
  if takeBelow && b.names k above then
    let down := exact - b.multiples k below
    let up := b.multiples k above - exact
    if down < up || (down = up && below % 2 = 0) then some below else some above
  else if takeBelow then some below
  else if b.names k above then some above
  else none

/-- Tries `tries` grids, each ten times finer than the one before. -/
def firstGrid (b : Binary) : Nat → Int → Scientific
  | 0, k => ⟨b.quarters k (4 * b.mantissa) / b.multiples k 1, k⟩
  | tries + 1, k =>
    match b.onGrid? k with
    | some c => ⟨c, k⟩
    | none => b.firstGrid tries (k - 1)

/-- A power of ten above the double: `30103 / 100000` is a little more than the decimal logarithm of 2. -/
def ceiling (b : Binary) : Int :=
  (b.exponent + b.mantissa.log2 + 1) * 30103 / 100000 + 1

/-- The fewest digits that name the double. Seventeen are always enough, so twenty grids below the ceiling
    are too. -/
def shortest (b : Binary) : Scientific :=
  b.firstGrid 20 b.ceiling

end Binary

end Fleet.Decimal
