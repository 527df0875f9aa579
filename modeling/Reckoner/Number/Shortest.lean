/-
The shortest decimal of a double: of all decimals that read back as the
double, the ones on the coarsest decimal grid, and of those the nearest.

A positive double is `m * 2 ^ q`. The reals that round to it reach half
way to its two neighbours, the ends included where `m` is even; below a
power of two the neighbour is half as far. In quarters of its unit the
double is `4 * m`, the upper end `4 * m + 2`, and the lower end `4 * m - 2`
or, at a power of two, `4 * m - 1`. All three are compared with multiples
of a power of ten after clearing denominators, in natural numbers.

The grid is refined from one that is surely too coarse; seventeen digits
always hit.
-/
import Reckoner.Number.Binary64

namespace Reckoner.Shortest

-- ============================================== doubles on a decimal grid

/-- A decimal: `digits * 10 ^ scale`. -/
structure Decimal where
  digits : Nat
  scale : Int
  deriving DecidableEq, Repr

/-- The reals that round to `m * 2 ^ q`, as numbers of quarters of its
unit. -/
structure Interval where
  low : Nat
  middle : Nat
  high : Nat
  /-- Whether the two ends themselves round to the double. -/
  closed : Bool
  deriving DecidableEq, Repr

def Interval.of (m : Nat) (q : Int) : Interval :=
  let lowGap := if m = Nat.pow 2 52 ∧ q > -1074 then 1 else 2
  { low := 4 * m - lowGap, middle := 4 * m, high := 4 * m + 2,
    closed := m % 2 == 0 }

/-- Factors that turn quarters of the unit `2 ^ q` and multiples of
`10 ^ scale` into one common measure, the quarters first. -/
def commonMeasure (q scale : Int) : Nat × Nat :=
  (Nat.pow 2 (q - 2).toNat * Nat.pow 10 (-scale).toNat,
    Nat.pow 2 (2 - q).toNat * Nat.pow 10 scale.toNat)

/-- The grid point nearest to the double, if one of the double's two
neighbours on the grid of multiples of `10 ^ scale` lies in the rounding
interval. A tie goes to the even multiple. -/
def hit? (interval : Interval) (q scale : Int) : Option Nat :=
  let (quarter, step) := commonMeasure q scale
  let middle := interval.middle * quarter
  let inside (point : Nat) : Bool :=
    if interval.closed then
      interval.low * quarter ≤ point && point ≤ interval.high * quarter
    else interval.low * quarter < point && point < interval.high * quarter
  let below := middle / step
  let above := below + 1
  let belowGap := middle - below * step
  let aboveGap := above * step - middle
  match inside (below * step), inside (above * step) with
  | true, true =>
      if belowGap < aboveGap then some below
      else if aboveGap < belowGap then some above
      else if below % 2 = 0 then some below else some above
  | true, false => some below
  | false, true => some above
  | false, false => none

-- ============================================================ the search

/-- The first hit on the grids from `scale` downward, at most `count`
grids finer. -/
def search (interval : Interval) (q : Int) : Nat → Int → Option Decimal
  | 0, _ => none
  | count + 1, scale =>
      match hit? interval q scale with
      | some digits => some ⟨digits, scale⟩
      | none => search interval q count (scale - 1)

/-- A decimal exponent that `m * 2 ^ q` stays below; 30103 / 100000 is
the logarithm of two, rounded up. -/
def scaleBound (m : Nat) (q : Int) : Int :=
  (Nat.log2 m + q) * 30103 / 100000 + 2

/-- A decimal's trailing zeros moved into its scale, at most `count` of
them. -/
def dropZeros : Nat → Decimal → Decimal
  | 0, d => d
  | count + 1, d =>
      if d.digits % 10 = 0 then dropZeros count ⟨d.digits / 10, d.scale + 1⟩
      else d

/-- The shortest decimal that reads back as `m * 2 ^ q`, without
trailing zeros. -/
def ofFinite (m : Nat) (q : Int) : Decimal :=
  if m = 0 then ⟨0, 0⟩
  else
    let found := search (.of m q) q 24 (scaleBound m q)
    dropZeros 24 (found.getD ⟨m * Nat.pow 2 q.toNat, 0⟩)

end Reckoner.Shortest
