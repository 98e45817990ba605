import Targeting.Binary64

/-!
The shortest decimal of a binary64 number: of all decimals that round to the number, one with the
fewest digits, and of those the nearest, with an even last digit where two are equally near.
Candidates are tried digit by digit, and each is tested against the interval of reals that round
to the number, in exact integer arithmetic.
-/

namespace Targeting

/-- The number `0.d₁d₂… · 10 ^ point`, with the digits as one natural number. -/
structure Decimal where
  digits : Nat
  point : Int
  deriving DecidableEq, Repr

namespace Binary64

/-- The reals that round to a positive finite number, in units of a quarter of the smallest step.
Below a power of two the neighbour is only half as far away; the ends belong to an even
significand. -/
structure RoundingInterval where
  low : Nat
  centre : Nat
  high : Nat
  closed : Bool

def roundingInterval (x : Binary64) : RoundingInterval :=
  let unit := power 2 x.scale
  let below := if x.fraction = 0 ∧ 1 < x.exponentField then unit else 2 * unit
  let centre := 4 * x.significand * unit
  ⟨centre - below, centre, centre + 2 * unit, x.fraction % 2 = 0⟩

def unitsPerOne : Nat := 4 * stepsPerOne

namespace RoundingInterval

/-- Numerator and denominator, in quarter steps, of `c · 10 ^ k`. -/
def units (c : Nat) (k : Int) : Nat × Nat :=
  (c * power 10 k.toNat * unitsPerOne, power 10 (-k).toNat)

def contains (r : RoundingInterval) (c : Nat) (k : Int) : Bool :=
  let (num, den) := units c k
  if r.closed then r.low * den ≤ num && num ≤ r.high * den
  else r.low * den < num && num < r.high * den

/-- How far `c · 10 ^ k` lies from the centre, scaled by the common denominator of its grid. -/
def distance (r : RoundingInterval) (c : Nat) (k : Int) : Nat :=
  let (num, den) := units c k
  max num (r.centre * den) - min num (r.centre * den)

/-- The largest `c` with `c · 10 ^ k` at or below the centre. -/
def gridFloor (r : RoundingInterval) (k : Int) : Nat :=
  r.centre * power 10 (-k).toNat / (unitsPerOne * power 10 k.toNat)

/-- The position of the decimal point: the centre is below `10 ^ point` and not below a tenth of
that. The shift makes every positive number at least one. -/
def point (r : RoundingInterval) : Int :=
  (Nat.toDigits 10 (r.centre * power 10 340 / unitsPerOne)).length - 340

/-- The nearer of two neighbours on a grid, and of two equally near ones the even one. -/
def nearer (r : RoundingInterval) (k : Int) (a b : Nat) : Nat :=
  let da := r.distance a k
  let db := r.distance b k
  if da < db ∨ (da = db ∧ a % 2 = 0) then a else b

/-- The nearest hit among the two neighbours of the centre on the grid of `n` digits. -/
def onGrid (r : RoundingInterval) (n : Nat) : Option Nat :=
  let k := r.point - n
  let c := r.gridFloor k
  let hits := [c, c + 1].filter (r.contains · k)
  match hits with
  | [a, b] => some (r.nearer k a b)
  | hits => hits.head?

/-- Tries grids of more and more digits; the last resort takes the floor on the finest. -/
def search (r : RoundingInterval) : Nat → Nat → Decimal
  | 0, n => ⟨r.gridFloor (r.point - n), r.point⟩
  | tries + 1, n =>
    match r.onGrid n with
    | some c => if c = power 10 n then ⟨1, r.point + 1⟩ else ⟨c, r.point⟩
    | none => search r tries (n + 1)

end RoundingInterval

/-- Seventeen digits always suffice. -/
def shortest (x : Binary64) : Decimal :=
  if x.significand = 0 then ⟨0, 1⟩ else x.roundingInterval.search 17 1

end Binary64

end Targeting
