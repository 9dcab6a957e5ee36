/-!
# Shortest decimals

A finite binary64 value stands for an interval of reals, those that round to it.
`Dyadic.shortest` finds the decimal with the fewest digits inside that interval,
and of several the nearest to the value; where two are equally near, a format
says which one it takes.  All of it is exact arithmetic on naturals: the grids of
one, two, … seventeen digits are tried in turn, and on each only the two
neighbours of the value can lie in the interval.
-/

namespace Skein

namespace Decimal

/-- A non-negative decimal, `digits · 10 ^ exponent`. -/
structure Number where
  digits : Nat
  exponent : Int
deriving DecidableEq

/-- A non-negative binary64 value, `mantissa · 2 ^ exponent`. -/
structure Dyadic where
  mantissa : Nat
  exponent : Int
  /-- The neighbour below is half as far away as the neighbour above, as it is
  at a power of two. -/
  narrowBelow : Bool
deriving DecidableEq

def Dyadic.ofBits (bits : UInt64) : Dyadic :=
  let biased := ((bits >>> 52) &&& 0x7FF).toNat
  let fraction := (bits &&& 0xFFFFFFFFFFFFF).toNat
  if biased = 0 then
    { mantissa := fraction, exponent := -1074, narrowBelow := false }
  else
    { mantissa := Nat.pow 2 52 + fraction, exponent := (biased : Int) - 1075,
      narrowBelow := fraction == 0 && biased > 1 }

/-- Which of two decimals a format takes when both are equally near: the one whose
last digit is even, or the greater one. -/
inductive Tie
  | toEven
  | up
deriving DecidableEq

/-- Compares `a · 10 ^ i` with `b · 2 ^ j`, both brought to naturals. -/
def order (a : Nat) (i : Int) (b : Nat) (j : Int) : Ordering :=
  compare (a * Nat.pow 10 i.toNat * Nat.pow 2 (-j).toNat)
    (b * Nat.pow 2 j.toNat * Nat.pow 10 (-i).toNat)

namespace Dyadic

/-- Does the decimal round to this value? The interval reaches halfway to both
neighbours, and its ends belong to it exactly when the mantissa is even. -/
def holds (x : Dyadic) (d : Number) : Bool :=
  let low := if x.narrowBelow then 4 * x.mantissa - 1 else 4 * x.mantissa - 2
  let high := 4 * x.mantissa + 2
  let ends := x.mantissa % 2 == 0
  let below := order d.digits d.exponent low (x.exponent - 2)
  let above := order d.digits d.exponent high (x.exponent - 2)
  (below == .gt || (ends && below == .eq)) && (above == .lt || (ends && above == .eq))

/-- The largest multiple of `10 ^ grid` that is not above the value, counted in
that unit. -/
def floorOn (x : Dyadic) (grid : Int) : Nat :=
  (x.mantissa * Nat.pow 2 x.exponent.toNat * Nat.pow 10 (-grid).toNat) /
    (Nat.pow 2 (-x.exponent).toNat * Nat.pow 10 grid.toNat)

/-- The place of the leading digit: the value is below `10 ^ magnitude`, and
above every smaller power.  The binary logarithm gives an estimate that is at
most two too small. -/
def magnitude (x : Dyadic) : Int :=
  let guess := ((x.mantissa.log2 : Int) + x.exponent) * 30103 / 100000
  if order 1 guess x.mantissa x.exponent == .gt then guess
  else if order 1 (guess + 1) x.mantissa x.exponent == .gt then guess + 1
  else guess + 2

/-- The decimal that a grid offers: of its two neighbours of the value the one
inside the interval, and of two the nearer one. -/
def onGrid? (x : Dyadic) (tie : Tie) (grid : Int) : Option Number :=
  let lower : Number := { digits := x.floorOn grid, exponent := grid }
  let upper : Number := { digits := x.floorOn grid + 1, exponent := grid }
  match x.holds lower, x.holds upper with
  | false, false => none
  | true, false => some lower
  | false, true => some upper
  | true, true =>
    match order (2 * lower.digits + 1) grid x.mantissa (x.exponent + 1) with
    | .gt => some lower
    | .lt => some upper
    | .eq => if tie = .toEven ∧ lower.digits % 2 = 0 then some lower else some upper

def exact (x : Dyadic) : Number :=
  { digits := x.mantissa * Nat.pow 2 x.exponent.toNat * Nat.pow 5 (-x.exponent).toNat
    exponent := min x.exponent 0 }

/-- The decimal with the fewest digits that rounds to the value. -/
def shortest (x : Dyadic) (tie : Tie) : Number :=
  if x.mantissa = 0 then { digits := 0, exponent := 0 }
  else
    ((List.range 17).findSome? fun (n : Nat) => x.onGrid? tie (x.magnitude - (n + 1))).getD x.exact

end Dyadic

end Decimal

end Skein
