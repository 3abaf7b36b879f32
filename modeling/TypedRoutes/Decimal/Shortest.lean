/-!
# The fewest digits that read back

A finite 64-bit float is a natural number times a power of two. The reals that round to it form an
interval, closed when the significand is even. For one, two, … seventeen digits the two decimals
around the float are tried against that interval, in exact natural arithmetic: the first digit
count with a hit wins, and of two hits the nearer one.
-/

namespace TypedRoutes.Decimal

/-- The magnitude of a finite float as `significand * 2 ^ exponent`. -/
structure Binary where
  significand : Nat
  exponent : Int
  deriving DecidableEq, Repr

/-- The place value of the sign bit. -/
def signPlace : Nat := Nat.pow 2 63

/-- The number of values of the fraction field, and the place value of the exponent field. -/
def fractionCount : Nat := Nat.pow 2 52

/-- The number of values of the exponent field. -/
def exponentCount : Nat := Nat.pow 2 11

/-- Whether the sign bit is set; negative zero counts as negative. -/
def isNegative (x : Float) : Bool :=
  signPlace ≤ x.toBits.toNat

/-- Decodes the exponent and fraction fields; subnormals have no hidden bit. -/
def Binary.ofFloat (x : Float) : Binary :=
  let bits : Nat := x.toBits.toNat
  let field : Nat := bits / fractionCount % exponentCount
  let fraction : Nat := bits % fractionCount
  if field = 0 then ⟨fraction, -1074⟩ else ⟨fractionCount + fraction, (field : Int) - 1075⟩

/-- The power of two above the point, one when the exponent is negative. -/
def Binary.scaleUp (b : Binary) : Nat :=
  Nat.pow 2 b.exponent.toNat

/-- The power of two below the point, one when the exponent is not negative. -/
def Binary.scaleDown (b : Binary) : Nat :=
  Nat.pow 2 (-b.exponent).toNat

/-- The value is a whole number exactly when the scale below the point divides the significand. -/
def Binary.isWhole (b : Binary) : Bool :=
  b.significand % b.scaleDown = 0

/-- The whole part of the value. -/
def Binary.floor (b : Binary) : Nat :=
  b.significand * b.scaleUp / b.scaleDown

/-- How a value half way between two decimals of the same length is settled. -/
inductive Tie where
  | up
  | even
  deriving DecidableEq, Repr

/-- A decimal: a whole number of units of `10 ^ unit`. -/
structure Digits where
  count : Nat
  unit : Int
  deriving DecidableEq, Repr

/-- How many decimal digits a positive number has. -/
def digitCount (n : Nat) : Nat :=
  (Nat.toDigits 10 n).length

/-- The exponent of the leading decimal digit of `numerator / denominator`. -/
def leadingExponent (numerator denominator : Nat) : Int :=
  if denominator ≤ numerator then (digitCount (numerator / denominator) : Int) - 1
  else -(digitCount ((denominator + numerator - 1) / numerator - 1) : Int)

/-- The interval of reals that round to a float, in quarters of its last binary place. -/
structure Interval where
  low : Nat
  value : Nat
  high : Nat
  closed : Bool
  deriving DecidableEq, Repr

/-- Below a power of two the neighbour is half as far away, except at the smallest exponent. -/
def Binary.interval (b : Binary) : Interval where
  low := if b.significand = fractionCount && b.exponent != -1074 then 4 * b.significand - 1
    else 4 * b.significand - 2
  value := 4 * b.significand
  high := 4 * b.significand + 2
  closed := b.significand % 2 = 0

/-- Whether a point, given in the same scale as the bounds, rounds to the float. -/
def Interval.holds (i : Interval) (binaryScale point : Nat) : Bool :=
  if i.closed then i.low * binaryScale ≤ point && point ≤ i.high * binaryScale
  else i.low * binaryScale < point && point < i.high * binaryScale

/-- The hit among the two neighbours of a value on one decimal grid, if there is one. -/
def Interval.hit (i : Interval) (tie : Tie) (binaryScale decimalScale : Nat) : Option Nat :=
  let below := i.value * binaryScale / decimalScale
  let above := below + 1
  let down := i.holds binaryScale (below * decimalScale)
  let up := i.holds binaryScale (above * decimalScale)
  if down && up then
    let toBelow := i.value * binaryScale - below * decimalScale
    let toAbove := above * decimalScale - i.value * binaryScale
    if toBelow < toAbove then some below
    else if toAbove < toBelow then some above
    else match tie with
      | .up => some above
      | .even => if below % 2 = 0 then some below else some above
  else if down then some below
  else if up then some above
  else none

/-- The hit with the given unit, in exact arithmetic over a common scale. -/
def Binary.hit (b : Binary) (tie : Tie) (unit : Int) : Option Nat :=
  b.interval.hit tie (b.scaleUp * Nat.pow 10 (-unit).toNat)
    (4 * b.scaleDown * Nat.pow 10 unit.toNat)

/-- The fewest digits that read back as the positive value `b`. -/
def Binary.shortest (b : Binary) (tie : Tie) : Digits :=
  let lead := leadingExponent (b.significand * b.scaleUp) b.scaleDown
  let found := (List.range 17).findSome? fun more : Nat =>
    (b.hit tie (lead - more)).map fun count => Digits.mk count (lead - more)
  found.getD ⟨b.significand * b.scaleUp * Nat.pow 10 (16 - lead).toNat /
    (b.scaleDown * Nat.pow 10 (lead - 16).toNat), lead - 16⟩

end TypedRoutes.Decimal
