import TypedRoutes.Decimal.Shortest

/-!
# The nearest float

A nonnegative decimal is read as the float that is nearest to it, unless that would be infinite.
-/

namespace TypedRoutes.Decimal

/-- Beyond this power of ten in either direction no significand digit can matter. -/
def horizon : Int := 400

/-- The nearest float of a nonnegative decimal, or none when it is too large. -/
def nearestFloat? (significand : Nat) (exponent : Int) : Option Float :=
  let leading := (digitCount significand : Int) + exponent
  if significand = 0 || leading < -horizon then some 0
  else if horizon < leading then none
  else
    let value := Float.ofScientific significand (exponent < 0) exponent.natAbs
    if value.isInf then none else some value

end TypedRoutes.Decimal
