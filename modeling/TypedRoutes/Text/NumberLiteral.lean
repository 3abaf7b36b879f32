import TypedRoutes.Decimal.Layout

/-!
# Number literals

The text of a number in the generated program. A whole number below `10 ^ 21` is written with all
its digits, any other finite number with the fewest digits that read back, ties going up and never
in scientific notation.
-/

namespace TypedRoutes

/-- Whole numbers from here on are written with their shortest digits. -/
def wholeLiteralBound : Nat := Nat.pow 10 21

/-- The magnitude of a finite number as a literal. -/
def magnitudeLiteral (b : Decimal.Binary) : List Char :=
  if b.isWhole && b.floor < wholeLiteralBound then Nat.toDigits 10 b.floor
  else
    let digits := b.shortest .up
    Decimal.positional (Decimal.significantDigits digits.count) digits.leading

/-- A number as it stands in a program; the three values without a literal are written by name. -/
def numberLiteral (x : Float) : String :=
  if x.isNaN then "NaN"
  else if x.isInf then (if Decimal.isNegative x then "-Infinity" else "Infinity")
  else String.ofList
    (Decimal.signed (Decimal.isNegative x) (magnitudeLiteral (Decimal.Binary.ofFloat x)))

end TypedRoutes
