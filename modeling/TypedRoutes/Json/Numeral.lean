import TypedRoutes.Decimal.Nearest
import TypedRoutes.Json.Value

/-!
# Numerals

A number as it is written: sign, decimal digits, a power of ten, and whether it was written without
a fraction and without an exponent. In a program a numeral stands for the float nearest to it. The
reader of a document is quicker and less exact: it takes as many digits as fit into a machine word,
makes a float of them, and multiplies or divides that by a power of ten, so that it rounds more than
once. Only whole numerals can be read as natural numbers.
-/

namespace TypedRoutes.Json

/-- A number as written: `± significand * 10 ^ exponent`. The last `places` digits of the
significand stand behind the point. -/
structure Numeral where
  negative : Bool
  significand : Nat
  exponent : Int
  places : Nat
  whole : Bool
  deriving DecidableEq, Repr, Inhabited

/-- Puts the sign of a numeral in front of a float. -/
def Numeral.signed (n : Numeral) (magnitude : Float) : Float :=
  if n.negative then -magnitude else magnitude

/-- The float a numeral stands for in a program; a minus sign in front of zero is kept. -/
def Numeral.toFloat? (n : Numeral) : Option Float :=
  (Decimal.nearestFloat? n.significand n.exponent).map n.signed

/-- Natural numbers below this bound are kept exactly. -/
def naturalBound : Nat := UInt64.size

/-- The natural number that a whole numeral without a sign stands for. -/
def Numeral.toNat? (n : Numeral) : Option Nat :=
  if n.whole && !n.negative && n.significand < naturalBound then some n.significand else none

/-! ## Numerals as the reader of a document takes them -/

/-- Puts digits behind a number as long as the number stays below the bound; also tells how many
digits are left over. -/
def takeDigits : Nat → List Char → Nat × Nat
  | value, [] => (value, 0)
  | value, digit :: rest =>
    let longer := value * 10 + (digit.toNat - 48)
    if longer < naturalBound then takeDigits longer rest else (value, rest.length + 1)

/-- The digits in front of the point. -/
def Numeral.wholeDigits (n : Numeral) : List Char :=
  Nat.toDigits 10 (n.significand / Nat.pow 10 n.places)

/-- The digits behind the point; zeros in front of them count. -/
def Numeral.fractionDigits (n : Numeral) : List Char :=
  (Nat.toDigits 10 (Nat.pow 10 n.places + n.significand % Nat.pow 10 n.places)).tail

/-- The digits that fit into a word, and the exponent that goes with them. Every digit that is left
over raises it; a fraction is cut off where it stops to fit. -/
def Numeral.taken (n : Numeral) : Nat × Int :=
  let whole := takeDigits 0 n.wholeDigits
  let all := takeDigits whole.1 n.fractionDigits
  (all.1, n.exponent + whole.2 + all.2)

/-- The largest power of ten that is a float has this exponent. -/
def lastPower : Nat := 308

/-- A power of ten as a float. -/
def powerOfTen (exponent : Nat) : Float := Float.ofScientific 1 false exponent

/-- Divides by the largest power of ten for a number of rounds, and then by a smaller one. -/
def divideRounds (places : Nat) : Nat → Float → Float
  | 0, x => x / powerOfTen places
  | rounds + 1, x => if x == 0 then x else divideRounds places rounds (x / powerOfTen lastPower)

/-- A float times a power of ten, unless it is too large. -/
def scale? (x : Float) (exponent : Int) : Option Float :=
  let power := exponent.natAbs
  if exponent < 0 then
    let rounds := (power - 1) / lastPower
    some (divideRounds (power - rounds * lastPower) rounds x)
  else if lastPower < power then
    if x == 0 then some x else none
  else
    let scaled := x * powerOfTen power
    if scaled.isInf then none else some scaled

/-- The float that the reader of a document takes a numeral for. -/
def Numeral.take? (n : Numeral) : Option Float :=
  (scale? (Float.ofNat n.taken.1) n.taken.2).map n.signed

/-- The JSON value of a numeral. -/
def Numeral.toJson? (n : Numeral) : Option Json :=
  match n.toNat? with
  | some value => some (.natural value)
  | none => n.take?.map .number

end TypedRoutes.Json
