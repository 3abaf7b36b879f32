import TypedRoutes.Decimal.Shortest

/-!
# Laying out decimals

A decimal is laid out from its digits, without trailing zeros, and the exponent of its leading
digit: positionally, with zeros filling the places between the digits and the point, or in
scientific notation.
-/

namespace TypedRoutes.Decimal

/-- A natural number in decimal digits. -/
def naturalText (n : Nat) : String :=
  String.ofList (Nat.toDigits 10 n)

/-- The digits of a number without trailing zeros; zero has none. -/
def significantDigits (n : Nat) : List Char :=
  ((Nat.toDigits 10 n).reverse.dropWhile (· == '0')).reverse

/-- The exponent of the leading digit of a nonzero decimal. -/
def Digits.leading (d : Digits) : Int :=
  (digitCount d.count : Int) - 1 + d.unit

/-- Positional notation of significant digits whose first one stands at `10 ^ leading`. Without a
fractional part only the whole digits are written. -/
def positional (digits : List Char) (leading : Int) : List Char :=
  if leading < 0 then
    '0' :: '.' :: (List.replicate (-leading - 1).toNat '0' ++ digits)
  else
    let places := leading.toNat + 1
    let whole := digits.take places ++ List.replicate (places - digits.length) '0'
    match digits.drop places with
    | [] => whole
    | fraction => whole ++ '.' :: fraction

/-- The text of a whole exponent with its sign. -/
def signedExponent (exponent : Int) : List Char :=
  if exponent < 0 then '-' :: Nat.toDigits 10 (-exponent).toNat
  else '+' :: Nat.toDigits 10 exponent.toNat

/-- Scientific notation: one digit, the others behind a point, the signed exponent. -/
def scientific (digits : List Char) (leading : Int) : List Char :=
  match digits with
  | [] => ['0']
  | [only] => only :: 'e' :: signedExponent leading
  | first :: rest => first :: '.' :: rest ++ 'e' :: signedExponent leading

/-- Puts the minus sign of a negative number in front of its magnitude. -/
def signed (negative : Bool) (magnitude : List Char) : List Char :=
  if negative then '-' :: magnitude else magnitude

end TypedRoutes.Decimal
