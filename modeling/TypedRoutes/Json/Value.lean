import TypedRoutes.Decimal.Layout

/-!
# JSON values

The values that a stored unit is written from, and the texts of the two kinds of leaf that have
rules of their own: numbers and strings.
-/

namespace TypedRoutes

/-- A JSON value. Members keep their order; whole numbers without a fraction are kept apart from
floats because they are written differently. -/
inductive Json where
  | null
  | boolean (value : Bool)
  | natural (value : Nat)
  | number (value : Float)
  | string (value : String)
  | array (items : List Json)
  | object (members : List (String × Json))
  deriving Inhabited

namespace Json

/-- A hexadecimal digit in lower case. -/
def hexDigit (n : Nat) : Char :=
  (Nat.toDigits 16 n).headD '0'

/-- The written form of one character of a JSON string: quotes, backslashes and control
characters below the space are escaped. -/
def escapeChar (c : Char) : List Char :=
  if c = '"' then ['\\', '"']
  else if c = '\\' then ['\\', '\\']
  else if c = '\x08' then ['\\', 'b']
  else if c = '\x0c' then ['\\', 'f']
  else if c = '\n' then ['\\', 'n']
  else if c = '\r' then ['\\', 'r']
  else if c = '\t' then ['\\', 't']
  else if c.toNat < 32 then ['\\', 'u', '0', '0', hexDigit (c.toNat / 16), hexDigit (c.toNat % 16)]
  else [c]

/-- A JSON string with its quotes. -/
def quote (text : String) : String :=
  String.ofList ('"' :: (text.toList.flatMap escapeChar ++ ['"']))

/-- Floats whose leading digit stands at one of these powers of ten are written positionally. -/
def positionalRange (leading : Int) : Bool :=
  -5 ≤ leading && leading ≤ 15

/-- The magnitude of a finite float: the fewest digits that read back, ties going to the even
neighbour, a fractional part always written in positional notation. -/
def magnitudeText (b : Decimal.Binary) : List Char :=
  if b.significand = 0 then ['0', '.', '0']
  else
    let digits := b.shortest .even
    let shown := Decimal.significantDigits digits.count
    if positionalRange digits.leading then
      let text := Decimal.positional shown digits.leading
      if text.contains '.' then text else text ++ ['.', '0']
    else Decimal.scientific shown digits.leading

/-- The text of a float; what is no finite number is written as null. -/
def numberText (x : Float) : String :=
  if x.isFinite then String.ofList
    (Decimal.signed (Decimal.isNegative x) (magnitudeText (Decimal.Binary.ofFloat x)))
  else "null"

/-- The text of a boolean. -/
def booleanText (value : Bool) : String :=
  if value then "true" else "false"

end Json

end TypedRoutes
