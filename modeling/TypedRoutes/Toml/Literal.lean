import TypedRoutes.Decimal.Nearest
import TypedRoutes.Text.Hexadecimal

/-!
# Numbers and moments

The words of a TOML document that are values: numbers in several notations, dates and times. The
digits of a number may be grouped by single underscores.
-/

namespace TypedRoutes.TomlLiteral

/-- Groups of digits with one underscore between neighbours. -/
def isGrouped (isDigit : Char → Bool) (cs : List Char) : Bool :=
  (cs.splitBy fun a b => (a == '_') == (b == '_')).all (fun group => group == ['_'] ||
    group.all isDigit) && cs.head?.any isDigit && cs.getLast?.any isDigit

/-- Decimal digits in groups. -/
def isDecimal (cs : List Char) : Bool := isGrouped Char.isDigit cs

/-- Decimal digits in groups without a zero in front. -/
def isWhole (cs : List Char) : Bool :=
  isDecimal cs && (cs.head? != some '0' || cs.length == 1)

/-- A text without the sign in front of it. -/
def unsigned : List Char → List Char
  | '+' :: rest => rest
  | '-' :: rest => rest
  | cs => cs

/-- Whether a character is a hexadecimal digit. -/
def isHexDigit (c : Char) : Bool :=
  c.isDigit || ('a' ≤ c && c ≤ 'f') || ('A' ≤ c && c ≤ 'F')

/-- The number that digits to a base stand for; the underscores between them say nothing. -/
def digitsValue (base : Nat) (cs : List Char) : Nat :=
  (cs.filterMap hexValue?).foldl (fun value digit => value * base + digit) 0

/-- A number with the sign in front of its text. -/
def withSign (cs : List Char) (value : Int) : Int :=
  if cs.head? == some '-' then -value else value

/-- Whole numbers: decimal with or without a sign, or to another base behind its mark. -/
def integer? : List Char → Option Int
  | '0' :: 'x' :: digits =>
    if isGrouped isHexDigit digits then some (digitsValue 16 digits) else none
  | '0' :: 'o' :: digits =>
    if isGrouped (fun c => '0' ≤ c && c ≤ '7') digits then some (digitsValue 8 digits) else none
  | '0' :: 'b' :: digits =>
    if isGrouped (fun c => c == '0' || c == '1') digits then some (digitsValue 2 digits) else none
  | cs =>
    if isWhole (unsigned cs) then some (withSign cs (digitsValue 10 (unsigned cs))) else none

/-- The part of a number in front of its exponent, and the exponent. -/
def splitExponent (cs : List Char) : List Char × Option (List Char) :=
  match cs.dropWhile fun c => c != 'e' && c != 'E' with
  | [] => (cs, none)
  | _ :: exponent => (cs.takeWhile (fun c => c != 'e' && c != 'E'), some exponent)

/-- The whole part of a number without an exponent, and its fraction. -/
def splitFraction (cs : List Char) : List Char × Option (List Char) :=
  match cs.dropWhile (· != '.') with
  | [] => (cs, none)
  | _ :: fraction => (cs.takeWhile (· != '.'), some fraction)

/-- The nearest float of a number that is written with a whole part, a fraction and an exponent, or
none when it is too large. -/
def floatValue? (whole fraction exponent : List Char) : Option Float :=
  let places := (fraction.filter Char.isDigit).length
  Decimal.nearestFloat? (digitsValue 10 (whole ++ fraction))
    (withSign exponent (digitsValue 10 (unsigned exponent)) - places)

/-- Numbers without a sign that have a fraction, an exponent or both, and those that are infinite or
none. -/
def magnitude? (cs : List Char) : Option (Option Float) :=
  if cs = "inf".toList then some (some (1 / 0))
  else if cs = "nan".toList then some (some (0 / 0))
  else
    let (mantissa, exponent?) := splitExponent cs
    let (whole, fraction?) := splitFraction mantissa
    if isWhole whole && fraction?.all isDecimal && exponent?.all (isDecimal ∘ unsigned)
        && (fraction?.isSome || exponent?.isSome) then
      some (floatValue? whole (fraction?.getD []) (exponent?.getD []))
    else none

/-- Numbers with a fraction, an exponent or both, and those that are infinite or none. -/
def float? (cs : List Char) : Option (Option Float) :=
  (magnitude? (unsigned cs)).map fun value? =>
    value?.map fun value => if cs.head? == some '-' then -value else value

/-- The number that exactly `count` decimal digits at the front of a text stand for, and what
follows them. -/
def digits? (count : Nat) (cs : List Char) : Option (Nat × List Char) :=
  let digits := cs.take count
  if digits.length == count && digits.all Char.isDigit then
    some (digits.foldl (fun value c => value * 10 + (c.toNat - 48)) 0, cs.drop count)
  else none

/-- What follows the given character. -/
def behind? (mark : Char) : List Char → Option (List Char)
  | c :: rest => if c = mark then some rest else none
  | [] => none

/-- Whether a year is a leap year. -/
def isLeap (year : Nat) : Bool :=
  year % 4 == 0 && (year % 100 != 0 || year % 400 == 0)

/-- The number of days of a month. -/
def daysOf (year month : Nat) : Nat :=
  if month == 2 then (if isLeap year then 29 else 28)
  else if month == 4 || month == 6 || month == 9 || month == 11 then 30
  else 31

/-- What follows a date. -/
def date? (cs : List Char) : Option (List Char) := do
  let (year, cs) ← digits? 4 cs
  let (month, cs) ← digits? 2 (← behind? '-' cs)
  let (day, cs) ← digits? 2 (← behind? '-' cs)
  guard (1 ≤ month && month ≤ 12 && 1 ≤ day && day ≤ daysOf year month)
  return cs

/-- What follows the fraction of a second, if there is one. -/
def fraction? : List Char → Option (List Char)
  | '.' :: rest =>
    if rest.head?.any Char.isDigit then some (rest.dropWhile Char.isDigit) else none
  | cs => some cs

/-- What follows the seconds of a time, if there are any. -/
def seconds? : List Char → Option (List Char)
  | ':' :: rest => do
    let (second, rest) ← digits? 2 rest
    guard (second ≤ 60)
    fraction? rest
  | cs => some cs

/-- What follows a time of day. -/
def time? (cs : List Char) : Option (List Char) := do
  let (hour, cs) ← digits? 2 cs
  let (minute, cs) ← digits? 2 (← behind? ':' cs)
  guard (hour ≤ 23 && minute ≤ 59)
  seconds? cs

/-- Whether a text is nothing or a distance from universal time. -/
def isOffset : List Char → Bool
  | [] => true
  | ['Z'] | ['z'] => true
  | sign :: cs =>
    (sign == '+' || sign == '-') &&
      match digits? 2 cs with
      | some (hour, ':' :: rest) =>
        match digits? 2 rest with
        | some (minute, []) => hour ≤ 23 && minute ≤ 59
        | _ => false
      | _ => false

/-- Whether the text behind a date goes on with a time of day or not at all. -/
def isDateEnd : List Char → Bool
  | [] => true
  | c :: rest => (c == 'T' || c == 't' || c == ' ') && (time? rest).any isOffset

/-- Dates, times of day, and both together. -/
def isMoment (cs : List Char) : Bool :=
  (date? cs).any isDateEnd || (time? cs).any List.isEmpty

/-- Whether a text is a date and nothing more. -/
def isDate (cs : List Char) : Bool :=
  (date? cs).any List.isEmpty

end TypedRoutes.TomlLiteral
