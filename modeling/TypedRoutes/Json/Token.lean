import TypedRoutes.Json.Numeral
import TypedRoutes.Text.Hexadecimal

/-!
# JSON tokens

The scanner takes one token off the front of a text. A text can go wrong in two ways, by ending too
early and by breaking a rule, and readers may disagree on which comes first: one that wants the
value sees a lone surrogate or a number cut short as soon as it stands there, one that skips the
value passes over the former and calls the latter malformed, and one that looks for the only member
of an object does not look behind a comma. A break records all verdicts.
-/

namespace TypedRoutes.Json

/-- What is wrong with a text: it ends early, it breaks a rule of the format, or it is well formed
and does not hold what is wanted. -/
inductive Fault where
  | truncated
  | malformed
  | mismatched
  deriving DecidableEq, Repr, Inhabited

/-- The name of a kind of fault. -/
def Fault.category : Fault → String
  | .truncated => "eof"
  | .malformed => "syntax"
  | .mismatched => "data"

/-- Where a text breaks off: the verdicts of a reader that wants the value, of one that skips it,
and of one that wants an object with a single member. -/
structure Break where
  wanted : Fault
  skipped : Fault
  single : Fault
  deriving DecidableEq, Repr, Inhabited

/-- A break on which all readers agree. -/
def Break.clear (fault : Fault) : Break := ⟨fault, fault, fault⟩

/-- A number that the text ends in the middle of. -/
def Break.cutNumber : Break := ⟨.truncated, .malformed, .truncated⟩

/-- A token. A string that holds a lone surrogate has no text. A broken token is the last one, and
tells whether it started as a string. -/
inductive Token where
  | openArray
  | closeArray
  | openObject
  | closeObject
  | comma
  | colon
  | null
  | boolean (value : Bool)
  | number (value : Numeral)
  | string (text : Option String)
  | broken (quoted : Bool) (verdict : Break)
  deriving Repr, Inhabited

/-- What a scanner finds: a value with the rest of the text, or a break. -/
inductive Scan (α : Type) where
  | found (value : α) (rest : List Char)
  | broken (verdict : Break)

/-- The four characters that may stand between tokens. -/
def isBlank (c : Char) : Bool :=
  c == ' ' || c == '\n' || c == '\t' || c == '\r'

/-- The code unit that four hexadecimal digits stand for. -/
def codeUnit? (a b c d : Char) : Option Nat := do
  let a ← hexValue? a
  let b ← hexValue? b
  let c ← hexValue? c
  let d ← hexValue? d
  return ((a * 16 + b) * 16 + c) * 16 + d

/-- The first half of a surrogate pair. -/
def isHighSurrogate (unit : Nat) : Bool := 0xd800 ≤ unit && unit < 0xdc00

/-- The second half of a surrogate pair. -/
def isLowSurrogate (unit : Nat) : Bool := 0xdc00 ≤ unit && unit < 0xe000

/-- The character of a surrogate pair. -/
def surrogatePair (high low : Nat) : Char :=
  Char.ofNat (0x10000 + (high - 0xd800) * 0x400 + (low - 0xdc00))

/-- The character that a one-letter escape stands for. -/
def escaped? (c : Char) : Option Char :=
  if c = '"' || c = '\\' || c = '/' then some c
  else if c = 'b' then some '\x08'
  else if c = 'f' then some '\x0c'
  else if c = 'n' then some '\n'
  else if c = 'r' then some '\r'
  else if c = 't' then some '\t'
  else none

/-- The characters read so far, the last one first; none once a lone surrogate was met. -/
abbrev Gathered := Option (List Char)

/-- Adds a character to those read so far. -/
def Gathered.push (gathered : Gathered) (c : Char) : Gathered :=
  gathered.map (c :: ·)

/-- A break inside a string: after a lone surrogate a reader that wants the text has given up. -/
def Gathered.break (gathered : Gathered) (fault : Fault) : Break :=
  let wanted := if gathered.isSome then fault else .malformed
  ⟨wanted, fault, wanted⟩

/-- The fault of an escape whose four digits are not all there: the text ends early if fewer than
four bytes are left. -/
def shortEscape (rest : List Char) : Fault :=
  if (String.ofList rest).utf8ByteSize < 4 then .truncated else .malformed

/-- Scans the inside of a string up to its closing quote. -/
def scanString (gathered : Gathered) : List Char → Scan (Option String)
  | [] => .broken (gathered.break .truncated)
  | '"' :: rest => .found (gathered.map fun cs => String.ofList cs.reverse) rest
  | ['\\'] => .broken (gathered.break .truncated)
  | '\\' :: 'u' :: a :: b :: c :: d :: rest =>
    match codeUnit? a b c d with
    | none => .broken (gathered.break .malformed)
    | some unit =>
      if isHighSurrogate unit then
        match rest with
        | [] => .broken (gathered.break .truncated)
        | ['\\'] => .broken (gathered.break .truncated)
        | '\\' :: 'u' :: e :: f :: g :: h :: rest' =>
          match codeUnit? e f g h with
          | none => .broken (gathered.break .malformed)
          | some low =>
            if isLowSurrogate low then scanString (gathered.push (surrogatePair unit low)) rest'
            else scanString none rest'
        | '\\' :: 'u' :: rest' => .broken (gathered.break (shortEscape rest'))
        | c :: rest' => scanString none (c :: rest')
      else if isLowSurrogate unit then scanString none rest
      else scanString (gathered.push (Char.ofNat unit)) rest
  | '\\' :: 'u' :: rest => .broken (gathered.break (shortEscape rest))
  | '\\' :: c :: rest =>
    match escaped? c with
    | some plain => scanString (gathered.push plain) rest
    | none => .broken (gathered.break .malformed)
  | c :: rest =>
    if c.toNat < 32 then .broken (gathered.break .malformed)
    else scanString (gathered.push c) rest

/-- The number that decimal digits stand for. -/
def digitsValue (digits : List Char) : Nat :=
  digits.foldl (fun value c => value * 10 + (c.toNat - 48)) 0

/-- Goes on with the digits at the front of a text and what follows them; there has to be one. -/
def withDigits (cs : List Char) (next : List Char → List Char → Scan Numeral) : Scan Numeral :=
  match cs.takeWhile Char.isDigit with
  | [] => .broken (if cs.isEmpty then .cutNumber else .clear .malformed)
  | digit :: digits => next (digit :: digits) (cs.dropWhile Char.isDigit)

/-- The sign of an exponent, downward or not, and what follows it. -/
def exponentSign : List Char → Bool × List Char
  | '+' :: rest => (false, rest)
  | '-' :: rest => (true, rest)
  | cs => (false, cs)

/-- Scans the exponent behind its letter; `numeral` is what stands before it. -/
def scanExponent (numeral : Numeral) (cs : List Char) : Scan Numeral :=
  withDigits (exponentSign cs).2 fun digits rest =>
    let shift : Int := digitsValue digits
    .found ⟨numeral.negative, numeral.significand,
      numeral.exponent + (if (exponentSign cs).1 then -shift else shift), numeral.places,
      false⟩ rest

/-- Scans what may follow the whole part and the fraction. -/
def scanExponent? (numeral : Numeral) : List Char → Scan Numeral
  | [] => .found numeral []
  | c :: rest =>
    if c = 'e' || c = 'E' then scanExponent numeral rest else .found numeral (c :: rest)

/-- Scans what may follow the whole part of a number. -/
def scanFraction? (negative : Bool) (whole : List Char) : List Char → Scan Numeral
  | '.' :: rest => withDigits rest fun digits rest =>
    scanExponent? ⟨negative, digitsValue (whole ++ digits), -digits.length, digits.length,
      false⟩ rest
  | cs => scanExponent? ⟨negative, digitsValue whole, 0, 0, true⟩ cs

/-- Whether the whole part of a number has a zero in front of other digits. -/
def hasLeadingZero : List Char → Bool
  | '0' :: _ :: _ => true
  | _ => false

/-- Scans a number behind its sign. -/
def scanMagnitude (negative : Bool) (cs : List Char) : Scan Numeral :=
  withDigits cs fun digits rest =>
    if hasLeadingZero digits then .broken (.clear .malformed)
    else scanFraction? negative digits rest

/-- Scans the rest of a word whose first letter is known. -/
def scanWord : List Char → List Char → Option Fault × List Char
  | [], rest => (none, rest)
  | _ :: _, [] => (some .truncated, [])
  | expected :: more, c :: rest =>
    if c = expected then scanWord more rest else (some .malformed, rest)

/-- The token of a word, or the break in it. -/
def wordToken (token : Token) (expected : List Char) (cs : List Char) : Token × List Char :=
  match scanWord expected cs with
  | (none, rest) => (token, rest)
  | (some fault, rest) => (.broken false (.clear fault), rest)

/-- The token of a number, or the break in it. -/
def numberToken : Scan Numeral → Token × List Char
  | .found value rest => (.number value, rest)
  | .broken b => (.broken false b, [])

/-- The token of a string, or the break in it. -/
def stringToken : Scan (Option String) → Token × List Char
  | .found text rest => (.string text, rest)
  | .broken b => (.broken true b, [])

/-- The token that starts with the character `c`, and what follows it. -/
def scanToken (c : Char) (rest : List Char) : Token × List Char :=
  if c = '[' then (.openArray, rest)
  else if c = ']' then (.closeArray, rest)
  else if c = '\x7b' then (.openObject, rest)
  else if c = '\x7d' then (.closeObject, rest)
  else if c = ',' then (.comma, rest)
  else if c = ':' then (.colon, rest)
  else if c = '"' then stringToken (scanString (some []) rest)
  else if c = 'n' then wordToken .null ['u', 'l', 'l'] rest
  else if c = 't' then wordToken (.boolean true) ['r', 'u', 'e'] rest
  else if c = 'f' then wordToken (.boolean false) ['a', 'l', 's', 'e'] rest
  else if c = '-' then numberToken (scanMagnitude true rest)
  else if c.isDigit then numberToken (scanMagnitude false (c :: rest))
  else (.broken false (.clear .malformed), rest)

end TypedRoutes.Json
