import TypedRoutes.Text.Hexadecimal

/-!
# TOML tokens

The scanner splits a document into punctuation, strings, words and line ends. Comments are dropped.
Blanks are kept, because some of what is written side by side may not be written apart. A document
with a string that does not end, an unknown escape or a bare control character has no tokens.
-/

namespace TypedRoutes

/-- A token. A word is a run of characters that is no punctuation; whether it is a key or a value
is not known here. -/
inductive TomlToken where
  | equals
  | dot
  | comma
  | openBracket
  | closeBracket
  | openBrace
  | closeBrace
  | newLine
  | blank (chars : List Char)
  | word (chars : List Char)
  | text (value : String) (severalLines : Bool)
  deriving DecidableEq, Repr

namespace TomlToken

/-- Blanks inside a line. -/
def isBlank (c : Char) : Bool := c == ' ' || c == '\t'

/-- Control characters other than the tab stand nowhere but at the end of a line. -/
def isControl (c : Char) : Bool :=
  (c.toNat < 32 && c != '\t') || c.toNat == 127

/-- The characters that end a word. -/
def endsWord (c : Char) : Bool :=
  isBlank c || isControl c || "=.,[]\x7b\x7d#\"'".toList.contains c

/-- The character with the given number, if it is one. -/
def charOf? (number : Nat) : Option Char :=
  if number.isValidChar then some (Char.ofNat number) else none

/-- The character that hexadecimal digits stand for. -/
def escapedNumber? (digits : List Char) : Option Char :=
  (hexNumber? digits).bind charOf?

/-- The character that a one-letter escape stands for. -/
def escapedLetter? (c : Char) : Option Char :=
  if c = '"' || c = '\\' then some c
  else if c = 'b' then some '\x08'
  else if c = 't' then some '\t'
  else if c = 'n' then some '\n'
  else if c = 'f' then some '\x0c'
  else if c = 'r' then some '\r'
  else if c = 'e' then some '\x1b'
  else none

/-- The character of the escape behind a backslash, and what follows it. -/
def escape? : List Char → Option (Char × List Char)
  | 'x' :: rest => (escapedNumber? (rest.take 2)).map (·, rest.drop 2)
  | 'u' :: rest => (escapedNumber? (rest.take 4)).map (·, rest.drop 4)
  | 'U' :: rest => (escapedNumber? (rest.take 8)).map (·, rest.drop 8)
  | c :: rest => (escapedLetter? c).map (·, rest)
  | [] => none

/-- Whether nothing but blanks stands before the end of the line. -/
def isLineEnd (cs : List Char) : Bool :=
  match cs.dropWhile isBlank with
  | '\n' :: _ => true
  | '\r' :: '\n' :: _ => true
  | _ => false

/-- Scans a string on one line up to its closing quote; `taken` holds its characters, last one
first. Every step takes a character, so the length of the text is enough fuel. -/
def scanBasic (taken : List Char) : Nat → List Char → Option (String × List Char)
  | 0, _ | _, [] => none
  | _ + 1, '"' :: rest => some (String.ofList taken.reverse, rest)
  | fuel + 1, '\\' :: rest =>
    match escape? rest with
    | some (c, rest) => scanBasic (c :: taken) fuel rest
    | none => none
  | fuel + 1, c :: rest => if isControl c then none else scanBasic (c :: taken) fuel rest

/-- Scans a string over several lines up to its three closing quotes, in front of which two more
may stand. A backslash at the end of a line hides the white space that follows. -/
def scanBasicLines (skipping : Bool) (taken : List Char) :
    Nat → List Char → Option (String × List Char)
  | 0, _ | _, [] => none
  | _ + 1, '"' :: '"' :: '"' :: '"' :: '"' :: rest =>
    some (String.ofList (taken.reverse ++ ['"', '"']), rest)
  | _ + 1, '"' :: '"' :: '"' :: '"' :: rest => some (String.ofList (taken.reverse ++ ['"']), rest)
  | _ + 1, '"' :: '"' :: '"' :: rest => some (String.ofList taken.reverse, rest)
  | fuel + 1, '\r' :: '\n' :: rest =>
    scanBasicLines skipping (if skipping then taken else '\n' :: '\r' :: taken) fuel rest
  | fuel + 1, '\\' :: rest =>
    if isLineEnd rest then scanBasicLines true taken fuel rest
    else match escape? rest with
      | some (c, rest) => scanBasicLines false (c :: taken) fuel rest
      | none => none
  | fuel + 1, c :: rest =>
    if skipping && (isBlank c || c == '\n') then scanBasicLines true taken fuel rest
    else if isControl c && c != '\n' then none
    else scanBasicLines false (c :: taken) fuel rest

/-- Scans a string without escapes on one line up to its closing quote. -/
def scanLiteral (cs : List Char) : Option (String × List Char) :=
  match cs.dropWhile fun c => c != '\'' && !isControl c with
  | '\'' :: rest => some (String.ofList (cs.takeWhile fun c => c != '\''), rest)
  | _ => none

/-- Scans a string without escapes over several lines up to its three closing quotes, in front of
which two more may stand. -/
def scanLiteralLines (taken : List Char) : List Char → Option (String × List Char)
  | [] => none
  | '\'' :: '\'' :: '\'' :: '\'' :: '\'' :: rest =>
    some (String.ofList (taken.reverse ++ ['\'', '\'']), rest)
  | '\'' :: '\'' :: '\'' :: '\'' :: rest => some (String.ofList (taken.reverse ++ ['\'']), rest)
  | '\'' :: '\'' :: '\'' :: rest => some (String.ofList taken.reverse, rest)
  | '\r' :: '\n' :: rest => scanLiteralLines ('\n' :: '\r' :: taken) rest
  | c :: rest => if isControl c && c != '\n' then none else scanLiteralLines (c :: taken) rest

/-- The line end right behind the opening quotes of a string over several lines is no part of
it. -/
def skipFirstLineEnd : List Char → List Char
  | '\n' :: rest => rest
  | '\r' :: '\n' :: rest => rest
  | cs => cs

/-- The token of a scanned string. -/
def textToken (severalLines : Bool) (scanned : Option (String × List Char)) :
    Option (TomlToken × List Char) :=
  scanned.map fun found => (.text found.1 severalLines, found.2)

/-- The punctuation mark that a character is. -/
def mark? (c : Char) : Option TomlToken :=
  if c = '=' then some .equals
  else if c = '.' then some .dot
  else if c = ',' then some .comma
  else if c = '[' then some .openBracket
  else if c = ']' then some .closeBracket
  else if c = '\x7b' then some .openBrace
  else if c = '\x7d' then some .closeBrace
  else if c = '\n' then some .newLine
  else none

/-- The first token of a text, comments aside, and what follows it. -/
def scan? : List Char → Option (TomlToken × List Char)
  | [] => none
  | '"' :: '"' :: '"' :: rest =>
    textToken true (scanBasicLines false [] (rest.length + 1) (skipFirstLineEnd rest))
  | '"' :: rest => textToken false (scanBasic [] (rest.length + 1) rest)
  | '\'' :: '\'' :: '\'' :: rest => textToken true (scanLiteralLines [] (skipFirstLineEnd rest))
  | '\'' :: rest => textToken false (scanLiteral rest)
  | '\r' :: '\n' :: rest => some (.newLine, rest)
  | c :: rest =>
    match mark? c with
    | some token => some (token, rest)
    | none =>
      if isBlank c then some (.blank (c :: rest.takeWhile isBlank), rest.dropWhile isBlank)
      else if isControl c then none
      else some (.word (c :: rest.takeWhile (!endsWord ·)), rest.dropWhile (!endsWord ·))

/-- The rest of the line behind a comment, unless the comment holds a control character. -/
def skipComment (cs : List Char) : List Char :=
  cs.dropWhile (!isControl ·)

/-- The tokens of a text. Every step takes a character, so the length of the text is enough
fuel. -/
def all? : Nat → List Char → Option (List TomlToken)
  | _, [] => some []
  | 0, _ :: _ => none
  | fuel + 1, '#' :: rest => all? fuel (skipComment rest)
  | fuel + 1, cs => do
    let (token, rest) ← scan? cs
    return token :: (← all? fuel rest)

/-- The tokens of a document; a mark of the byte order in front of it is passed over. -/
def ofText? (text : String) : Option (List TomlToken) :=
  match text.toList with
  | '\ufeff' :: rest => all? rest.length rest
  | cs => all? cs.length cs

end TomlToken

end TypedRoutes
