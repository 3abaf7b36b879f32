import TypedRoutes.Json.Token
import TypedRoutes.Text.Identifier

/-!
# Tokens of a program

The lexical grammar of the language that expressions and statements are printed in, as far as it is
needed to read them: names and reserved words, string and number literals, and punctuators, each the
longest that stands at its place. Comments, templates, regular expressions and numbers that are not
decimal are outside this fragment; a text that holds any of them has no tokens.

Which characters outside ASCII are letters is for a table to say, and everything holds for any
table.
-/

namespace TypedRoutes.Grammar

/-- The characters outside ASCII that a name may start with, and those it may go on with. -/
structure Alphabet where
  starts : Char → Bool
  continues : Char → Bool

/-- Characters that end a line. -/
def isLineEnd (c : Char) : Bool :=
  c == '\n' || c == '\r' || c == '\u2028' || c == '\u2029'

/-- Characters that separate tokens and do not end a line. -/
def isSpace (c : Char) : Bool :=
  c == ' ' || c == '\t' || c == '\x0b' || c == '\x0c' || c == '\u00a0' || c == '\u1680' ||
    ('\u2000' ≤ c && c ≤ '\u200a') || c == '\u202f' || c == '\u205f' || c == '\u3000' ||
      c == '\ufeff'

/-- Whether a character outside ASCII may be a letter at all. -/
def isForeign (c : Char) : Bool :=
  128 ≤ c.toNat && !isLineEnd c && !isSpace c

/-- Whether a name may start with a character. -/
def Alphabet.isStart (letters : Alphabet) (c : Char) : Bool :=
  isIdentifierStart c || (isForeign c && letters.starts c)

/-- Whether a name may go on with a character. -/
def Alphabet.isPart (letters : Alphabet) (c : Char) : Bool :=
  isIdentifierPart c || (isForeign c && (letters.starts c || letters.continues c))

/-- Reserved words: those that have a place in expressions and statements here, and all others. -/
inductive Keyword where
  | const
  | branch
  | alternative
  | returns
  | throws
  | typeOf
  | instanceOf
  | yes
  | no
  | null
  | other (text : String)
  deriving DecidableEq, Repr

/-- Words that are reserved in modules and have no place in the expressions and statements here. -/
def otherKeywords : List String :=
  ["await", "break", "case", "catch", "class", "continue", "debugger", "default", "delete", "do",
    "enum", "export", "extends", "finally", "for", "function", "implements", "import", "in",
    "interface", "let", "new", "package", "private", "protected", "public", "static", "super",
    "switch", "this", "try", "var", "void", "while", "with", "yield"]

/-- The reserved word that a text is. -/
def Keyword.ofText? : String → Option Keyword
  | "const" => some .const
  | "if" => some .branch
  | "else" => some .alternative
  | "return" => some .returns
  | "throw" => some .throws
  | "typeof" => some .typeOf
  | "instanceof" => some .instanceOf
  | "true" => some .yes
  | "false" => some .no
  | "null" => some .null
  | text => if otherKeywords.contains text then some (.other text) else none

/-- The text of a reserved word. -/
def Keyword.text : Keyword → String
  | .const => "const"
  | .branch => "if"
  | .alternative => "else"
  | .returns => "return"
  | .throws => "throw"
  | .typeOf => "typeof"
  | .instanceOf => "instanceof"
  | .yes => "true"
  | .no => "false"
  | .null => "null"
  | .other text => text

/-- Punctuators. -/
inductive Mark where
  | openParen
  | closeParen
  | openBracket
  | closeBracket
  | openBrace
  | closeBrace
  | dot
  | comma
  | semicolon
  | colon
  | question
  | arrow
  | assign
  | strictEqual
  | strictNotEqual
  | and
  | or
  | plus
  | minus
  | not
  deriving DecidableEq, Repr

/-- A token; literals are given by what they stand for. -/
inductive Token where
  | name (text : String)
  | keyword (word : Keyword)
  | string (value : String)
  | number (value : Json.Numeral)
  | mark (mark : Mark)
  deriving DecidableEq, Repr

/-- The token of a word: a reserved word, or else a name. -/
def wordToken (text : String) : Token :=
  match Keyword.ofText? text with
  | some word => .keyword word
  | none => .name text

/-- The character that a backslash and a character stand for; numbers and line ends behind a
backslash have a meaning of their own that is not part of the fragment. -/
def escaped? (c : Char) : Option Char :=
  if c = 'n' then some '\n'
  else if c = 'r' then some '\r'
  else if c = 't' then some '\t'
  else if c = 'b' then some '\x08'
  else if c = 'f' then some '\x0c'
  else if c = 'v' then some '\x0b'
  else if c.isDigit || c = 'u' || c = 'x' || isLineEnd c then none
  else some c

/-- Scans the inside of a string literal up to its closing quote; `read` is what was read so far,
the last character first. -/
def scanText (quote : Char) (read : List Char) : List Char → Option (String × List Char)
  | [] => none
  | ['\\'] => none
  | '\\' :: c :: rest => do scanText quote ((← escaped? c) :: read) rest
  | c :: rest =>
    if c = quote then some (String.ofList read.reverse, rest)
    else if c = '\n' || c = '\r' then none
    else scanText quote (c :: read) rest

/-- Scans the punctuator at the front of a text, which has to be one of those that are known. -/
def scanMark : List Char → Option (Mark × List Char)
  | '(' :: rest => some (.openParen, rest)
  | ')' :: rest => some (.closeParen, rest)
  | '[' :: rest => some (.openBracket, rest)
  | ']' :: rest => some (.closeBracket, rest)
  | '\x7b' :: rest => some (.openBrace, rest)
  | '\x7d' :: rest => some (.closeBrace, rest)
  | ',' :: rest => some (.comma, rest)
  | ';' :: rest => some (.semicolon, rest)
  | ':' :: rest => some (.colon, rest)
  | '=' :: '>' :: rest => some (.arrow, rest)
  | '=' :: '=' :: '=' :: rest => some (.strictEqual, rest)
  | '=' :: '=' :: _ => none
  | '=' :: rest => some (.assign, rest)
  | '!' :: '=' :: '=' :: rest => some (.strictNotEqual, rest)
  | '!' :: '=' :: _ => none
  | '!' :: rest => some (.not, rest)
  | '&' :: '&' :: '=' :: _ => none
  | '&' :: '&' :: rest => some (.and, rest)
  | '|' :: '|' :: '=' :: _ => none
  | '|' :: '|' :: rest => some (.or, rest)
  | '?' :: '?' :: _ => none
  | '?' :: '.' :: _ => none
  | '?' :: rest => some (.question, rest)
  | '+' :: '+' :: _ => none
  | '+' :: '=' :: _ => none
  | '+' :: rest => some (.plus, rest)
  | '-' :: '-' :: _ => none
  | '-' :: '=' :: _ => none
  | '-' :: rest => some (.minus, rest)
  | '.' :: '.' :: _ => none
  | '.' :: c :: rest => if c.isDigit then none else some (.dot, c :: rest)
  | '.' :: [] => some (.dot, [])
  | _ => none

/-- Scans a decimal number; no name may follow it without a separator. -/
def scanNumber (letters : Alphabet) (cs : List Char) : Option (Json.Numeral × List Char) :=
  match Json.scanMagnitude false cs with
  | .found value rest => if rest.head?.any letters.isPart then none else some (value, rest)
  | .broken _ => none

/-- The token that starts with the character `c`, and what follows it. -/
def scanToken (letters : Alphabet) (c : Char) (rest : List Char) : Option (Token × List Char) :=
  if letters.isStart c then
    some (wordToken (String.ofList (c :: rest.takeWhile letters.isPart)),
      rest.dropWhile letters.isPart)
  else if c.isDigit then (scanNumber letters (c :: rest)).map fun found =>
    (.number found.1, found.2)
  else if c = '"' || c = '\x27' then (scanText c [] rest).map fun found =>
    (.string found.1, found.2)
  else (scanMark (c :: rest)).map fun found => (.mark found.1, found.2)

/-- Words that a semicolon is put behind when a line ends there. -/
def Token.isHeld : Token → Bool
  | .keyword .returns | .keyword .throws => true
  | _ => false

/-- A token, and the semicolon that is put in front of it: behind a line end when the token before
is held, or when the token is an arrow. -/
def placed (held newLine : Bool) (token : Token) : List Token :=
  if newLine && (held || token == .mark .arrow) then [.mark .semicolon, token] else [token]

/-- The tokens of a text. `held` tells whether the token before is one that a line end puts a
semicolon behind, `newLine` whether a line ended since. -/
def tokens? (letters : Alphabet) (held newLine : Bool) : List Char → Option (List Token)
  | [] => some []
  | c :: rest =>
    if isLineEnd c then tokens? letters held true rest
    else if isSpace c then tokens? letters held newLine rest
    else
      match scanToken letters c rest with
      | none => none
      | some (token, behind) =>
        if behind.length ≤ rest.length then
          (tokens? letters token.isHeld false behind).map (placed held newLine token ++ ·)
        else none
termination_by cs => cs.length

end TypedRoutes.Grammar
