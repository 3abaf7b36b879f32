import TypedRoutes.Toml.Literal
import TypedRoutes.Toml.Table
import TypedRoutes.Toml.Token

/-!
# Reading TOML

A document is a sequence of lines: headers, keys with their values, and empty lines. Every step of
the reader takes a token, so the number of tokens is enough fuel. All faults are alike: the
document is not TOML.
-/

namespace TypedRoutes

namespace TomlReader

/-- The tokens that are still to be read. -/
abbrev Tokens := List TomlToken

/-- Passes over blanks. -/
def skipBlanks (tokens : Tokens) : Tokens :=
  tokens.dropWhile fun token => match token with
    | .blank _ => true
    | _ => false

/-- Passes over blanks and line ends. -/
def skipSpace (tokens : Tokens) : Tokens :=
  tokens.dropWhile fun token => match token with
    | .blank _ | .newLine => true
    | _ => false

/-- Whether a character may stand in a bare key. -/
def isBareKeyChar (c : Char) : Bool :=
  c.isAlphanum || c == '_' || c == '-'

/-- The part of a key that a token is. -/
def keyPart? : TomlToken → Option String
  | .word chars => if chars.all isBareKeyChar then some (String.ofList chars) else none
  | .text value false => some value
  | _ => none

/-- Reads the parts of a key, which are separated by dots, and the blanks behind it. -/
def keyParts? : Nat → Tokens → Option (List String × Tokens)
  | 0, _ | _, [] => none
  | fuel + 1, token :: rest => do
    let part ← keyPart? token
    match skipBlanks rest with
    | .dot :: rest =>
      let (parts, rest) ← keyParts? fuel (skipBlanks rest)
      return (part :: parts, rest)
    | rest => return ([part], rest)

/-- Keys have at most this many parts, and arrays and tables that are written as values are nested
at most this deep. -/
def nestingLimit : Nat := 80

/-- Reads a key and the blanks behind it. -/
def key? (fuel : Nat) (tokens : Tokens) : Option (List String × Tokens) := do
  let (parts, rest) ← keyParts? fuel tokens
  guard (parts.length ≤ nestingLimit)
  return (parts, rest)

/-- The text of the words and dots at the front, which stand side by side. -/
def wordText : Tokens → List Char × Tokens
  | .dot :: .word chars :: rest =>
    let (more, rest) := wordText rest
    ('.' :: chars ++ more, rest)
  | tokens => ([], tokens)

/-- The text of a value without quotes that starts with a word. One blank may stand between a date
and a time of day. -/
def literalText (chars : List Char) (tokens : Tokens) : List Char × Tokens :=
  match tokens with
  | .blank [' '] :: .word time :: rest =>
    if TomlLiteral.isDate chars && time.head?.any Char.isDigit then
      let (more, rest) := wordText rest
      (chars ++ ' ' :: time ++ more, rest)
    else (chars, tokens)
  | _ =>
    let (more, rest) := wordText tokens
    (chars ++ more, rest)

/-- The value of a text without quotes. -/
def literal? (text : List Char) : Option Toml :=
  if text = "true".toList then some (.boolean true)
  else if text = "false".toList then some (.boolean false)
  else if TomlLiteral.isMoment text then some (.moment (String.ofList text))
  else ((TomlLiteral.integer? text).map .integer).or ((TomlLiteral.float? text).map .float)

mutual

/-- Reads a value. -/
def value? : Nat → Nat → Tokens → Option (Toml × Tokens)
  | 0, _, _ | _, _, [] => none
  | fuel + 1, depth, token :: rest =>
    match token, depth with
    | .text value _, _ => some (.text value, rest)
    | .word chars, _ => do
      let (text, rest) := literalText chars rest
      return (← literal? text, rest)
    | .openBracket, depth + 1 => do
      let (items, rest) ← items? fuel depth (skipSpace rest)
      return (.array items, rest)
    | .openBrace, depth + 1 => do
      let (members, rest) ← members? fuel depth [] (skipSpace rest)
      return (.table (TomlNode.values members), rest)
    | _, _ => none

/-- Reads the items of an array up to its closing bracket. -/
def items? : Nat → Nat → Tokens → Option (List Toml × Tokens)
  | 0, _, _ => none
  | _ + 1, _, .closeBracket :: rest => some ([], rest)
  | fuel + 1, depth, tokens => do
    let (item, rest) ← value? fuel depth tokens
    match skipSpace rest with
    | .comma :: rest =>
      let (items, rest) ← items? fuel depth (skipSpace rest)
      return (item :: items, rest)
    | .closeBracket :: rest => return ([item], rest)
    | _ => none

/-- Reads the members of a table that is written as a value up to its closing brace. -/
def members? : Nat → Nat → TomlMembers → Tokens → Option (TomlMembers × Tokens)
  | 0, _, _, _ => none
  | _ + 1, _, members, .closeBrace :: rest => some (members, rest)
  | fuel + 1, depth, members, tokens => do
    let (key, rest) ← key? fuel tokens
    match rest with
    | .equals :: rest =>
      let (value, rest) ← value? fuel depth (skipBlanks rest)
      let members ← members.addValue? [] key value
      match skipSpace rest with
      | .comma :: rest => members? fuel depth members (skipSpace rest)
      | .closeBrace :: rest => return (members, rest)
      | _ => none
    | _ => none

end

/-- A document in the making: its members and the path of the last header. -/
structure State where
  members : TomlMembers := []
  header : List String := []

/-- Reads a header behind its opening brackets. -/
def header? (fuel : Nat) (shared : Bool) (state : State) (tokens : Tokens) :
    Option (State × Tokens) := do
  let (path, rest) ← key? fuel (skipBlanks tokens)
  let members ← state.members.addHeader? shared path
  match shared, rest with
  | false, .closeBracket :: rest => return (⟨members, path⟩, rest)
  | true, .closeBracket :: .closeBracket :: rest => return (⟨members, path⟩, rest)
  | _, _ => none

/-- Reads what a line holds besides blanks. -/
def line? (fuel : Nat) (state : State) : Tokens → Option (State × Tokens)
  | [] => some (state, [])
  | .newLine :: rest => some (state, .newLine :: rest)
  | .openBracket :: .openBracket :: rest => header? fuel true state rest
  | .openBracket :: rest => header? fuel false state rest
  | tokens => do
    let (key, rest) ← key? fuel tokens
    match rest with
    | .equals :: rest =>
      let (value, rest) ← value? fuel nestingLimit (skipBlanks rest)
      let members ← state.members.addValue? state.header key value
      return (⟨members, state.header⟩, rest)
    | _ => none

/-- Reads lines until nothing is left. -/
def lines? : Nat → State → Tokens → Option State
  | 0, _, _ => none
  | fuel + 1, state, tokens => do
    let (state, rest) ← line? fuel state (skipBlanks tokens)
    match skipBlanks rest with
    | [] => return state
    | .newLine :: rest => lines? fuel state rest
    | _ => none

end TomlReader

/-- The document that a text holds, if it is TOML. -/
def Toml.ofText? (text : String) : Option Toml := do
  let tokens ← TomlToken.ofText? text
  let state ← TomlReader.lines? (tokens.length + 2) {} tokens
  return .table (TomlNode.values state.members)

end TypedRoutes
