/-!
# Quoted text

The double-quoted string literal of the generated program. A backslash, a quote, a line feed, a
carriage return and a tab are written as two characters, every other character as itself, so the
written form never ends early and never spans two lines.
-/

namespace TypedRoutes

/-- The written form of one character inside a string literal. -/
def escapeChar : Char → List Char
  | '\\' => ['\\', '\\']
  | '"' => ['\\', '"']
  | '\n' => ['\\', 'n']
  | '\r' => ['\\', 'r']
  | '\t' => ['\\', 't']
  | c => [c]

/-- The inside of a string literal, character by character. -/
def escapeText (text : String) : String :=
  String.ofList (text.toList.flatMap escapeChar)

/-- A string literal with its quotes. -/
def quoteText (text : String) : String :=
  "\"" ++ escapeText text ++ "\""

/-- Texts one after the other with a separator between neighbours. -/
def separated (separator : String) : List String → String
  | [] => ""
  | first :: rest => rest.foldl (fun written next => written ++ separator ++ next) first

end TypedRoutes
