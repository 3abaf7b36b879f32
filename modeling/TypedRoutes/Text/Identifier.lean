/-!
# Identifiers

The names that a program may write bare, as a variable, a member after a dot or an unquoted key.
Only ASCII letters are admitted, so that a name outside that range is always quoted.
-/

namespace TypedRoutes

/-- An identifier starts with an ASCII letter, an underscore or a dollar sign. -/
def isIdentifierStart (c : Char) : Bool :=
  c.isAlpha || c == '_' || c == '$'

/-- After its first character an identifier may hold digits as well. -/
def isIdentifierPart (c : Char) : Bool :=
  isIdentifierStart c || c.isDigit

/-- An identifier is a start character followed by part characters. -/
def isIdentifier (name : String) : Bool :=
  match name.toList with
  | [] => false
  | c :: rest => isIdentifierStart c && rest.all isIdentifierPart

/-- Every start character is a part character. -/
theorem isIdentifierPart_of_start {c : Char} (h : isIdentifierStart c = true) :
    isIdentifierPart c = true := by
  simp [isIdentifierPart, h]

end TypedRoutes
