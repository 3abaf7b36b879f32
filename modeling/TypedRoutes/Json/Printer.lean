import TypedRoutes.Json.Value
import TypedRoutes.Text.Quoted

/-!
# Printing JSON

One item or member per line, two spaces per level, a space after the colon. Empty arrays and
objects take no line of their own.
-/

namespace TypedRoutes.Json

/-- The end of a line and the indentation of the next one. -/
def newLine (depth : Nat) : String :=
  "\n" ++ String.join (List.replicate depth "  ")

mutual

/-- The text of a value whose first line starts at the given depth. -/
def text (depth : Nat) : Json → String
  | .null => "null"
  | .boolean value => booleanText value
  | .natural value => Decimal.naturalText value
  | .number value => numberText value
  | .string value => quote value
  | .array [] => "[]"
  | .array (first :: rest) =>
    "[" ++ separated "," ((newLine (depth + 1) ++ text (depth + 1) first) ::
      itemTexts (depth + 1) rest) ++ newLine depth ++ "]"
  | .object [] => "\x7b\x7d"
  | .object ((key, value) :: rest) =>
    "\x7b" ++ separated ","
      ((newLine (depth + 1) ++ (quote key ++ ": " ++ text (depth + 1) value)) ::
        memberTexts (depth + 1) rest) ++ newLine depth ++ "\x7d"

/-- The texts of the items of an array, each on a line of its own. -/
def itemTexts (depth : Nat) : List Json → List String
  | [] => []
  | item :: rest => (newLine depth ++ text depth item) :: itemTexts depth rest

/-- The texts of the members of an object, each on a line of its own. -/
def memberTexts (depth : Nat) : List (String × Json) → List String
  | [] => []
  | (key, value) :: rest =>
    (newLine depth ++ (quote key ++ ": " ++ text depth value)) :: memberTexts depth rest

end

/-- The text of a whole document. -/
def print (value : Json) : String := value.text 0

end TypedRoutes.Json
