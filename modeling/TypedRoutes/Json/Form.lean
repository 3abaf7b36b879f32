import TypedRoutes.Json.Value

/-!
# Reading records from JSON values

A value that was taken as a whole is read without regard to the order of its text. A record is an
object, or the array of its fields in order. One of several names may be given by its number where
the name is a tag in front of other fields, and as an object with a single empty member where the
name stands for itself.
-/

namespace TypedRoutes.Json

/-- The members of an object whose key is `key`. -/
def membersNamed (key : String) (members : List (String × Json)) : List Json :=
  (members.filter fun member => member.1 == key).map Prod.snd

/-- The field of a record with the given name and position, if it is there: an object may give it
once, and an array holds the fields in order. A record that repeats a field is refused. -/
def field? (json : Json) (name : String) (position : Nat) : Option (Option Json) :=
  match json with
  | .object members =>
    match membersNamed name members with
    | [] => some none
    | [value] => some (some value)
    | _ => none
  | .array items => some items[position]?
  | _ => none

/-- A field that has to be there. -/
def required? {α : Type} (read : Json → Option α) (json : Json) (name : String) (position : Nat) :
    Option α := do
  read (← (← json.field? name position))

/-- A field with a value for when it is left out. -/
def defaulted? {α : Type} (read : Json → Option α) (absent : α) (json : Json) (name : String)
    (position : Nat) : Option α := do
  match ← json.field? name position with
  | none => return absent
  | some value => read value

/-- Whether a value is an array. -/
def isArray : Json → Bool
  | .array _ => true
  | _ => false

/-- A record that is given as an array has no more items than fields. -/
def fits (json : Json) (fields : Nat) : Bool :=
  match json with
  | .array items => items.length ≤ fields
  | _ => true

/-- Reads a text. -/
def text? : Json → Option String
  | .string value => some value
  | _ => none

/-- Reads a boolean. -/
def truth? : Json → Option Bool
  | .boolean value => some value
  | _ => none

/-- Reads a float; natural numbers are converted. -/
def float? : Json → Option Float
  | .number value => some value
  | .natural value => some (Float.ofNat value)
  | _ => none

/-- Reads a byte offset. -/
def offset? : Json → Option UInt32
  | .natural value => if value < UInt32.size then some value.toUInt32 else none
  | _ => none

/-- Reads null as nothing and anything else as a value. -/
def optional? {α : Type} (read : Json → Option α) : Json → Option (Option α)
  | .null => some none
  | other => some <$> read other

/-- Reads the items of an array. -/
def list? {α : Type} (read : Json → Option α) : Json → Option (List α)
  | .array items => items.mapM read
  | _ => none

/-- Whether a value holds nothing. -/
def isEmptyContent : Json → Bool
  | .null => true
  | .object [] => true
  | _ => false

/-- Reads a name that stands for itself; an object whose only member is a name with nothing in it
counts as the name. -/
def choice? : Json → Option String
  | .string name => some name
  | .object [(name, content)] => if content.isEmptyContent then some name else none
  | _ => none

/-- Reads a tag, which is one of several names or its number, counted from zero. -/
def tag? (names : List String) : Json → Option String
  | .string name => some name
  | .natural index => names[index]?
  | _ => none

/-- The tag of a record and the record of its other fields. In an array the tag comes first. -/
def tagged? (names : List String) : Json → Option (String × Json)
  | .object members =>
    match membersNamed "kind" members with
    | [tag] => do return (← tag? names tag, .object members)
    | _ => none
  | .array (tag :: fields) => do return (← tag? names tag, .array fields)
  | _ => none

end TypedRoutes.Json
