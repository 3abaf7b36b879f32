import TypedRoutes.Json.Form
import TypedRoutes.Types.Basic

/-!
# Reading types from JSON values

A type whose kind stands behind what it is made of is taken from the text as a whole first, and read
from there. The name of its kind is a tag in an array, and a name that stands for itself in an
object.
-/

namespace TypedRoutes

open Json

/-- The kinds of type that are made of nothing else, by name. -/
def plainKind? : String → Option TyKind
  | "String" => some .string
  | "Number" => some .number
  | "Boolean" => some .boolean
  | "BigInt" => some .bigInt
  | "Null" => some .null
  | "Undefined" => some .undefined
  | "Void" => some .void
  | "Any" => some .any
  | "Unknown" => some .unknown
  | "Never" => some .never
  | "Date" => some .date
  | "Function" => some .function
  | _ => none

/-- The names of all kinds of type. -/
def kindNames : List String :=
  ["String", "Number", "Boolean", "BigInt", "Null", "Undefined", "Void", "Any", "Unknown", "Never",
    "LiteralString", "LiteralNumber", "LiteralBoolean", "Date", "Array", "Tuple", "Object",
    "Record", "Function", "Promise", "Reference", "Union", "Intersection", "Internal"]

/-- Reads a property. -/
def TyProperty.ofJsonWith? (type? : Json → Option Ty) (json : Json) : Option TyProperty := do
  guard (fits json 4)
  return .mk (← json.required? text? "name" 0) (← json.required? type? "ty" 1)
    (← json.defaulted? truth? false "optional" 2)
    (← json.defaulted? (optional? text?) none "description" 3)

/-- Reads what a kind of type with the given name is made of. -/
def TyKind.contentOfJson? (type? : Json → Option Ty) (name : String) (json : Json) :
    Option TyKind :=
  match name with
  | "LiteralString" => .literalString <$> text? json
  | "LiteralNumber" => .literalNumber <$> float? json
  | "LiteralBoolean" => .literalBoolean <$> truth? json
  | "Array" => .array <$> type? json
  | "Tuple" => .tuple <$> list? type? json
  | "Object" => do
    guard (fits json 1)
    return .object (← json.defaulted? (list? (TyProperty.ofJsonWith? type?)) [] "properties" 0)
  | "Record" => .record <$> type? json
  | "Promise" => .promise <$> type? json
  | "Reference" => .reference <$> text? json
  | "Union" => .union <$> list? type? json
  | "Intersection" => .intersection <$> list? type? json
  | "Internal" => .internal <$> text? json
  | _ =>
    match json with
    | .null => plainKind? name
    | _ => none

/-- Reads a kind of type. A kind that is made of nothing else needs only its name in an object. -/
def TyKind.ofJsonWith? (type? : Json → Option Ty) : Json → Option TyKind
  | .array [tag, content] => do TyKind.contentOfJson? type? (← tag? kindNames tag) content
  | .object members => do
    let name ← (Json.object members).required? choice? "type" 0
    match ← (Json.object members).field? "value" 1 with
    | some content => TyKind.contentOfJson? type? name content
    | none => plainKind? name
  | _ => none

/-- Reads a type that is at most as deep as the budget. -/
def Ty.ofJson? : Nat → Json → Option Ty
  | 0, _ => none
  | budget + 1, json => do
    guard (fits json 2)
    return .mk (← json.required? (TyKind.ofJsonWith? (Ty.ofJson? budget)) "kind" 0)
      (← json.defaulted? (optional? text?) none "alias" 1)

end TypedRoutes
