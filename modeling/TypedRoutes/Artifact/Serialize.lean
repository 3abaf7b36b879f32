import TypedRoutes.Artifact.Check
import TypedRoutes.Json.Value

/-!
# Serializers

An expression whose value is the JSON text of a value that is known to match a type. Objects are
written key by key, a property that is undefined being left out; a union is serialized as its first
member that matches. What has no plan of its own is left to the standard serializer.
-/

namespace TypedRoutes.Scope

/-- The member of a union that is tried first comes first; a member that always matches ends the
choice. -/
def choose (branches : List (Expr × Expr)) (otherwise : Expr) : Expr :=
  branches.foldr (fun branch rest =>
    if branch.1.isBoolean true then branch.2 else .conditional branch.1 branch.2 rest) otherwise

/-- What is called with a value that no member of a union matches. -/
def noMatch (scope : Scope) (type : Ty) (input : Expr) : Expr :=
  .invoke (scope.runtime "throws")
    [.objectOf [("expected", .string (scope.expected type)), ("value", input)]]

/-- Texts joined by commas inside an opening and a closing text. -/
def bracketed (opening : String) (items : Expr) (closing : String) : Expr :=
  .concatenation [.string opening, .invoke (.property items "join") [.string ","],
    .string closing]

/-- The entries of an array that are not undefined. -/
def present (entries : List Expr) : Expr :=
  .invoke (.property (.array entries) "filter")
    [.lambda ["str"] (.differs .undefined (.identifier "str"))]

mutual

/-- The expression that serializes `input` as a type. -/
def serialize (scope : Scope) : Ty → Nat → Expr → Generate Expr
  | .mk kind aliasName, depth, input => scope.serializeKind kind aliasName depth input

/-- The expression that serializes `input` as a kind of type with the given alias. -/
def serializeKind (scope : Scope) : TyKind → Option String → Nat → Expr → Generate Expr
  | .string, _, _, input => return .invoke (scope.runtime "string") [input]
  | .number, _, _, input => return .invoke (scope.runtime "number") [input]
  | .boolean, _, _, input => return .invoke (.identifier "String") [input]
  | .null, _, _, _ => return .string "null"
  | .literalString value, _, _, _ => return .string (Json.quote value)
  | .literalNumber value, _, _, _ =>
    return .string (if value.isFinite then numberLiteral value else "null")
  | .literalBoolean value, _, _, _ => return .string (booleanLiteral value)
  | .date, _, _, input =>
    return .invoke (scope.runtime "string") [.invoke (.property input "toJSON") []]
  | .array element, _, depth, input => do
    let name := bindingName depth "elem"
    let text ← scope.serialize element (depth + 1) (.identifier name)
    return bracketed "[" (.invoke (.property input "map") [.lambda [name] text]) "]"
  | .tuple elements, _, depth, input => do
    let parts ← scope.serializeElements elements depth input 0
    return .concatenation (.string "[" :: parts ++ [.string "]"])
  | .object properties, _, depth, input => do
    if properties.any TyProperty.mayBeAbsent then
      let entries ← scope.serializeEntries properties depth input
      return bracketed "\x7b" (present entries) "\x7d"
    else
      let parts ← scope.serializeProperties properties depth input true
      return .concatenation (.string "\x7b" :: parts ++ [.string "\x7d"])
  | .record value, _, depth, input => do
    let key := bindingName depth "key"
    let text ← scope.serialize value (depth + 1) (.element input (.identifier key))
    let entry := Expr.concatenation
      [.invoke (scope.runtime "string") [.identifier key], .string ":", text]
    return bracketed "\x7b" (.invoke (.property
      (.invoke (.property (.identifier "Object") "keys") [input]) "map")
        [.lambda [key] entry]) "\x7d"
  | .reference name, _, _, input => do
    let helper ← scope.callHelper .serialize name [input]
    return helper.getD (.standardJson input)
  | .union members, aliasName, depth, input => do
    let branches ← scope.serializeMembers members false depth input
    return choose branches (scope.noMatch (.mk (.union members) aliasName) input)
  | .bigInt, _, _, input => return .standardJson input
  | .undefined, _, _, input => return .standardJson input
  | .void, _, _, input => return .standardJson input
  | .any, _, _, input => return .standardJson input
  | .unknown, _, _, input => return .standardJson input
  | .never, _, _, input => return .standardJson input
  | .function, _, _, input => return .standardJson input
  | .promise _, _, _, input => return .standardJson input
  | .intersection _, _, _, input => return .standardJson input
  | .internal _, _, _, input => return .standardJson input

/-- Serializes tuple elements from the given position on, with commas between them. -/
def serializeElements (scope : Scope) : List Ty → Nat → Expr → Nat → Generate (List Expr)
  | [], _, _, _ => return []
  | element :: rest, depth, input, position => do
    let text ← scope.serialize element depth (.element input (.natural position))
    let texts ← scope.serializeElements rest depth input (position + 1)
    return if position = 0 then text :: texts else .string "," :: text :: texts

/-- Serializes properties that are always present; a comma stands before all but the first. -/
def serializeProperties (scope : Scope) :
    List TyProperty → Nat → Expr → Bool → Generate (List Expr)
  | [], _, _, _ => return []
  | .mk name type _ _ :: rest, depth, input, first => do
    let text ← scope.serialize type depth (.member input name)
    let texts ← scope.serializeProperties rest depth input false
    return .string ((if first then "" else ",") ++ Json.quote name ++ ":") :: text :: texts

/-- Serializes properties of which some may be absent: those are undefined where their value is. -/
def serializeEntries (scope : Scope) : List TyProperty → Nat → Expr → Generate (List Expr)
  | [], _, _ => return []
  | .mk name type optional _ :: rest, depth, input => do
    let value := Expr.member input name
    let text ← scope.serializeDefined type depth value
    let entry := Expr.concatenation [.string (Json.quote name ++ ":"), text]
    let entry := if optional || type.admitsAbsence
      then Expr.conditional (.equals .undefined value) .undefined entry else entry
    return entry :: (← scope.serializeEntries rest depth input)

/-- Serializes a value that is not undefined: as a type without the undefined members of its
union. -/
def serializeDefined (scope : Scope) : Ty → Nat → Expr → Generate Expr
  | .mk (.union members) _, depth, input =>
    match members.filter fun member => !member.isUndefined with
    | [] => return .standardJson input
    | [_] => scope.serializeOnly members depth input
    | kept => do
      let branches ← scope.serializeMembers members true depth input
      return choose branches (scope.noMatch (TyKind.union kept).type input)
  | .mk kind aliasName, depth, input => scope.serializeKind kind aliasName depth input

/-- Serializes as the first member that is not undefined. -/
def serializeOnly (scope : Scope) : List Ty → Nat → Expr → Generate Expr
  | [], _, input => return .standardJson input
  | member :: rest, depth, input =>
    if member.isUndefined then scope.serializeOnly rest depth input
    else scope.serialize member depth input

/-- The members of a union, each with its check and its serializer; undefined members may be left
out. -/
def serializeMembers (scope : Scope) : List Ty → Bool → Nat → Expr → Generate (List (Expr × Expr))
  | [], _, _, _ => return []
  | member :: rest, defined, depth, input =>
    if defined && member.isUndefined then scope.serializeMembers rest defined depth input
    else do
      let condition ← scope.check member depth input
      let text ← scope.serialize member depth input
      return (condition, text) :: (← scope.serializeMembers rest defined depth input)

end

end TypedRoutes.Scope
