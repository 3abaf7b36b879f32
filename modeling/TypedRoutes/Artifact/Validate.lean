import TypedRoutes.Artifact.Check
import TypedRoutes.Json.Value

/-!
# Validators

Like a check, but every mismatch is reported with its path, and a container goes on with its parts
after a failure, so that all mismatches are found.
-/

namespace TypedRoutes.Scope

/-- The name of the function that collects mismatches. -/
def reporter : String := "$report"

/-- Reports a mismatch; the report is false. -/
def reportMismatch (path : Expr) (expected : String) (value : Expr) : Expr :=
  .invoke (.identifier reporter) [path, .string expected, value]

/-- A condition whose failure is reported. -/
def orReport (condition path : Expr) (expected : String) (value : Expr) : Expr :=
  .disjunction [condition, reportMismatch path expected value]

/-- Whether all flags of an array are set; the array is built completely before that. -/
def everyFlag (flags : Expr) : Expr :=
  .invoke (.property flags "every") [.lambda ["flag"] (.identifier "flag")]

/-- The condition on a container itself, and on its parts if there are any to look at. -/
def combine (head : Expr) (items : List Expr) : Expr :=
  if items.isEmpty then head else .conjunction [head, everyFlag (.array items)]

/-- The step of a path to a property. -/
def accessor (key : String) : String :=
  if isIdentifier key then "." ++ key else "[" ++ Json.quote key ++ "]"

/-- A path with a step in brackets whose text is computed. -/
def indexed (path step : Expr) : Expr :=
  .concatenation [path, .string "[", step, .string "]"]

/-- Whether a value is an object, reported otherwise. -/
def objectHead (path : Expr) (expected : String) (input : Expr) : Expr :=
  orReport (.conjunction (Expr.objectConditions input)) path expected input

mutual

/-- The expression that validates `input` at `path`, where `expected` is wanted. -/
def validate (scope : Scope) : Ty → Nat → Expr → Expr → String → Generate Expr
  | .mk kind _, depth, input, path, expected =>
    scope.validateKind kind depth input path expected

/-- The expression that validates `input` against a kind of type. -/
def validateKind (scope : Scope) : TyKind → Nat → Expr → Expr → String → Generate Expr
  | .reference name, _, input, path, _ => do
    let helper ← scope.callHelper .validate name [input, path]
    return helper.getD (.boolean true)
  | .array element, depth, input, path, expected => do
    let head := orReport (.isArray input) path expected input
    let elem := bindingName depth "elem"
    let index := bindingName depth "index"
    let item ← scope.validate element (depth + 1) (.identifier elem)
      (indexed path (.identifier index)) (scope.expected element)
    if item.isBoolean true then return head
    else return .conjunction [head, everyFlag
      (.invoke (.property input "map") [.lambda [elem, index] item])]
  | .tuple elements, depth, input, path, expected => do
    let shape := Expr.conjunction [.isArray input,
      .equals (.natural elements.length) (.property input "length")]
    let items ← scope.validateElements elements depth input path 0
    return combine (orReport shape path expected input) items
  | .object properties, depth, input, path, expected => do
    let items ← scope.validateProperties properties depth input path
    return combine (objectHead path expected input) items
  | .record value, depth, input, path, expected => do
    let head := objectHead path expected input
    let key := bindingName depth "key"
    let item ← scope.validate value (depth + 1) (.element input (.identifier key))
      (indexed path (.standardJson (.identifier key))) (scope.expected value)
    if item.isBoolean true then return head
    else return .conjunction [head, everyFlag (.invoke (.property
      (.invoke (.property (.identifier "Object") "keys") [input]) "map") [.lambda [key] item])]
  | kind, depth, input, path, expected => do
    let condition ← scope.checkKind kind depth input
    if condition.isBoolean true then return condition
    else return orReport condition path expected input

/-- Validates tuple elements from the given position on; what always holds is left out. -/
def validateElements (scope : Scope) : List Ty → Nat → Expr → Expr → Nat → Generate (List Expr)
  | [], _, _, _, _ => return []
  | element :: rest, depth, input, path, position => do
    let item ← scope.validate element depth (.element input (.natural position))
      (.concatenation [path, .string ("[" ++ Decimal.naturalText position ++ "]")])
      (scope.expected element)
    let items ← scope.validateElements rest depth input path (position + 1)
    return if item.isBoolean true then items else item :: items

/-- Validates object properties; what always holds is left out. -/
def validateProperties (scope : Scope) :
    List TyProperty → Nat → Expr → Expr → Generate (List Expr)
  | [], _, _, _ => return []
  | .mk name type optional _ :: rest, depth, input, path => do
    let value := Expr.member input name
    let item ← scope.validate type depth value
      (.concatenation [path, .string (accessor name)]) (scope.expected type)
    let items ← scope.validateProperties rest depth input path
    return if item.isBoolean true then items
      else (if optional then .disjunction [.equals .undefined value, item] else item) :: items

end

end TypedRoutes.Scope
