import TypedRoutes.Artifact.Scope

/-!
# Structural checks

An expression that is true exactly when a value matches a type. A type that nothing is checked for
gives the literal `true`, which the combinations around it drop.
-/

namespace TypedRoutes.Scope

mutual

/-- The expression that checks `input` against a type. -/
def check (scope : Scope) : Ty → Nat → Expr → Generate Expr
  | .mk kind _, depth, input => scope.checkKind kind depth input

/-- The expression that checks `input` against a kind of type. -/
def checkKind (scope : Scope) : TyKind → Nat → Expr → Generate Expr
  | .string, _, input => return .isOfType "string" input
  | .number, _, input => return .conjunction [.isOfType "number" input,
      .invoke (.property (.identifier "Number") "isFinite") [input]]
  | .boolean, _, input => return .isOfType "boolean" input
  | .bigInt, _, input => return .isOfType "bigint" input
  | .function, _, input => return .isOfType "function" input
  | .null, _, input => return .equals .null input
  | .undefined, _, input => return .equals .undefined input
  | .void, _, input => return .equals .undefined input
  | .literalString value, _, input => return .equals (.string value) input
  | .literalNumber value, _, input => return .equals (.number value) input
  | .literalBoolean value, _, input => return .equals (.boolean value) input
  | .never, _, _ => return .boolean false
  | .any, _, _ => return .boolean true
  | .unknown, _, _ => return .boolean true
  | .promise _, _, _ => return .boolean true
  | .internal _, _, _ => return .boolean true
  | .date, _, input => return .binary .instanceOf input (.identifier "Date")
  | .array element, depth, input => do
    let name := bindingName depth "elem"
    let condition ← scope.check element (depth + 1) (.identifier name)
    if condition.isBoolean true then return .isArray input
    else return .conjunction [.isArray input,
      .invoke (.property input "every") [.lambda [name] condition]]
  | .tuple elements, depth, input => do
    let conditions ← scope.checkElements elements depth input 0
    return .conjunction (.isArray input ::
      .equals (.natural elements.length) (.property input "length") :: conditions)
  | .object properties, depth, input => do
    let conditions ← scope.checkProperties properties depth input
    return .conjunction (Expr.objectConditions input ++ conditions)
  | .record value, depth, input => do
    let name := bindingName depth "value"
    let condition ← scope.check value (depth + 1) (.identifier name)
    if condition.isBoolean true then return .conjunction (Expr.objectConditions input)
    else return .conjunction (Expr.objectConditions input ++
      [.invoke (.property (.invoke (.property (.identifier "Object") "values") [input]) "every")
        [.lambda [name] condition]])
  | .reference name, _, input => do
    let helper ← scope.callHelper .check name [input]
    return helper.getD (.boolean true)
  | .union members, depth, input => do
    return .disjunction (← scope.checkMembers members depth input)
  | .intersection members, depth, input => do
    return .conjunction (← scope.checkMembers members depth input)

/-- The checks of tuple elements, from the given position on. -/
def checkElements (scope : Scope) : List Ty → Nat → Expr → Nat → Generate (List Expr)
  | [], _, _, _ => return []
  | element :: rest, depth, input, position => do
    let condition ← scope.check element depth (.element input (.natural position))
    return condition :: (← scope.checkElements rest depth input (position + 1))

/-- The checks of object properties. An optional property may also be undefined. -/
def checkProperties (scope : Scope) : List TyProperty → Nat → Expr → Generate (List Expr)
  | [], _, _ => return []
  | .mk name type optional _ :: rest, depth, input => do
    let value := Expr.member input name
    let condition ← scope.check type depth value
    let condition := if optional && !condition.isBoolean true
      then Expr.disjunction [.equals .undefined value, condition] else condition
    return condition :: (← scope.checkProperties rest depth input)

/-- The checks of the members of a union or an intersection. -/
def checkMembers (scope : Scope) : List Ty → Nat → Expr → Generate (List Expr)
  | [], _, _ => return []
  | member :: rest, depth, input => do
    let condition ← scope.check member depth input
    return condition :: (← scope.checkMembers rest depth input)

end

end TypedRoutes.Scope
