import TypedRoutes.Artifact.Mode
import TypedRoutes.Artifact.Serialize
import TypedRoutes.Artifact.Validate

/-!
# Artifacts

An artifact is the object literal that a route decorator receives: the name of the mode and a
closure for it. The closure declares the helpers that its body uses, directly or through other
helpers, before the statements of the body.
-/

namespace TypedRoutes

namespace Scope

/-- The closure of a helper. -/
def helperClosure (scope : Scope) (depth : Nat) (helper : Helper) (definition : Ty) :
    Generate Expr :=
  let input := Expr.identifier "input"
  match helper.kind with
  | .check => .lambda ["input"] <$> scope.check definition depth input
  | .serialize => .lambda ["input"] <$> scope.serialize definition depth input
  | .validate => .lambda ["input", "path"] <$>
      scope.validate definition depth input (.identifier "path") helper.typeName

/-- Generates the helpers that wait, and those that they ask for in turn, at most `fuel` of them. -/
def drainWithin (scope : Scope) (depth : Nat) : Nat → Generate (List (Helper × Expr))
  | 0 => return []
  | fuel + 1 => do
    match (← get).nextPending with
    | none => return []
    | some (helper, registry) =>
      set registry
      match scope.definitions.get? helper.typeName with
      | none => scope.drainWithin depth fuel
      | some definition => do
        let closure ← scope.helperClosure depth helper definition
        return (helper, closure) :: (← scope.drainWithin depth fuel)

/-- The number of helpers there can be: one of each kind for every definition. -/
def helperBound (scope : Scope) : Nat := 3 * scope.definitions.size

/-- The order of declaration: by kind, then by number. -/
def declaredBefore (a b : Helper × Expr) : Bool :=
  a.1.kind.rank < b.1.kind.rank ||
    (a.1.kind.rank == b.1.kind.rank && a.1.index ≤ b.1.index)

/-- The declaration of a helper. -/
def declareHelper (generated : Helper × Expr) : Stmt :=
  .const (generated.1.kind.helperName generated.1.index) generated.2

/-- Generates every helper that waits and declares them in order. -/
def drain (scope : Scope) (depth : Nat) : Generate (List Stmt) := do
  let generated ← scope.drainWithin depth scope.helperBound
  return (generated.mergeSort declaredBefore).map declareHelper

/-- What every closure takes. -/
def input : Expr := .identifier "input"

/-- The error that an assertion throws. -/
def guardError (scope : Scope) (type : Ty) : Expr :=
  .invoke (scope.runtime "guard")
    [.objectOf [("expected", .string (scope.expected type)), ("value", input)]]

/-- The declarations that a report needs: the list of mismatches and the function that adds one. -/
def reportDeclarations : List Stmt :=
  [.const "errors" (.array []),
    .const reporter (.lambdaBlock ["path", "expected", "value"]
      [.expression (.invoke (.property (.identifier "errors") "push")
        [.objectOf [("path", .identifier "path"), ("expected", .identifier "expected"),
          ("value", .identifier "value")]]),
        .returns (.boolean false)])]

/-- The declarations and the statements of the closure for a mode, helpers aside. -/
def body (scope : Scope) (mode : Mode) (type : Ty) : Generate (List Stmt × List Stmt) := do
  match mode with
  | .stringify =>
    let text ← scope.serialize type 0 input
    return ([], [.returns text])
  | .is =>
    let condition ← scope.check type 0 input
    let text ← scope.serialize type 0 input
    return ([], [.returns (if condition.isBoolean true then text
      else .conditional condition text .null)])
  | .assert =>
    let condition ← scope.check type 0 input
    let text ← scope.serialize type 0 input
    let guard := if condition.isBoolean true then []
      else [Stmt.branch (.negation condition) [.throws (scope.guardError type)] []]
    return ([], guard ++ [.returns text])
  | .validate =>
    let success ← scope.validate type 0 input (.string "$input") (scope.expected type)
    let text ← scope.serialize type 0 input
    return (reportDeclarations, [.const "success" success,
      .returns (.objectOf [("success", .identifier "success"),
        ("data", .conditional (.identifier "success") text .null),
        ("errors", .identifier "errors")])])

/-- The closure for a mode. -/
def closure (scope : Scope) (mode : Mode) (type : Ty) : Generate Expr := do
  let (declarations, statements) ← scope.body mode type
  let helpers ← scope.drain 0
  return .lambdaBlock ["input"] (declarations ++ helpers ++ statements)

/-- The artifact for a type: the mode under `type`, the closure under the name of the mode. -/
def artifactLiteral (scope : Scope) (mode : Mode) (type : Ty) : Expr :=
  .objectOf [("type", .string mode.name), (mode.name, ((scope.closure mode type).run .empty).1)]

end Scope

/-- The artifact for a type, where types are written as usual. -/
def artifact (definitions : TypeTable) (factory : Expr) (mode : Mode) (type : Ty) : Expr :=
  (Scope.mk factory definitions).artifactLiteral mode type

end TypedRoutes
