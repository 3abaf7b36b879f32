import TypedRoutes.Artifact.Registry
import TypedRoutes.Script.Build
import TypedRoutes.Types.Table
import TypedRoutes.Types.Written

/-!
# Generation

What the generation of one closure consults, and the state it threads: the registry of helpers.
The nesting of closures is an argument, for it decides how parameters are called and nothing else.
-/

namespace TypedRoutes

/-- The factory whose run-time functions the closure calls, the definitions of named types, and how
types are written in messages. -/
structure Scope where general ::
  factory : Expr
  definitions : TypeTable
  written? : Ty → Option TypeExpr

/-- A scope in which types are written as usual. -/
abbrev Scope.mk (factory : Expr) (definitions : TypeTable) : Scope :=
  .general factory definitions Ty.written?

/-- A step of generation: it may ask for helpers. -/
abbrev Generate (α : Type) := StateM Registry α

/-- The name of a closure parameter: bare at the top and numbered below, so that an inner closure
never hides a parameter of an outer one. -/
def bindingName (depth : Nat) (name : String) : String :=
  if depth = 0 then name else name ++ Decimal.naturalText depth

namespace Scope

/-- A run-time function of the factory. -/
def runtime (scope : Scope) (name : String) : Expr := .property scope.factory name

/-- The written form of a type for messages. -/
def expected (scope : Scope) (type : Ty) : String :=
  ((scope.written? type).map TypeExpr.text).getD "unknown"

/-- Asks for a helper. -/
def request (kind : HelperKind) (typeName : String) : Generate String := fun registry =>
  registry.request kind typeName

/-- A call of the helper for a named type; a type without definition has no helper. -/
def callHelper (scope : Scope) (kind : HelperKind) (typeName : String) (arguments : List Expr) :
    Generate (Option Expr) :=
  match scope.definitions.get? typeName with
  | none => return none
  | some _ => do
    let name ← request kind typeName
    return some (.invoke (.identifier name) arguments)

end Scope

namespace Expr

/-- Whether the run-time type of a value has the given name. -/
def isOfType (name : String) (input : Expr) : Expr :=
  .equals (.string name) (.typeOf input)

/-- Whether a value is an array. -/
def isArray (input : Expr) : Expr :=
  .invoke (.property (.identifier "Array") "isArray") [input]

/-- The two conditions under which a value is an object. -/
def objectConditions (input : Expr) : List Expr :=
  [isOfType "object" input, .differs .null input]

/-- A position or a length. -/
def natural (n : Nat) : Expr := .number (Float.ofNat n)

/-- The text that the standard serializer gives. -/
def standardJson (input : Expr) : Expr :=
  .invoke (.property (.identifier "JSON") "stringify") [input]

end Expr

end TypedRoutes
