import TypedRoutes.Script.TypeExpr
import TypedRoutes.Text.NumberLiteral
import TypedRoutes.Types.References

/-!
# The written form of a type

A type is written under its alias if it has one, and by its structure otherwise. A type with a part
that belongs to the checker has no written form at all.
-/

namespace TypedRoutes

/-- A name without type arguments. -/
def TypeExpr.named (name : String) : TypeExpr := .reference name []

/-- The text of a boolean literal type. -/
def booleanLiteral (value : Bool) : String :=
  if value then "true" else "false"

mutual

/-- The structure of a type as a type expression, aliases first. -/
def Ty.expression : Ty → TypeExpr
  | .mk _ (some aliasName) => .named aliasName
  | .mk kind none => kind.expression

/-- The structure of a kind as a type expression. -/
def TyKind.expression : TyKind → TypeExpr
  | .string => .keyword "string"
  | .number => .keyword "number"
  | .boolean => .keyword "boolean"
  | .bigInt => .keyword "bigint"
  | .null => .keyword "null"
  | .undefined => .keyword "undefined"
  | .void => .keyword "void"
  | .any => .keyword "any"
  | .unknown => .keyword "unknown"
  | .never => .keyword "never"
  | .literalString value => .literal (quoteText value)
  | .literalNumber value => .literal (numberLiteral value)
  | .literalBoolean value => .literal (booleanLiteral value)
  | .date => .named "Date"
  | .function => .named "Function"
  | .array element => .array element.expression
  | .tuple elements => .tuple (Ty.expressions elements)
  | .object properties => .object (TyProperty.members properties)
  | .record value => .reference "Record" [.keyword "string", value.expression]
  | .promise inner => .reference "Promise" [inner.expression]
  | .reference name => .named name
  | .union members => .union (Ty.expressions members)
  | .intersection members => .intersection (Ty.expressions members)
  | .internal name => .named name

/-- The structures of several types. -/
def Ty.expressions : List Ty → List TypeExpr
  | [] => []
  | type :: rest => type.expression :: Ty.expressions rest

/-- The members that properties are written as. -/
def TyProperty.members : List TyProperty → List TypeMember
  | [] => []
  | .mk name type optional _ :: rest =>
    .mk name optional type.expression :: TyProperty.members rest

end

/-- The written form of a type, if it has one. -/
def Ty.written? (type : Ty) : Option TypeExpr :=
  if type.hasInternal then none else some type.expression

end TypedRoutes
