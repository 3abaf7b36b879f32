import TypedRoutes.Json.Printer
import TypedRoutes.Source.Basic

/-!
# Writing units as JSON

The JSON form of syntax, types, snapshots and source files. A form with several shapes names its
shape in a tag that comes first; the other fields follow in a fixed order, and a field that is
optional is left out where it holds nothing.
-/

namespace TypedRoutes

open Json

/-- An object whose first member names the shape. -/
def taggedJson (shape : String) (members : List (String × Json)) : Json :=
  .object (("kind", .string shape) :: members)

/-- A member that is left out when its list is empty. -/
def memberUnlessEmpty (key : String) (items : List Json) : List (String × Json) :=
  if items.isEmpty then [] else [(key, .array items)]

/-- A member that is left out when there is no value. -/
def memberIfPresent (key : String) (value? : Option Json) : List (String × Json) :=
  match value? with
  | none => []
  | some value => [(key, value)]

mutual

/-- The JSON form of a type expression. -/
def TypeExpr.toJson : TypeExpr → Json
  | .keyword name => taggedJson "Keyword" [("name", .string name)]
  | .literal text => taggedJson "Literal" [("text", .string text)]
  | .reference name arguments => taggedJson "Reference"
    (("name", .string name) :: memberUnlessEmpty "arguments" (TypeExpr.toJsons arguments))
  | .array element => taggedJson "Array" [("element", element.toJson)]
  | .tuple elements => taggedJson "Tuple" [("elements", .array (TypeExpr.toJsons elements))]
  | .object members => taggedJson "TypeLiteral" [("members", .array (TypeMember.toJsons members))]
  | .union types => taggedJson "Union" [("types", .array (TypeExpr.toJsons types))]
  | .intersection types => taggedJson "Intersection" [("types", .array (TypeExpr.toJsons types))]

/-- The JSON forms of several type expressions. -/
def TypeExpr.toJsons : List TypeExpr → List Json
  | [] => []
  | type :: rest => type.toJson :: TypeExpr.toJsons rest

/-- The JSON forms of the members of an object type. -/
def TypeMember.toJsons : List TypeMember → List Json
  | [] => []
  | .mk name optional type :: rest =>
    .object [("name", .string name), ("optional", .boolean optional), ("ty", type.toJson)] ::
      TypeMember.toJsons rest

end

/-- The name of a unary operator in JSON. -/
def UnaryOp.jsonName : UnaryOp → String
  | .not => "not"
  | .typeOf => "type_of"

/-- The name of a binary operator in JSON. -/
def BinaryOp.jsonName : BinaryOp → String
  | .strictEqual => "strict_equal"
  | .strictNotEqual => "strict_not_equal"
  | .and => "and"
  | .or => "or"
  | .plus => "plus"
  | .instanceOf => "instance_of"

/-- The JSON form of a span. -/
def Span.toJson (span : Span) : Json :=
  .object [("start", .natural span.start.toNat), ("end", .natural span.stop.toNat)]

mutual

/-- The JSON form of an expression. -/
def Expr.toJson : Expr → Json
  | .identifier name => taggedJson "Identifier" [("name", .string name)]
  | .property target name =>
    taggedJson "PropertyAccess" [("object", target.toJson), ("name", .string name)]
  | .element target index =>
    taggedJson "ElementAccess" [("object", target.toJson), ("index", index.toJson)]
  | .call callee typeArguments arguments span => taggedJson "Call"
    (("callee", callee.toJson) ::
      (memberUnlessEmpty "type_arguments" (TypeExpr.toJsons typeArguments) ++
        [("arguments", .array (Expr.toJsons arguments)), ("span", span.toJson)]))
  | .string value => taggedJson "StringLiteral" [("value", .string value)]
  | .number value => taggedJson "NumericLiteral" [("value", .number value)]
  | .boolean value => taggedJson "BooleanLiteral" [("value", .boolean value)]
  | .null => taggedJson "Null" []
  | .object entries => taggedJson "ObjectLiteral" [("properties", .array (Entry.toJsons entries))]
  | .array elements => taggedJson "ArrayLiteral" [("elements", .array (Expr.toJsons elements))]
  | .arrow params body =>
    taggedJson "Arrow" [("params", .array (params.map .string)), ("body", body.toJson)]
  | .unary op operand =>
    taggedJson "Unary" [("op", .string op.jsonName), ("operand", operand.toJson)]
  | .binary op left right => taggedJson "Binary"
    [("op", .string op.jsonName), ("left", left.toJson), ("right", right.toJson)]
  | .conditional condition whenTrue whenFalse => taggedJson "Conditional"
    [("condition", condition.toJson), ("when_true", whenTrue.toJson),
      ("when_false", whenFalse.toJson)]

/-- The JSON forms of several expressions. -/
def Expr.toJsons : List Expr → List Json
  | [] => []
  | expr :: rest => expr.toJson :: Expr.toJsons rest

/-- The JSON forms of the entries of an object literal. -/
def Entry.toJsons : List Entry → List Json
  | [] => []
  | .mk key value :: rest =>
    .object [("key", .string key), ("value", value.toJson)] :: Entry.toJsons rest

/-- The JSON form of the body of a closure. -/
def Body.toJson : Body → Json
  | .concise value => .object [("body", .string "Expr"), ("value", value.toJson)]
  | .block statements =>
    .object [("body", .string "Block"), ("value", .array (Stmt.toJsons statements))]

/-- The JSON forms of several statements. -/
def Stmt.toJsons : List Stmt → List Json
  | [] => []
  | stmt :: rest => stmt.toJson :: Stmt.toJsons rest

/-- The JSON form of a statement. -/
def Stmt.toJson : Stmt → Json
  | .const name value => taggedJson "Const" [("name", .string name), ("init", value.toJson)]
  | .branch condition consequent alternative => taggedJson "If"
    (("condition", condition.toJson) :: ("then", .array (Stmt.toJsons consequent)) ::
      memberUnlessEmpty "otherwise" (Stmt.toJsons alternative))
  | .returns value => taggedJson "Return" [("value", value.toJson)]
  | .throws value => taggedJson "Throw" [("value", value.toJson)]
  | .expression value => taggedJson "Expression" [("expr", value.toJson)]

end

/-- The JSON form of a decorator. -/
def Decorator.toJson (decorator : Decorator) : Json :=
  .object [("expression", decorator.expression.toJson)]

mutual

/-- The JSON form of a type. -/
def Ty.toJson : Ty → Json
  | .mk kind aliasName =>
    .object (("kind", kind.toJson) :: memberIfPresent "alias" (aliasName.map .string))

/-- The JSON form of a kind of type: its name, and what it is made of if it is made of anything. -/
def TyKind.toJson : TyKind → Json
  | .string => .object [("type", .string "String")]
  | .number => .object [("type", .string "Number")]
  | .boolean => .object [("type", .string "Boolean")]
  | .bigInt => .object [("type", .string "BigInt")]
  | .null => .object [("type", .string "Null")]
  | .undefined => .object [("type", .string "Undefined")]
  | .void => .object [("type", .string "Void")]
  | .any => .object [("type", .string "Any")]
  | .unknown => .object [("type", .string "Unknown")]
  | .never => .object [("type", .string "Never")]
  | .date => .object [("type", .string "Date")]
  | .function => .object [("type", .string "Function")]
  | .literalString value => .object [("type", .string "LiteralString"), ("value", .string value)]
  | .literalNumber value => .object [("type", .string "LiteralNumber"), ("value", .number value)]
  | .literalBoolean value =>
    .object [("type", .string "LiteralBoolean"), ("value", .boolean value)]
  | .array element => .object [("type", .string "Array"), ("value", element.toJson)]
  | .tuple elements =>
    .object [("type", .string "Tuple"), ("value", .array (Ty.toJsons elements))]
  | .object properties => .object [("type", .string "Object"),
    ("value", .object [("properties", .array (TyProperty.toJsons properties))])]
  | .record value => .object [("type", .string "Record"), ("value", value.toJson)]
  | .promise inner => .object [("type", .string "Promise"), ("value", inner.toJson)]
  | .reference name => .object [("type", .string "Reference"), ("value", .string name)]
  | .union members => .object [("type", .string "Union"), ("value", .array (Ty.toJsons members))]
  | .intersection members =>
    .object [("type", .string "Intersection"), ("value", .array (Ty.toJsons members))]
  | .internal name => .object [("type", .string "Internal"), ("value", .string name)]

/-- The JSON forms of several types. -/
def Ty.toJsons : List Ty → List Json
  | [] => []
  | type :: rest => type.toJson :: Ty.toJsons rest

/-- The JSON forms of several properties. -/
def TyProperty.toJsons : List TyProperty → List Json
  | [] => []
  | property :: rest => property.toJson :: TyProperty.toJsons rest

/-- The JSON form of a property. -/
def TyProperty.toJson : TyProperty → Json
  | .mk name type optional description =>
    .object ([("name", .string name), ("ty", type.toJson), ("optional", .boolean optional)] ++
      memberIfPresent "description" (description.map .string))

end

/-- The JSON form of a map: its entries in key order. -/
def KeyMap.toJson {α : Type} (write : α → Json) (map : KeyMap α) : Json :=
  .object (map.entries.map fun entry => (entry.1, write entry.2))

/-- The JSON form of a value that may be missing. -/
def orNull {α : Type} (write : α → Json) : Option α → Json
  | none => .null
  | some value => write value

/-- The JSON form of a declaration; a file name that is no text is given as it is shown. -/
def Declaration.toJson (declaration : Declaration) : Json :=
  .object [("file_name", .string declaration.fileName.shown),
    ("symbol", .string declaration.symbol)]

/-- The JSON form of a snapshot. -/
def Snapshot.toJson (snapshot : Snapshot) : Json :=
  .object [("symbols", snapshot.symbols.toJson (orNull Declaration.toJson)),
    ("values", snapshot.values.toJson Ty.toJson),
    ("definitions", snapshot.definitions.toJson Ty.toJson)]

/-- The JSON form of a method. -/
def MethodDeclaration.toJson (method : MethodDeclaration) : Json :=
  .object ([("name", .string method.name),
    ("decorators", .array (method.decorators.map Decorator.toJson))] ++
      memberIfPresent "return_type" (method.returnType?.map Ty.toJson))

/-- The JSON form of a class. -/
def ClassDeclaration.toJson (declaration : ClassDeclaration) : Json :=
  .object [("name", .string declaration.name),
    ("methods", .array (declaration.methods.map MethodDeclaration.toJson))]

/-- The JSON form of a source file; a file name that is no text is given as it is shown. -/
def SourceFile.toJson (file : SourceFile) : Json :=
  .object [("file_name", .string file.fileName.shown),
    ("classes", .array (file.classes.map ClassDeclaration.toJson))]

/-- The JSON form of a unit. -/
def CompilationUnit.toJson (unit : CompilationUnit) : Json :=
  .object [("source", unit.source.toJson), ("types", unit.types.toJson)]

/-- The names of files in a unit: of its source file, and of those that its symbols are declared
in. -/
def CompilationUnit.fileNames (unit : CompilationUnit) : List ByteText :=
  unit.source.fileName ::
    unit.types.symbols.entries.filterMap fun entry => entry.2.map Declaration.fileName

/-- What a unit is stored as: a document can only hold file names that are texts. -/
def CompilationUnit.toJson? (unit : CompilationUnit) : Option Json :=
  if unit.fileNames.all fun name => name.text?.isSome then some unit.toJson else none

/-- The text that a unit is stored as, empty if it cannot be stored. -/
def CompilationUnit.toText (unit : CompilationUnit) : String :=
  (unit.toJson?.map Json.print).getD ""

end TypedRoutes
