import TypedRoutes.Json.Form
import TypedRoutes.Script.Expr

/-!
# Reading syntax from JSON

The inverse of the written form of expressions, statements and type expressions. The fields of
such a form are taken from the text as a whole before any of them is looked at, because the field
that names the shape may stand anywhere. Fields may also be given by position, behind the name of
the shape, and the shape by its number.
-/

namespace TypedRoutes

open Json

/-- The names of all shapes of type expressions. -/
def TypeExpr.shapeNames : List String :=
  ["Keyword", "Literal", "Reference", "Array", "Tuple", "TypeLiteral", "Union", "Intersection"]

/-- The names of all shapes of expressions. -/
def Expr.shapeNames : List String :=
  ["Identifier", "PropertyAccess", "ElementAccess", "Call", "StringLiteral", "NumericLiteral",
    "BooleanLiteral", "Null", "ObjectLiteral", "ArrayLiteral", "Arrow", "Unary", "Binary",
    "Conditional"]

/-- The names of both shapes of the body of a closure. -/
def Body.shapeNames : List String := ["Expr", "Block"]

/-- The names of all shapes of statements. -/
def Stmt.shapeNames : List String := ["Const", "If", "Return", "Throw", "Expression"]

/-- A tree that is at most as deep as a budget is read by spending one level per shape. -/
def TypeExpr.ofJson? : Nat → Json → Option TypeExpr
  | 0, _ => none
  | budget + 1, json => do
    let type? := TypeExpr.ofJson? budget
    let types? := list? type?
    let member? := fun json => do
      guard (fits json 3)
      return TypeMember.mk (← json.required? text? "name" 0)
        (← json.defaulted? truth? false "optional" 1) (← json.required? type? "ty" 2)
    let (name, record) ← tagged? TypeExpr.shapeNames json
    match name with
    | "Keyword" =>
      guard (fits record 1)
      return .keyword (← record.required? text? "name" 0)
    | "Literal" =>
      guard (fits record 1)
      return .literal (← record.required? text? "text" 0)
    | "Reference" =>
      guard (fits record 2)
      return .reference (← record.required? text? "name" 0)
        (← record.defaulted? types? [] "arguments" 1)
    | "Array" =>
      guard (fits record 1)
      return .array (← record.required? type? "element" 0)
    | "Tuple" =>
      guard (fits record 1)
      return .tuple (← record.required? types? "elements" 0)
    | "TypeLiteral" =>
      guard (fits record 1)
      return .object (← record.required? (list? member?) "members" 0)
    | "Union" =>
      guard (fits record 1)
      return .union (← record.required? types? "types" 0)
    | "Intersection" =>
      guard (fits record 1)
      return .intersection (← record.required? types? "types" 0)
    | _ => none

/-- Reads a unary operator by its name. -/
def UnaryOp.ofJson? (json : Json) : Option UnaryOp := do
  match ← choice? json with
  | "not" => some .not
  | "type_of" => some .typeOf
  | _ => none

/-- Reads a binary operator by its name. -/
def BinaryOp.ofJson? (json : Json) : Option BinaryOp := do
  match ← choice? json with
  | "strict_equal" => some .strictEqual
  | "strict_not_equal" => some .strictNotEqual
  | "and" => some .and
  | "or" => some .or
  | "plus" => some .plus
  | "instance_of" => some .instanceOf
  | _ => none

/-- Reads a span; both of its ends have to be there. -/
def Span.ofJson? (json : Json) : Option Span := do
  guard (fits json 2)
  return ⟨← json.required? offset? "start" 0, ← json.required? offset? "end" 1⟩

mutual

/-- Reads an expression that is at most as deep as the budget. -/
def Expr.ofJson? : Nat → Json → Option Expr
  | 0, _ => none
  | budget + 1, json => do
    let expr? := Expr.ofJson? budget
    let entry? := fun json => do
      guard (fits json 2)
      return Entry.mk (← json.required? text? "key" 0) (← json.required? expr? "value" 1)
    let (name, record) ← tagged? Expr.shapeNames json
    match name with
    | "Identifier" =>
      guard (fits record 1)
      return .identifier (← record.required? text? "name" 0)
    | "PropertyAccess" =>
      guard (fits record 2)
      return .property (← record.required? expr? "object" 0) (← record.required? text? "name" 1)
    | "ElementAccess" =>
      guard (fits record 2)
      return .element (← record.required? expr? "object" 0) (← record.required? expr? "index" 1)
    | "Call" =>
      guard (fits record 4)
      return .call (← record.required? expr? "callee" 0)
        (← record.defaulted? (list? (TypeExpr.ofJson? budget)) [] "type_arguments" 1)
        (← record.defaulted? (list? expr?) [] "arguments" 2)
        (← record.defaulted? Span.ofJson? ⟨0, 0⟩ "span" 3)
    | "StringLiteral" =>
      guard (fits record 1)
      return .string (← record.required? text? "value" 0)
    | "NumericLiteral" =>
      guard (fits record 1)
      return .number (← record.required? float? "value" 0)
    | "BooleanLiteral" =>
      guard (fits record 1)
      return .boolean (← record.required? truth? "value" 0)
    | "Null" =>
      guard (fits record 0)
      return .null
    | "ObjectLiteral" =>
      guard (fits record 1)
      return .object (← record.required? (list? entry?) "properties" 0)
    | "ArrayLiteral" =>
      guard (fits record 1)
      return .array (← record.required? (list? expr?) "elements" 0)
    | "Arrow" =>
      guard (fits record 2)
      return .arrow (← record.required? (list? text?) "params" 0)
        (← record.required? (Body.ofJson? budget) "body" 1)
    | "Unary" =>
      guard (fits record 2)
      return .unary (← record.required? UnaryOp.ofJson? "op" 0)
        (← record.required? expr? "operand" 1)
    | "Binary" =>
      guard (fits record 3)
      return .binary (← record.required? BinaryOp.ofJson? "op" 0)
        (← record.required? expr? "left" 1) (← record.required? expr? "right" 2)
    | "Conditional" =>
      guard (fits record 3)
      return .conditional (← record.required? expr? "condition" 0)
        (← record.required? expr? "when_true" 1) (← record.required? expr? "when_false" 2)
    | _ => none

/-- Reads the body of a closure that is at most as deep as the budget. Its shape is a tag in an
array, and a name that stands for itself in an object. -/
def Body.ofJson? : Nat → Json → Option Body
  | 0, _ => none
  | budget + 1, json => do
    guard (fits json 2)
    let shape? := if json.isArray then tag? Body.shapeNames else choice?
    match ← json.required? shape? "body" 0 with
    | "Expr" => return .concise (← json.required? (Expr.ofJson? budget) "value" 1)
    | "Block" => return .block (← json.required? (list? (Stmt.ofJson? budget)) "value" 1)
    | _ => none

/-- Reads a statement that is at most as deep as the budget. -/
def Stmt.ofJson? : Nat → Json → Option Stmt
  | 0, _ => none
  | budget + 1, json => do
    let expr? := Expr.ofJson? budget
    let stmts? := list? (Stmt.ofJson? budget)
    let (name, record) ← tagged? Stmt.shapeNames json
    match name with
    | "Const" =>
      guard (fits record 2)
      return .const (← record.required? text? "name" 0) (← record.required? expr? "init" 1)
    | "If" =>
      guard (fits record 3)
      return .branch (← record.required? expr? "condition" 0)
        (← record.required? stmts? "then" 1) (← record.defaulted? stmts? [] "otherwise" 2)
    | "Return" =>
      guard (fits record 1)
      return .returns (← record.required? expr? "value" 0)
    | "Throw" =>
      guard (fits record 1)
      return .throws (← record.required? expr? "value" 0)
    | "Expression" =>
      guard (fits record 1)
      return .expression (← record.required? expr? "expr" 0)
    | _ => none

end

end TypedRoutes
