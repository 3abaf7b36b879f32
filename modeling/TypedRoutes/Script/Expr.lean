import TypedRoutes.Script.TypeExpr

/-!
# Program syntax

Expressions and statements of the decorators that are read and of the closures that are generated.
Grouping is never written down in the tree: the printer derives parentheses from how tightly the
forms bind.
-/

namespace TypedRoutes

/-- Where a call stands in its file, in byte offsets; a generated call has the empty span. -/
structure Span where
  start : UInt32 := 0
  stop : UInt32 := 0
  deriving DecidableEq, Repr, Inhabited

/-- Operators written in front of their operand. -/
inductive UnaryOp where
  | not
  | typeOf
  deriving DecidableEq, Repr

/-- Operators written between their operands. -/
inductive BinaryOp where
  | strictEqual
  | strictNotEqual
  | and
  | or
  | plus
  | instanceOf
  deriving DecidableEq, Repr

/-- The operator with the space that separates a word from its operand. -/
def UnaryOp.text : UnaryOp → String
  | .not => "!"
  | .typeOf => "typeof "

/-- The operator without the spaces around it. -/
def BinaryOp.text : BinaryOp → String
  | .strictEqual => "==="
  | .strictNotEqual => "!=="
  | .and => "&&"
  | .or => "||"
  | .plus => "+"
  | .instanceOf => "instanceof"

mutual

/-- Expressions. -/
inductive Expr where
  | identifier (name : String)
  /-- `target.name` -/
  | property (target : Expr) (name : String)
  /-- `target[index]` -/
  | element (target : Expr) (index : Expr)
  | call (callee : Expr) (typeArguments : List TypeExpr) (arguments : List Expr) (span : Span)
  | string (value : String)
  | number (value : Float)
  | boolean (value : Bool)
  | null
  | object (entries : List Entry)
  | array (elements : List Expr)
  | arrow (params : List String) (body : Body)
  | unary (op : UnaryOp) (operand : Expr)
  | binary (op : BinaryOp) (left : Expr) (right : Expr)
  | conditional (condition : Expr) (whenTrue : Expr) (whenFalse : Expr)

/-- A key of an object literal with its value. -/
inductive Entry where
  | mk (key : String) (value : Expr)

/-- What stands behind the arrow of a closure: an expression or a block of statements. -/
inductive Body where
  | concise (value : Expr)
  | block (statements : List Stmt)

/-- Statements inside a block. -/
inductive Stmt where
  | const (name : String) (value : Expr)
  /-- `if (condition) { … } else { … }`; an empty alternative is not written. -/
  | branch (condition : Expr) (consequent : List Stmt) (alternative : List Stmt)
  | returns (value : Expr)
  | throws (value : Expr)
  | expression (value : Expr)

end

instance : Inhabited Expr := ⟨.null⟩
instance : Inhabited Stmt := ⟨.returns .null⟩

/-- The key of an object entry. -/
def Entry.key : Entry → String
  | .mk key _ => key

/-- The value of an object entry. -/
def Entry.value : Entry → Expr
  | .mk _ value => value

/-- A decorator of a class member: an at sign and an expression. -/
structure Decorator where
  expression : Expr
  deriving Inhabited

/-- The number of call arguments; a decorator that is no call has none to count. -/
def Decorator.argumentCount? : Decorator → Option Nat
  | ⟨.call _ _ arguments _⟩ => some arguments.length
  | _ => none

/-- The leftmost identifier of a chain of accesses and calls. -/
def Expr.rootIdentifier? : Expr → Option String
  | .identifier name => some name
  | .property target _ => target.rootIdentifier?
  | .element target _ => target.rootIdentifier?
  | .call callee _ _ _ => callee.rootIdentifier?
  | _ => none

/-- Whether the expression is the given boolean literal. -/
def Expr.isBoolean (expected : Bool) : Expr → Bool
  | .boolean value => value == expected
  | _ => false

/-- Whether the expression is an object literal. -/
def Expr.isObject : Expr → Bool
  | .object _ => true
  | _ => false

end TypedRoutes
