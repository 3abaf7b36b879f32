import TypedRoutes.Script.Expr

/-!
# Building expressions

Generated code is put together from these functions. The three combinations of many operands keep
what they build in one shape: chains of the same operator are flattened and associated to the left,
and operands that decide or change nothing are removed.
-/

namespace TypedRoutes.Expr

/-- The value that stands for an absent one. -/
def undefined : Expr := .identifier "undefined"

/-- A generated call: no type arguments, no place in a file. -/
def invoke (callee : Expr) (arguments : List Expr) : Expr :=
  .call callee [] arguments ⟨0, 0⟩

/-- Access by key: after a dot when the key is an identifier, in brackets otherwise. -/
def member (target : Expr) (key : String) : Expr :=
  if isIdentifier key then .property target key else .element target (.string key)

/-- An object literal from keys and values. -/
def objectOf (entries : List (String × Expr)) : Expr :=
  .object (entries.map fun entry => .mk entry.1 entry.2)

/-- A closure whose body is an expression. -/
def lambda (params : List String) (body : Expr) : Expr :=
  .arrow params (.concise body)

/-- A closure whose body is a block. -/
def lambdaBlock (params : List String) (statements : List Stmt) : Expr :=
  .arrow params (.block statements)

/-- The negation of an expression. -/
def negation (operand : Expr) : Expr := .unary .not operand

/-- The name of an expression's run-time type. -/
def typeOf (operand : Expr) : Expr := .unary .typeOf operand

/-- Equality without conversion. -/
def equals (left right : Expr) : Expr := .binary .strictEqual left right

/-- The opposite of equality without conversion. -/
def differs (left right : Expr) : Expr := .binary .strictNotEqual left right

/-- The operands of a chain of `op`, from left to right. -/
def operands (op : BinaryOp) : Expr → List Expr
  | .binary inner left right =>
    if inner = op then left.operands op ++ right.operands op else [.binary inner left right]
  | other => [other]

/-- The operands of several chains of `op`. -/
def flatten (op : BinaryOp) (exprs : List Expr) : List Expr :=
  exprs.flatMap (operands op)

/-- The chain of `op` over the operands, associated to the left. -/
def chain (op : BinaryOp) (unit : Expr) : List Expr → Expr
  | [] => unit
  | first :: rest => rest.foldl (.binary op) first

/-- The conjunction: `true` is dropped, one `false` decides, no operand gives `true`. -/
def conjunction (exprs : List Expr) : Expr :=
  let kept := (flatten .and exprs).filter fun operand => !operand.isBoolean true
  if kept.any (isBoolean false) then .boolean false else chain .and (.boolean true) kept

/-- The disjunction: one `true` decides, `false` is dropped, no operand gives `false`. -/
def disjunction (exprs : List Expr) : Expr :=
  let flat := flatten .or exprs
  if flat.any (isBoolean true) then .boolean true
  else chain .or (.boolean false) (flat.filter fun operand => !operand.isBoolean false)

/-- Joins string literals that stand next to each other. -/
def mergeLiterals : List Expr → List Expr
  | [] => []
  | .string text :: rest =>
    match mergeLiterals rest with
    | .string more :: tail => .string (text ++ more) :: tail
    | merged => .string text :: merged
  | other :: rest => other :: mergeLiterals rest

/-- The concatenation of text parts: literals next to each other are joined, no part gives the
empty text. -/
def concatenation (parts : List Expr) : Expr :=
  chain .plus (.string "") (mergeLiterals (flatten .plus parts))

end TypedRoutes.Expr
