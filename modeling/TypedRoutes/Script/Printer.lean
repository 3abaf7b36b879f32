import TypedRoutes.Script.Expr
import TypedRoutes.Text.NumberLiteral

/-!
# Printing programs

The text of expressions, statements and decorators. Parentheses follow from binding strength: an
operand that binds looser than its place requires is put in parentheses. An object literal takes
one line unless the text of one of its values takes several.
-/

namespace TypedRoutes

/-- What one level of indentation looks like. -/
inductive Indent where
  | twoSpaces
  | fourSpaces
  | tab
  deriving DecidableEq, Repr, Inhabited

/-- How a line ends. -/
inductive LineEnd where
  | lineFeed
  | carriageReturnLineFeed
  deriving DecidableEq, Repr, Inhabited

/-- The layout choices of printed code. -/
structure Style where
  indent : Indent := .twoSpaces
  lineEnd : LineEnd := .lineFeed
  deriving DecidableEq, Repr, Inhabited

/-- The text of one level of indentation. -/
def Indent.text : Indent → String
  | .twoSpaces => "  "
  | .fourSpaces => "    "
  | .tab => "\t"

/-- The text that ends a line. -/
def LineEnd.text : LineEnd → String
  | .lineFeed => "\n"
  | .carriageReturnLineFeed => "\r\n"

/-- The end of a line and the indentation of the next one. -/
def Style.newLine (style : Style) (depth : Nat) : String :=
  style.lineEnd.text ++ String.join (List.replicate depth style.indent.text)

/-- Binding strengths of the forms that are no binary operator; tighter is higher. -/
def arrowStrength : Nat := 1
def conditionalStrength : Nat := 2
def unaryStrength : Nat := 14
def memberStrength : Nat := 17
def primaryStrength : Nat := 20

/-- How tightly a binary operator binds its operands. -/
def BinaryOp.strength : BinaryOp → Nat
  | .or => 3
  | .and => 4
  | .strictEqual | .strictNotEqual => 8
  | .instanceOf => 9
  | .plus => 11

/-- How tightly an expression holds together; a negative number is a unary form. -/
def Expr.strength : Expr → Nat
  | .arrow _ _ => arrowStrength
  | .conditional _ _ _ => conditionalStrength
  | .binary op _ _ => op.strength
  | .unary _ _ => unaryStrength
  | .number value => if value < 0 then unaryStrength else primaryStrength
  | .property _ _ | .element _ _ | .call _ _ _ _ => memberStrength
  | _ => primaryStrength

mutual

/-- Whether the text of an expression takes several lines. -/
def Expr.spansLines : Expr → Bool
  | .arrow _ body => body.spansLines
  | .object entries => Entry.anySpansLines entries
  | .array elements => Expr.anySpansLines elements
  | .call callee _ arguments _ => callee.spansLines || Expr.anySpansLines arguments
  | .property target _ => target.spansLines
  | .element target index => target.spansLines || index.spansLines
  | .unary _ operand => operand.spansLines
  | .binary _ left right => left.spansLines || right.spansLines
  | .conditional condition whenTrue whenFalse =>
    condition.spansLines || whenTrue.spansLines || whenFalse.spansLines
  | _ => false

/-- A block takes several lines unless it is empty. -/
def Body.spansLines : Body → Bool
  | .concise value => value.spansLines
  | .block statements => !statements.isEmpty

/-- Whether the text of one of the expressions takes several lines. -/
def Expr.anySpansLines : List Expr → Bool
  | [] => false
  | expr :: rest => expr.spansLines || Expr.anySpansLines rest

/-- Whether the text of one of the values takes several lines. -/
def Entry.anySpansLines : List Entry → Bool
  | [] => false
  | .mk _ value :: rest => value.spansLines || Entry.anySpansLines rest

end

/-- The text of an operand in a place that requires a binding strength. -/
def Expr.operandText (expr : Expr) (required : Nat) (text : String) : String :=
  grouped (expr.strength < required) text

/-- The type arguments of a call; a call without any has no brackets. -/
def typeArgumentsText : List TypeExpr → String
  | [] => ""
  | types => "<" ++ separated ", " (TypeExpr.texts types) ++ ">"

mutual

/-- The text of an expression that starts at the given depth. -/
def Expr.text (style : Style) (depth : Nat) : Expr → String
  | .identifier name => name
  | .property target name =>
    target.operandText memberStrength (target.text style depth) ++ "." ++ name
  | .element target index =>
    target.operandText memberStrength (target.text style depth) ++
      "[" ++ index.text style depth ++ "]"
  | .call callee typeArguments arguments _ =>
    callee.operandText memberStrength (callee.text style depth) ++
      typeArgumentsText typeArguments ++
      "(" ++ separated ", " (Expr.texts style depth arguments) ++ ")"
  | .string value => quoteText value
  | .number value => numberLiteral value
  | .boolean value => if value then "true" else "false"
  | .null => "null"
  | .object [] => "\x7b\x7d"
  | .object (.mk key value :: rest) =>
    let lines := value.spansLines || Entry.anySpansLines rest
    let lead := if lines then style.newLine (depth + 1) else " "
    let close := if lines then style.newLine depth else " "
    "\x7b" ++ separated ","
      ((lead ++ (keyText key ++ ": " ++ value.text style (depth + 1))) ::
        Entry.texts style (depth + 1) lead rest) ++ close ++ "\x7d"
  | .array elements => "[" ++ separated ", " (Expr.texts style depth elements) ++ "]"
  | .arrow params body => "(" ++ separated ", " params ++ ") => " ++ body.text style depth
  | .unary op operand =>
    op.text ++ operand.operandText unaryStrength (operand.text style depth)
  | .binary op left right =>
    left.operandText op.strength (left.text style depth) ++ " " ++ op.text ++ " " ++
      right.operandText (op.strength + 1) (right.text style depth)
  | .conditional condition whenTrue whenFalse =>
    condition.operandText (conditionalStrength + 1) (condition.text style depth) ++ " ? " ++
      whenTrue.operandText conditionalStrength (whenTrue.text style depth) ++ " : " ++
      whenFalse.operandText conditionalStrength (whenFalse.text style depth)

/-- The texts of several expressions. -/
def Expr.texts (style : Style) (depth : Nat) : List Expr → List String
  | [] => []
  | expr :: rest => expr.text style depth :: Expr.texts style depth rest

/-- The texts of several object entries, each behind the given lead. -/
def Entry.texts (style : Style) (depth : Nat) (lead : String) : List Entry → List String
  | [] => []
  | .mk key value :: rest =>
    (lead ++ (keyText key ++ ": " ++ value.text style depth)) ::
      Entry.texts style depth lead rest

/-- The text behind an arrow. An object literal is put in parentheses, for a brace would open a
block. -/
def Body.text (style : Style) (depth : Nat) : Body → String
  | .concise value =>
    if value.isObject then "(" ++ value.text style depth ++ ")"
    else value.operandText conditionalStrength (value.text style depth)
  | .block statements => Stmt.blockText style depth statements

/-- The text of a block, one statement per line. -/
def Stmt.blockText (style : Style) (depth : Nat) : List Stmt → String
  | [] => "\x7b\x7d"
  | first :: rest =>
    "\x7b" ++ (style.newLine (depth + 1) ++ first.text style (depth + 1) ++
      String.join (Stmt.lines style (depth + 1) rest)) ++ style.newLine depth ++ "\x7d"

/-- The texts of statements, each on a line of its own. -/
def Stmt.lines (style : Style) (depth : Nat) : List Stmt → List String
  | [] => []
  | stmt :: rest => (style.newLine depth ++ stmt.text style depth) :: Stmt.lines style depth rest

/-- The text of a statement that starts at the given depth. -/
def Stmt.text (style : Style) (depth : Nat) : Stmt → String
  | .const name value => "const " ++ name ++ " = " ++ value.text style depth ++ ";"
  | .branch condition consequent alternative =>
    "if (" ++ condition.text style depth ++ ") " ++ Stmt.blockText style depth consequent ++
      (if alternative.isEmpty then "" else " else " ++ Stmt.blockText style depth alternative)
  | .returns value => "return " ++ value.text style depth ++ ";"
  | .throws value => "throw " ++ value.text style depth ++ ";"
  | .expression value => grouped value.isObject (value.text style depth) ++ ";"

end

/-- The text of an expression on its own. -/
def Expr.print (expr : Expr) (style : Style) : String := expr.text style 0

/-- The text of a statement on its own. -/
def Stmt.print (stmt : Stmt) (style : Style) : String := stmt.text style 0

/-- The text of a decorator: an at sign and an expression that binds like a member. -/
def Decorator.print (decorator : Decorator) (style : Style) : String :=
  "@" ++ decorator.expression.operandText memberStrength (decorator.expression.text style 0)

end TypedRoutes
