import TypedRoutes.Proofs.Grammar.Tokens
import TypedRoutes.Script.Expr

/-!
# Reading programs

The syntactic grammar of expressions and statements, one function for each of its symbols, from the
loosest to the tightest:

* an assignment expression is a closure or a conditional expression;
* a conditional expression is a binary expression, or one in front of a question mark, with an
  assignment expression on either side of the colon;
* binary operators stand on the levels of a ladder; on each level they group to the left, and their
  operands are of the next tighter level;
* a unary expression is an operator in front of a unary expression, or a member expression;
* a member expression is a primary expression behind which accesses and calls follow;
* a primary expression is a name, a literal or something in brackets.

Levels of the full grammar on which no operator of the trees stands are left out, and so are forms
that no tree stands for: a text that has them is not read. A minus sign is read as the sign of the
literal behind it.
-/

namespace TypedRoutes.Grammar

/-- What is read at the front of tokens, if fewer tokens stand behind it. -/
def shorter? {α : Type} (ts : List Token) (found : Option (α × List Token)) :
    Option (α × { rest : List Token // rest.length < ts.length }) :=
  match found with
  | some (value, rest) => if h : rest.length < ts.length then some (value, ⟨rest, h⟩) else none
  | none => none

/-- What stands behind a token that has to come next. -/
def past? (token : Token) (ts : List Token) :
    Option { rest : List Token // rest.length < ts.length } :=
  match ts with
  | [] => none
  | next :: rest => if next = token then some ⟨rest, Nat.lt_succ_self _⟩ else none

/-- The levels of binary operators, the loosest first. -/
def ladder : List (List (Token × BinaryOp)) :=
  [[(.mark .or, .or)],
    [(.mark .and, .and)],
    [(.mark .strictEqual, .strictEqual), (.mark .strictNotEqual, .strictNotEqual)],
    [(.keyword .instanceOf, .instanceOf)],
    [(.mark .plus, .plus)]]

/-- The text of a token that may name a member. Reserved words may. -/
def Token.memberName? : Token → Option String
  | .name text => some text
  | .keyword word => some word.text
  | _ => none

/-- The key that a token gives to an entry of an object literal. -/
def Token.entryKey? : Token → Option String
  | .string value => some value
  | token => token.memberName?

/-- The parameters behind an opening parenthesis that is already read, up to the arrow. -/
def parameters? : List Token → Option (List String × List Token)
  | .mark .closeParen :: .mark .arrow :: rest => some ([], rest)
  | .name text :: .mark .closeParen :: .mark .arrow :: rest => some ([text], rest)
  | .name text :: .mark .comma :: ts => do
    let (others, rest) ← parameters? ts
    if others.isEmpty then none else some (text :: others, rest)
  | _ => none

/-- The parameters and the arrow of a closure. -/
def arrowHead? : List Token → Option (List String × List Token)
  | .mark .openParen :: ts => parameters? ts
  | _ => none

/-- Whether an access or a call follows. -/
def accesses : List Token → Bool
  | .mark .dot :: _ | .mark .openBracket :: _ | .mark .openParen :: _ => true
  | _ => false

mutual

/-- Reads an assignment expression. -/
def assignment? (ts : List Token) : Option (Expr × List Token) :=
  match shorter? ts (arrowHead? ts) with
  | some (params, ⟨behind, _⟩) => do
    let (body, rest) ← body? behind
    return (.arrow params body, rest)
  | none => conditional? ts
termination_by (ts.length, 7 + ladder.length)

/-- Reads the body of a closure. A brace opens a block. -/
def body? (ts : List Token) : Option (Body × List Token) :=
  match ts with
  | .mark .openBrace :: behind => do
    let (statements, rest) ← block? behind
    return (.block statements, rest)
  | ts => do
    let (value, rest) ← assignment? ts
    return (.concise value, rest)
termination_by (ts.length, 8 + ladder.length)

/-- Reads a conditional expression. -/
def conditional? (ts : List Token) : Option (Expr × List Token) := do
  let (condition, ⟨behind, _⟩) ← shorter? ts (binary? ladder ts)
  match past? (.mark .question) behind with
  | some ⟨behind, _⟩ => do
    let (whenTrue, ⟨behind, _⟩) ← shorter? behind (assignment? behind)
    let ⟨behind, _⟩ ← past? (.mark .colon) behind
    let (whenFalse, rest) ← assignment? behind
    return (.conditional condition whenTrue whenFalse, rest)
  | none => some (condition, behind)
termination_by (ts.length, 6 + ladder.length)

/-- Reads a binary expression on the first of some levels, or a tighter one. -/
def binary? (levels : List (List (Token × BinaryOp))) (ts : List Token) :
    Option (Expr × List Token) :=
  match levels with
  | [] => unary? ts
  | operators :: tighter => do
    let (left, ⟨behind, _⟩) ← shorter? ts (binary? tighter ts)
    operations? operators tighter left behind
termination_by (ts.length, 5 + levels.length)

/-- Goes on with the operators of one level, from left to right. -/
def operations? (operators : List (Token × BinaryOp)) (tighter : List (List (Token × BinaryOp)))
    (left : Expr) (ts : List Token) : Option (Expr × List Token) :=
  match ts with
  | [] => some (left, [])
  | token :: behind =>
    match operators.lookup token with
    | none => some (left, token :: behind)
    | some op => do
      let (right, ⟨behind, _⟩) ← shorter? behind (binary? tighter behind)
      operations? operators tighter (.binary op left right) behind
termination_by (ts.length, 4)

/-- Reads a unary expression. -/
def unary? (ts : List Token) : Option (Expr × List Token) :=
  match ts with
  | .mark .not :: behind => do
    let (operand, rest) ← unary? behind
    return (.unary .not operand, rest)
  | .keyword .typeOf :: behind => do
    let (operand, rest) ← unary? behind
    return (.unary .typeOf operand, rest)
  | .mark .minus :: .number numeral :: rest => do
    let value ← Json.Numeral.toFloat? { numeral with negative := true }
    if accesses rest then none else some (.number value, rest)
  | .mark .minus :: _ => none
  | ts => member? ts
termination_by (ts.length, 4)

/-- Reads a member expression. -/
def member? (ts : List Token) : Option (Expr × List Token) := do
  let (target, ⟨behind, _⟩) ← shorter? ts (primary? ts)
  links? target behind
termination_by (ts.length, 3)

/-- Goes on with the accesses and calls behind a target. -/
def links? (target : Expr) (ts : List Token) : Option (Expr × List Token) :=
  match ts with
  | .mark .dot :: token :: behind => do
    let name ← token.memberName?
    links? (.property target name) behind
  | [.mark .dot] => none
  | .mark .openBracket :: behind => do
    let (index, ⟨behind, _⟩) ← shorter? behind (assignment? behind)
    let ⟨behind, _⟩ ← past? (.mark .closeBracket) behind
    links? (.element target index) behind
  | .mark .openParen :: behind => do
    let (arguments, ⟨behind, _⟩) ← shorter? behind (items? .closeParen behind)
    links? (.call target [] arguments ⟨0, 0⟩) behind
  | rest => some (target, rest)
termination_by (ts.length, 2)

/-- Reads a primary expression. -/
def primary? (ts : List Token) : Option (Expr × List Token) :=
  match ts with
  | .name text :: rest => some (.identifier text, rest)
  | .string value :: rest => some (.string value, rest)
  | .number numeral :: rest => numeral.toFloat?.map fun value => (.number value, rest)
  | .keyword .yes :: rest => some (.boolean true, rest)
  | .keyword .no :: rest => some (.boolean false, rest)
  | .keyword .null :: rest => some (.null, rest)
  | .mark .openParen :: behind => do
    let (inner, behind) ← assignment? behind
    let ⟨rest, _⟩ ← past? (.mark .closeParen) behind
    return (inner, rest)
  | .mark .openBracket :: behind => do
    let (elements, rest) ← items? .closeBracket behind
    return (.array elements, rest)
  | .mark .openBrace :: behind => do
    let (entries, rest) ← entries? behind
    return (.object entries, rest)
  | _ => none
termination_by (ts.length, 2)

/-- Reads expressions between commas up to a closing mark. -/
def items? (close : Mark) (ts : List Token) : Option (List Expr × List Token) :=
  match ts with
  | [] => none
  | token :: behind =>
    if token = .mark close then some ([], behind)
    else do
      let (first, ⟨behind, _⟩) ← shorter? (token :: behind) (assignment? (token :: behind))
      let (others, rest) ← moreItems? close behind
      return (first :: others, rest)
termination_by (ts.length, 8 + ladder.length)

/-- Goes on behind the first expression. -/
def moreItems? (close : Mark) (ts : List Token) : Option (List Expr × List Token) :=
  match ts with
  | [] => none
  | token :: behind =>
    if token = .mark close then some ([], behind)
    else if token = .mark .comma then do
      let (next, ⟨behind, _⟩) ← shorter? behind (assignment? behind)
      let (others, rest) ← moreItems? close behind
      return (next :: others, rest)
    else none
termination_by (ts.length, 8 + ladder.length)

/-- Reads an entry of an object literal. -/
def keyed? (ts : List Token) : Option (Entry × List Token) :=
  match ts with
  | token :: .mark .colon :: behind => do
    let key ← token.entryKey?
    let (value, rest) ← assignment? behind
    return (.mk key value, rest)
  | _ => none
termination_by (ts.length, 0)

/-- Reads the entries of an object literal up to the closing brace. -/
def entries? (ts : List Token) : Option (List Entry × List Token) :=
  match ts with
  | .mark .closeBrace :: rest => some ([], rest)
  | ts => do
    let (first, ⟨behind, _⟩) ← shorter? ts (keyed? ts)
    let (others, rest) ← moreEntries? behind
    return (first :: others, rest)
termination_by (ts.length, 1)

/-- Goes on behind the first entry. -/
def moreEntries? (ts : List Token) : Option (List Entry × List Token) :=
  match ts with
  | .mark .closeBrace :: rest => some ([], rest)
  | .mark .comma :: behind => do
    let (next, ⟨behind, _⟩) ← shorter? behind (keyed? behind)
    let (others, rest) ← moreEntries? behind
    return (next :: others, rest)
  | _ => none
termination_by (ts.length, 1)

/-- Reads an expression and the semicolon behind it. -/
def terminated? (ts : List Token) : Option (Expr × List Token) := do
  let (value, behind) ← assignment? ts
  let ⟨rest, _⟩ ← past? (.mark .semicolon) behind
  return (value, rest)
termination_by (ts.length, 8 + ladder.length)

/-- Reads a statement. An expression statement starts with no brace, which would open a block. -/
def statement? (ts : List Token) : Option (Stmt × List Token) :=
  match ts with
  | .keyword .const :: .name name :: .mark .assign :: behind => do
    let (value, rest) ← terminated? behind
    return (.const name value, rest)
  | .keyword .branch :: .mark .openParen :: behind => do
    let (condition, ⟨behind, _⟩) ← shorter? behind (assignment? behind)
    let ⟨behind, _⟩ ← past? (.mark .closeParen) behind
    let ⟨behind, _⟩ ← past? (.mark .openBrace) behind
    let (consequent, ⟨behind, _⟩) ← shorter? behind (block? behind)
    match past? (.keyword .alternative) behind with
    | some ⟨behind, _⟩ => do
      let ⟨behind, _⟩ ← past? (.mark .openBrace) behind
      let (alternative, rest) ← block? behind
      return (.branch condition consequent alternative, rest)
    | none => return (.branch condition consequent [], behind)
  | .keyword .returns :: behind => do
    let (value, rest) ← terminated? behind
    return (.returns value, rest)
  | .keyword .throws :: behind => do
    let (value, rest) ← terminated? behind
    return (.throws value, rest)
  | .mark .openBrace :: _ => none
  | ts => do
    let (value, rest) ← terminated? ts
    return (.expression value, rest)
termination_by (ts.length, 9 + ladder.length)

/-- Reads statements up to the closing brace of their block. -/
def block? (ts : List Token) : Option (List Stmt × List Token) :=
  match ts with
  | .mark .closeBrace :: rest => some ([], rest)
  | ts => do
    let (first, ⟨behind, _⟩) ← shorter? ts (statement? ts)
    let (others, rest) ← block? behind
    return (first :: others, rest)
termination_by (ts.length, 10 + ladder.length)

end

/-- What is read, if nothing stands behind it. -/
def complete? {α : Type} : Option (α × List Token) → Option α
  | some (value, []) => some value
  | _ => none

/-- The expression that a text is. -/
def expression? (letters : Alphabet) (text : String) : Option Expr := do
  complete? (assignment? (← tokens? letters false false text.toList))

/-- The statement that a text is. -/
def program? (letters : Alphabet) (text : String) : Option Stmt := do
  complete? (statement? (← tokens? letters false false text.toList))

end TypedRoutes.Grammar
