import TypedRoutes.Proofs.Grammar.Tokens
import TypedRoutes.Script.Printer

/-!
# Trees with a readable text

The tokens that a tree is printed as, whatever the layout, and the trees whose text can be expected
to be read back: their names are names, their numbers are finite, and no form stands where its text
would mean something else.
-/

namespace TypedRoutes

open Grammar

/-! ## Trees up to the spans of calls -/

mutual

/-- The expression with all calls moved to the start of the file. -/
def Expr.withoutSpans : Expr → Expr
  | .property target name => .property target.withoutSpans name
  | .element target index => .element target.withoutSpans index.withoutSpans
  | .call callee typeArguments arguments _ =>
    .call callee.withoutSpans typeArguments (Expr.allWithoutSpans arguments) ⟨0, 0⟩
  | .object entries => .object (Entry.allWithoutSpans entries)
  | .array elements => .array (Expr.allWithoutSpans elements)
  | .arrow params body => .arrow params body.withoutSpans
  | .unary op operand => .unary op operand.withoutSpans
  | .binary op left right => .binary op left.withoutSpans right.withoutSpans
  | .conditional condition whenTrue whenFalse =>
    .conditional condition.withoutSpans whenTrue.withoutSpans whenFalse.withoutSpans
  | .identifier name => .identifier name
  | .string value => .string value
  | .number value => .number value
  | .boolean value => .boolean value
  | .null => .null

/-- Several expressions with all calls moved. -/
def Expr.allWithoutSpans : List Expr → List Expr
  | [] => []
  | expr :: rest => expr.withoutSpans :: Expr.allWithoutSpans rest

/-- Several entries with all calls moved. -/
def Entry.allWithoutSpans : List Entry → List Entry
  | [] => []
  | .mk key value :: rest => .mk key value.withoutSpans :: Entry.allWithoutSpans rest

/-- The body of a closure with all calls moved. -/
def Body.withoutSpans : Body → Body
  | .concise value => .concise value.withoutSpans
  | .block statements => .block (Stmt.allWithoutSpans statements)

/-- Several statements with all calls moved. -/
def Stmt.allWithoutSpans : List Stmt → List Stmt
  | [] => []
  | stmt :: rest => stmt.withoutSpans :: Stmt.allWithoutSpans rest

/-- The statement with all calls moved to the start of the file. -/
def Stmt.withoutSpans : Stmt → Stmt
  | .const name value => .const name value.withoutSpans
  | .branch condition consequent alternative => .branch condition.withoutSpans
    (Stmt.allWithoutSpans consequent) (Stmt.allWithoutSpans alternative)
  | .returns value => .returns value.withoutSpans
  | .throws value => .throws value.withoutSpans
  | .expression value => .expression value.withoutSpans

end

/-! ## Tokens of trees -/

/-- The numeral that the literal of a number's magnitude is. -/
def literalNumeral (x : Float) : Json.Numeral :=
  match Json.scanMagnitude false (magnitudeLiteral (Decimal.Binary.ofFloat x)) with
  | .found numeral _ => numeral
  | .broken _ => default

/-- The tokens of a number: a sign where it needs one, and its magnitude. -/
def numberTokens (x : Float) : List Token :=
  if Decimal.isNegative x then [.mark .minus, .number (literalNumeral x)]
  else [.number (literalNumeral x)]

/-- The token of a unary operator. -/
def UnaryOp.token : UnaryOp → Token
  | .not => .mark .not
  | .typeOf => .keyword .typeOf

/-- The token of a binary operator. -/
def BinaryOp.token : BinaryOp → Token
  | .strictEqual => .mark .strictEqual
  | .strictNotEqual => .mark .strictNotEqual
  | .and => .mark .and
  | .or => .mark .or
  | .plus => .mark .plus
  | .instanceOf => .keyword .instanceOf

/-- The token of a key: a word where it can be written bare. -/
def keyToken (key : String) : Token :=
  if isIdentifier key then wordToken key else .string key

/-- Tokens in parentheses, where they are needed. -/
def groupedTokens (needed : Bool) (ts : List Token) : List Token :=
  if needed then .mark .openParen :: (ts ++ [.mark .closeParen]) else ts

/-- The tokens of parameters, each but the first behind a comma. -/
def paramTokens : List String → List Token
  | [] => []
  | [param] => [.name param]
  | param :: rest => .name param :: .mark .comma :: paramTokens rest

mutual

/-- The tokens that an expression is printed as. -/
def Expr.tokens : Expr → List Token
  | .identifier name => [.name name]
  | .property target name =>
    groupedTokens (target.strength < memberStrength) target.tokens ++ [.mark .dot, .name name]
  | .element target index =>
    groupedTokens (target.strength < memberStrength) target.tokens ++
      .mark .openBracket :: (index.tokens ++ [.mark .closeBracket])
  | .call callee _ arguments _ =>
    groupedTokens (callee.strength < memberStrength) callee.tokens ++
      .mark .openParen :: (Expr.itemTokens arguments ++ [.mark .closeParen])
  | .string value => [.string value]
  | .number value => numberTokens value
  | .boolean value => [.keyword (if value then .yes else .no)]
  | .null => [.keyword .null]
  | .object entries => .mark .openBrace :: (Entry.itemTokens entries ++ [.mark .closeBrace])
  | .array elements => .mark .openBracket :: (Expr.itemTokens elements ++ [.mark .closeBracket])
  | .arrow params body =>
    .mark .openParen :: (paramTokens params ++ .mark .closeParen :: .mark .arrow :: body.tokens)
  | .unary op operand => op.token :: groupedTokens (operand.strength < unaryStrength) operand.tokens
  | .binary op left right =>
    groupedTokens (left.strength < op.strength) left.tokens ++
      op.token :: groupedTokens (right.strength < op.strength + 1) right.tokens
  | .conditional condition whenTrue whenFalse =>
    groupedTokens (condition.strength < conditionalStrength + 1) condition.tokens ++
      .mark .question :: (groupedTokens (whenTrue.strength < conditionalStrength) whenTrue.tokens ++
        .mark .colon :: groupedTokens (whenFalse.strength < conditionalStrength) whenFalse.tokens)

/-- The tokens of several expressions, each but the first behind a comma. -/
def Expr.itemTokens : List Expr → List Token
  | [] => []
  | first :: rest => first.tokens ++ Expr.moreTokens rest

/-- The tokens of several expressions, each behind a comma. -/
def Expr.moreTokens : List Expr → List Token
  | [] => []
  | next :: rest => .mark .comma :: (next.tokens ++ Expr.moreTokens rest)

/-- The tokens of several entries, each but the first behind a comma. -/
def Entry.itemTokens : List Entry → List Token
  | [] => []
  | .mk key value :: rest =>
    keyToken key :: .mark .colon :: (value.tokens ++ Entry.moreTokens rest)

/-- The tokens of several entries, each behind a comma. -/
def Entry.moreTokens : List Entry → List Token
  | [] => []
  | .mk key value :: rest =>
    .mark .comma :: keyToken key :: .mark .colon :: (value.tokens ++ Entry.moreTokens rest)

/-- The tokens of the body of a closure. -/
def Body.tokens : Body → List Token
  | .concise value =>
    groupedTokens (value.isObject || value.strength < conditionalStrength) value.tokens
  | .block statements => .mark .openBrace :: (Stmt.allTokens statements ++ [.mark .closeBrace])

/-- The tokens of several statements. -/
def Stmt.allTokens : List Stmt → List Token
  | [] => []
  | stmt :: rest => stmt.tokens ++ Stmt.allTokens rest

/-- The tokens that a statement is printed as. -/
def Stmt.tokens : Stmt → List Token
  | .const name value =>
    .keyword .const :: .name name :: .mark .assign :: (value.tokens ++ [.mark .semicolon])
  | .branch condition consequent [] =>
    .keyword .branch :: .mark .openParen :: (condition.tokens ++
      .mark .closeParen :: .mark .openBrace :: (Stmt.allTokens consequent ++ [.mark .closeBrace]))
  | .branch condition consequent (first :: rest) =>
    .keyword .branch :: .mark .openParen :: (condition.tokens ++
      .mark .closeParen :: .mark .openBrace :: (Stmt.allTokens consequent ++
        .mark .closeBrace :: .keyword .alternative :: .mark .openBrace ::
          (first.tokens ++ Stmt.allTokens rest ++ [.mark .closeBrace])))
  | .returns value => .keyword .returns :: (value.tokens ++ [.mark .semicolon])
  | .throws value => .keyword .throws :: (value.tokens ++ [.mark .semicolon])
  | .expression value => groupedTokens value.isObject value.tokens ++ [.mark .semicolon]

end

/-! ## Readable trees -/

/-- Whether a text is a word: a name, or a word that is reserved. -/
def Grammar.Alphabet.isWord (letters : Alphabet) (text : String) : Bool :=
  match text.toList with
  | [] => false
  | c :: rest => letters.isStart c && rest.all letters.isPart

theorem Grammar.Alphabet.isWord_cons {letters : Alphabet} {name : String}
    (h : letters.isWord name = true) :
    ∃ c rest, name.toList = c :: rest ∧ letters.isStart c = true ∧
      ∀ d ∈ rest, letters.isPart d = true := by
  rw [Alphabet.isWord] at h
  split at h
  · cases h
  · rename_i c rest hname
    rw [Bool.and_eq_true, List.all_eq_true] at h
    exact ⟨c, rest, hname, h⟩

/-- Whether a text is a name that is not reserved. -/
def Grammar.Alphabet.isName (letters : Alphabet) (text : String) : Bool :=
  match text.toList with
  | [] => false
  | c :: rest => letters.isStart c && rest.all letters.isPart && (Keyword.ofText? text).isNone

/-- Whether an expression is a numeric literal. -/
def Expr.isNumber : Expr → Bool
  | .number _ => true
  | _ => false

/-- Whether the leftmost leaf of an expression is an object literal. -/
def Expr.startsWithObject : Expr → Bool
  | .object _ => true
  | .property target _ | .element target _ => target.startsWithObject
  | .call callee _ _ _ => callee.startsWithObject
  | .binary _ left _ => left.startsWithObject
  | .conditional condition _ _ => condition.startsWithObject
  | _ => false

variable (letters : Alphabet)

mutual

/-- Whether an expression is readable: identifiers, member names, parameters and the names of
constants are names, numbers are finite, there are no type arguments, nothing is taken from a
numeric literal, and neither a statement nor the value of a closure starts with an object literal
without being one. -/
def Expr.Readable : Expr → Prop
  | .identifier name => letters.isName name = true
  | .property target name =>
    target.Readable ∧ target.isNumber = false ∧ letters.isName name = true
  | .element target index => target.Readable ∧ target.isNumber = false ∧ index.Readable
  | .call callee typeArguments arguments _ =>
    callee.Readable ∧ callee.isNumber = false ∧ typeArguments = [] ∧ Expr.AllReadable arguments
  | .number value => value.isFinite = true
  | .string _ | .boolean _ | .null => True
  | .object entries => Entry.AllReadable entries
  | .array elements => Expr.AllReadable elements
  | .arrow params body => (∀ param ∈ params, letters.isName param = true) ∧ body.Readable
  | .unary _ operand => operand.Readable
  | .binary _ left right => left.Readable ∧ right.Readable
  | .conditional condition whenTrue whenFalse =>
    condition.Readable ∧ whenTrue.Readable ∧ whenFalse.Readable

/-- Whether several expressions are readable. -/
def Expr.AllReadable : List Expr → Prop
  | [] => True
  | expr :: rest => expr.Readable ∧ Expr.AllReadable rest

/-- Whether the values of several entries are readable; any key is. -/
def Entry.AllReadable : List Entry → Prop
  | [] => True
  | .mk _ value :: rest => value.Readable ∧ Entry.AllReadable rest

/-- Whether the body of a closure is readable. -/
def Body.Readable : Body → Prop
  | .concise value => value.Readable ∧ (value.startsWithObject = true → value.isObject = true)
  | .block statements => Stmt.AllReadable statements

/-- Whether several statements are readable. -/
def Stmt.AllReadable : List Stmt → Prop
  | [] => True
  | stmt :: rest => stmt.Readable ∧ Stmt.AllReadable rest

/-- Whether a statement is readable. -/
def Stmt.Readable : Stmt → Prop
  | .const name value => letters.isName name = true ∧ value.Readable
  | .branch condition consequent alternative =>
    condition.Readable ∧ Stmt.AllReadable consequent ∧ Stmt.AllReadable alternative
  | .returns value | .throws value => value.Readable
  | .expression value => value.Readable ∧ (value.startsWithObject = true → value.isObject = true)

end

end TypedRoutes
