import TypedRoutes.Script.Expr

/-!
# Sameness of programs

Two trees are the same when they have the same shape and the same leaves. Numbers are compared as
numbers: the two zeros are the same, and what is no number is not even the same as itself.
-/

namespace TypedRoutes

mutual

/-- Whether two type expressions are the same. -/
def TypeExpr.same : TypeExpr → TypeExpr → Bool
  | .keyword a, .keyword b => a == b
  | .literal a, .literal b => a == b
  | .reference a as, .reference b bs => a == b && TypeExpr.sameAll as bs
  | .array a, .array b => a.same b
  | .tuple as, .tuple bs => TypeExpr.sameAll as bs
  | .object as, .object bs => TypeMember.sameAll as bs
  | .union as, .union bs => TypeExpr.sameAll as bs
  | .intersection as, .intersection bs => TypeExpr.sameAll as bs
  | _, _ => false

/-- Whether two lists of type expressions are the same. -/
def TypeExpr.sameAll : List TypeExpr → List TypeExpr → Bool
  | [], [] => true
  | a :: as, b :: bs => a.same b && TypeExpr.sameAll as bs
  | _, _ => false

/-- Whether two lists of members are the same. -/
def TypeMember.sameAll : List TypeMember → List TypeMember → Bool
  | [], [] => true
  | .mk a aOptional aType :: as, .mk b bOptional bType :: bs =>
    a == b && aOptional == bOptional && aType.same bType && TypeMember.sameAll as bs
  | _, _ => false

end

mutual

/-- Whether two expressions are the same. -/
def Expr.same : Expr → Expr → Bool
  | .identifier a, .identifier b => a == b
  | .property a aName, .property b bName => a.same b && aName == bName
  | .element a aIndex, .element b bIndex => a.same b && aIndex.same bIndex
  | .call a aTypes as aSpan, .call b bTypes bs bSpan =>
    a.same b && TypeExpr.sameAll aTypes bTypes && Expr.sameAll as bs && aSpan == bSpan
  | .string a, .string b => a == b
  | .number a, .number b => a == b
  | .boolean a, .boolean b => a == b
  | .null, .null => true
  | .object as, .object bs => Entry.sameAll as bs
  | .array as, .array bs => Expr.sameAll as bs
  | .arrow as aBody, .arrow bs bBody => as == bs && aBody.same bBody
  | .unary aOp a, .unary bOp b => aOp == bOp && a.same b
  | .binary aOp a a', .binary bOp b b' => aOp == bOp && a.same b && a'.same b'
  | .conditional a a' a'', .conditional b b' b'' => a.same b && a'.same b' && a''.same b''
  | _, _ => false

/-- Whether two lists of expressions are the same. -/
def Expr.sameAll : List Expr → List Expr → Bool
  | [], [] => true
  | a :: as, b :: bs => a.same b && Expr.sameAll as bs
  | _, _ => false

/-- Whether two lists of object entries are the same. -/
def Entry.sameAll : List Entry → List Entry → Bool
  | [], [] => true
  | .mk aKey a :: as, .mk bKey b :: bs => aKey == bKey && a.same b && Entry.sameAll as bs
  | _, _ => false

/-- Whether two bodies are the same. -/
def Body.same : Body → Body → Bool
  | .concise a, .concise b => a.same b
  | .block as, .block bs => Stmt.sameAll as bs
  | _, _ => false

/-- Whether two lists of statements are the same. -/
def Stmt.sameAll : List Stmt → List Stmt → Bool
  | [], [] => true
  | a :: as, b :: bs => a.same b && Stmt.sameAll as bs
  | _, _ => false

/-- Whether two statements are the same. -/
def Stmt.same : Stmt → Stmt → Bool
  | .const aName a, .const bName b => aName == bName && a.same b
  | .branch a as as', .branch b bs bs' =>
    a.same b && Stmt.sameAll as bs && Stmt.sameAll as' bs'
  | .returns a, .returns b => a.same b
  | .throws a, .throws b => a.same b
  | .expression a, .expression b => a.same b
  | _, _ => false

end

/-- Whether two decorators are the same. -/
def Decorator.same (a b : Decorator) : Bool :=
  a.expression.same b.expression

/-- Whether two lists have the same length and related elements at the same places. -/
def sameLists {α : Type} (related : α → α → Bool) : List α → List α → Bool
  | [], [] => true
  | a :: as, b :: bs => related a b && sameLists related as bs
  | _, _ => false

end TypedRoutes
