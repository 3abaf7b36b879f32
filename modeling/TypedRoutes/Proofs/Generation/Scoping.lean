import TypedRoutes.Artifact.Closure
import TypedRoutes.Proofs.Generation.Names

/-!
# Scoping

Where the names of generated code are bound. An expression is scoped when every name in it is
declared by a constant, is taken by an enclosing closure, or is found in place by every program. The
factory is not looked into; it occurs only where one of its functions is read.
-/

namespace TypedRoutes

/-- The names that generated code expects every program to find in place. -/
def standardNames : List String :=
  ["Array", "Number", "Object", "JSON", "String", "Date", "undefined"]

/-- The name is that of a helper. -/
def HelperName (name : String) : Prop :=
  ∃ kind index, name = HelperKind.helperName kind index

theorem Local.not_helperName {name : String} (h : Local name) : ¬ HelperName name := by
  rintro ⟨kind, index, rfl⟩
  exact kind.not_local_helperName index h

theorem not_helperName_of_head {name : String} (h : name.toList.head? ≠ some '$') :
    ¬ HelperName name := by
  rintro ⟨kind, index, rfl⟩
  exact h (kind.head?_helperName index)

theorem Scope.reporter_ne_helperName (kind : HelperKind) (index : Nat) :
    reporter ≠ kind.helperName index := by
  intro h
  have hlist := congrArg String.toList h
  rw [HelperKind.helperName, String.toList_append] at hlist
  cases kind <;> simp [reporter, HelperKind.stem] at hlist

/-- The name that a statement declares. -/
def Stmt.declared? : Stmt → Option String
  | .const name _ => some name
  | _ => none

/-- The names that the statements of a block declare. -/
def declaredNames (block : List Stmt) : List String :=
  block.filterMap Stmt.declared?

mutual

/-- The expressions that a statement is made of. -/
def Stmt.parts : Stmt → List Expr
  | .const _ value => [value]
  | .branch condition consequent alternative =>
    condition :: (blockParts consequent ++ blockParts alternative)
  | .returns value => [value]
  | .throws value => [value]
  | .expression value => [value]

/-- The expressions that statements are made of. -/
def blockParts : List Stmt → List Expr
  | [] => []
  | stmt :: rest => stmt.parts ++ blockParts rest

end

/-- The names of an expression are bound: by constants, by parameters that are not named like
helpers, or in place. A block declares no constant again. -/
inductive Scoped (factory : Expr) : List String → List String → Expr → Prop where
  | declared {consts params : List String} {name : String} (h : name ∈ consts) :
      Scoped factory consts params (.identifier name)
  | parameter {consts params : List String} {name : String} (h : name ∈ params)
      (plain : ¬ HelperName name) : Scoped factory consts params (.identifier name)
  | standard {consts params : List String} {name : String} (h : name ∈ standardNames) :
      Scoped factory consts params (.identifier name)
  | runtime {consts params : List String} (name : String) :
      Scoped factory consts params (.property factory name)
  | property {consts params : List String} {target : Expr} (h : Scoped factory consts params target)
      (name : String) : Scoped factory consts params (.property target name)
  | element {consts params : List String} {target index : Expr}
      (h : Scoped factory consts params target) (hi : Scoped factory consts params index) :
      Scoped factory consts params (.element target index)
  | call {consts params : List String} {callee : Expr} {arguments : List Expr} {span : Span}
      (h : Scoped factory consts params callee)
      (each : ∀ argument ∈ arguments, Scoped factory consts params argument) :
      Scoped factory consts params (.call callee [] arguments span)
  | string {consts params : List String} (value : String) :
      Scoped factory consts params (.string value)
  | number {consts params : List String} (value : Float) :
      Scoped factory consts params (.number value)
  | boolean {consts params : List String} (value : Bool) :
      Scoped factory consts params (.boolean value)
  | null {consts params : List String} : Scoped factory consts params .null
  | object {consts params : List String} {entries : List Entry}
      (each : ∀ entry ∈ entries, Scoped factory consts params entry.value) :
      Scoped factory consts params (.object entries)
  | array {consts params : List String} {elements : List Expr}
      (each : ∀ element ∈ elements, Scoped factory consts params element) :
      Scoped factory consts params (.array elements)
  | lambda {consts params names : List String} {value : Expr}
      (h : Scoped factory consts (names ++ params) value) :
      Scoped factory consts params (.arrow names (.concise value))
  | lambdaBlock {consts params names : List String} {block : List Stmt}
      (fresh : ∀ name ∈ declaredNames block, name ∉ consts)
      (each : ∀ part ∈ blockParts block,
        Scoped factory (declaredNames block ++ consts) (names ++ params) part) :
      Scoped factory consts params (.arrow names (.block block))
  | unary {consts params : List String} {operand : Expr} (op : UnaryOp)
      (h : Scoped factory consts params operand) :
      Scoped factory consts params (.unary op operand)
  | binary {consts params : List String} {left right : Expr} (op : BinaryOp)
      (hl : Scoped factory consts params left) (hr : Scoped factory consts params right) :
      Scoped factory consts params (.binary op left right)
  | conditional {consts params : List String} {condition whenTrue whenFalse : Expr}
      (h : Scoped factory consts params condition) (ht : Scoped factory consts params whenTrue)
      (hf : Scoped factory consts params whenFalse) :
      Scoped factory consts params (.conditional condition whenTrue whenFalse)

theorem mem_blockParts {part : Expr} {block : List Stmt} :
    part ∈ blockParts block ↔ ∃ stmt ∈ block, part ∈ stmt.parts := by
  induction block with
  | nil => simp [blockParts]
  | cons stmt rest ih => simp [blockParts, ih]

end TypedRoutes
