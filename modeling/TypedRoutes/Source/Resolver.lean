import TypedRoutes.Script.Printer
import TypedRoutes.Text.Bytes
import TypedRoutes.Types.Flags
import TypedRoutes.Types.Written

/-!
# What the type checker knows

Nothing is type-checked here. A resolver answers the questions that come up: which declaration a
call invokes, which type an expression has, and how named types are defined.
-/

namespace TypedRoutes

/-- Where an invoked function is declared. -/
structure Declaration where
  fileName : ByteText
  symbol : String := ""
  deriving DecidableEq, Repr, Inhabited

/-- A resolved call; its declaration may be unknown. -/
structure Signature where
  declaration? : Option Declaration := none
  deriving DecidableEq, Repr, Inhabited

/-- The parts of a call. -/
structure CallParts where
  callee : Expr
  typeArguments : List TypeExpr
  arguments : List Expr
  span : Span
  deriving Inhabited

/-- The call that the parts make up. -/
def CallParts.expr (call : CallParts) : Expr :=
  .call call.callee call.typeArguments call.arguments call.span

/-- The answers that a decision depends on. Definitions are lent and not made, so there are finitely
many of them. -/
structure Resolver where
  /-- The signature that a call invokes. -/
  signature? : CallParts → Option Signature
  /-- The type of an expression. -/
  typeAt : Expr → Ty
  /-- The written form of a type. -/
  written? : Ty → Option TypeExpr := Ty.written?
  /-- The flags of a type. -/
  flags : Ty → TypeFlags
  /-- The definition behind a reference. -/
  definition? : String → Option Ty
  /-- The names that can have a definition. -/
  names : List String
  covers : ∀ name, (definition? name).isSome = true → name ∈ names

namespace Resolver

/-- The definitions of some of the names. -/
def definitionsOf (resolver : Resolver) : List String → TypeTable
  | [] => .empty
  | name :: rest =>
    match resolver.definition? name with
    | none => resolver.definitionsOf rest
    | some definition => (resolver.definitionsOf rest).insert name definition

/-- All definitions of a resolver. -/
def definitions (resolver : Resolver) : TypeTable :=
  resolver.definitionsOf resolver.names

theorem get?_definitionsOf (resolver : Resolver) (names : List String) (name : String) :
    (resolver.definitionsOf names).get? name =
      if name ∈ names then resolver.definition? name else none := by
  induction names with
  | nil => rfl
  | cons first rest ih =>
    rw [definitionsOf]
    by_cases hfirst : name = first
    · subst hfirst
      rw [if_pos List.mem_cons_self]
      cases hdefinition : resolver.definition? name with
      | none => simp [ih, hdefinition]
      | some definition => simp [KeyMap.get?_insert]
    · simp only [List.mem_cons, hfirst, false_or, ← ih]
      cases resolver.definition? first with
      | none => rfl
      | some definition => simp [KeyMap.get?_insert, hfirst]

/-- The table of all definitions answers as the resolver does. -/
@[simp] theorem get?_definitions (resolver : Resolver) (name : String) :
    resolver.definitions.get? name = resolver.definition? name := by
  rw [definitions, get?_definitionsOf]
  split
  · rfl
  · rename_i hname
    exact (Option.not_isSome_iff_eq_none.mp fun hsome => hname (resolver.covers name hsome)).symm

/-- A resolver that knows one signature, one type and no definition. -/
def constant (signature? : Option Signature) (type : Ty) : Resolver where
  signature? _ := signature?
  typeAt _ := type
  flags := TypeFlags.classify .empty
  definition? _ := none
  names := []
  covers := by simp

end Resolver

end TypedRoutes
