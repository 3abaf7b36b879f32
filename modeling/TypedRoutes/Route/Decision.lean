import TypedRoutes.Artifact.Closure
import TypedRoutes.Route.AllowList
import TypedRoutes.Source.Resolver

/-!
# Deciding on a decorator

A decorator receives an artifact when it is a call of a factory that is declared at an allowed
site, carries at most one argument, which is no options object, and its method responds with a type
that has a written form. Whatever cannot be established leaves the decorator as it is.
-/

namespace TypedRoutes

/-- Why a decorator is left as it is. -/
inductive SkipReason where
  | notACall
  | unresolvedSignature
  | missingDeclaration
  | outsideAllowList
  | alreadyAugmented
  | objectArgument
  | inexpressibleType
  | missingReturnType
  deriving DecidableEq, Repr, Inhabited

/-- A reason in words. -/
def SkipReason.describe : SkipReason → String
  | .notACall => "decorator is not a call"
  | .unresolvedSignature => "signature could not be resolved"
  | .missingDeclaration => "signature has no declaration"
  | .outsideAllowList => "not a typed route decorator"
  | .alreadyAugmented => "already has an artifact argument"
  | .objectArgument => "argument is an object"
  | .inexpressibleType => "return type cannot be written"
  | .missingReturnType => "method has no resolved return type"

/-- The name of a reason in reports. -/
def SkipReason.name : SkipReason → String
  | .notACall => "not_a_call"
  | .unresolvedSignature => "unresolved_signature"
  | .missingDeclaration => "missing_declaration"
  | .outsideAllowList => "outside_allow_list"
  | .alreadyAugmented => "already_augmented"
  | .objectArgument => "object_argument"
  | .inexpressibleType => "inexpressible_type"
  | .missingReturnType => "missing_return_type"

/-- All reasons. -/
def SkipReason.all : List SkipReason :=
  [.notACall, .unresolvedSignature, .missingDeclaration, .outsideAllowList, .alreadyAugmented,
    .objectArgument, .inexpressibleType, .missingReturnType]

/-- The reason with the given name. -/
def SkipReason.ofName? (name : String) : Option SkipReason :=
  SkipReason.all.find? fun reason => reason.name == name

/-- What happened to a decorator. -/
inductive Outcome where
  | augmented
  | skipped (reason : SkipReason)
  deriving DecidableEq, Repr, Inhabited

/-- What a decision consults besides the decorator. -/
structure Project where
  resolver : Resolver
  mode : Mode
  allowList : AllowList

/-- The parts of a decorator that is a call. -/
def Decorator.call? : Decorator → Option CallParts
  | ⟨.call callee typeArguments arguments span⟩ => some ⟨callee, typeArguments, arguments, span⟩
  | _ => none

/-- What is decided about a decorator. -/
inductive Verdict where
  /-- The call receives an artifact; the response type has this written form. -/
  | eligible (call : CallParts) (written : TypeExpr)
  | skip (reason : SkipReason)

namespace Project

/-- Why a call is none of an allowed factory, if it is none. -/
def siteProblem? (project : Project) (call : CallParts) : Option SkipReason :=
  match project.resolver.signature? call with
  | none => some .unresolvedSignature
  | some ⟨none⟩ => some .missingDeclaration
  | some ⟨some declaration⟩ =>
    if project.allowList.contains declaration.fileName.shown then none else some .outsideAllowList

/-- Why the arguments of a call leave no place for an artifact, if they leave none. -/
def argumentProblem? (project : Project) : List Expr → Option SkipReason
  | [] => none
  | [argument] =>
    if (project.resolver.flags (project.resolver.typeAt argument)).isPlainObject
    then some .objectArgument else none
  | _ :: _ :: _ => some .alreadyAugmented

/-- Decides on a decorator of a method that responds with `type`. -/
def inspect (project : Project) (type : Ty) (decorator : Decorator) : Verdict :=
  match decorator.call? with
  | none => .skip .notACall
  | some call =>
    match (project.siteProblem? call).or (project.argumentProblem? call.arguments) with
    | some reason => .skip reason
    | none =>
      match project.resolver.written? type with
      | none => .skip .inexpressibleType
      | some written => .eligible call written

/-- What is consulted to generate for the factory that a decorator calls. -/
def scope (project : Project) (callee : Expr) : Scope :=
  .general callee project.resolver.definitions project.resolver.written?

/-- The artifact for a type, made for the factory that the decorator calls. -/
def artifact (project : Project) (callee : Expr) (type : Ty) : Expr :=
  (project.scope callee).artifactLiteral project.mode type

/-- The call with the artifact as its last argument. -/
def withArtifact (project : Project) (type : Ty) (call : CallParts) : Decorator :=
  ⟨{ call with arguments := call.arguments ++ [project.artifact call.callee type] }.expr⟩

/-- Decides on a decorator and carries the decision out. -/
def augment (project : Project) (type : Ty) (decorator : Decorator) : Decorator × Outcome :=
  match project.inspect type decorator with
  | .skip reason => (decorator, .skipped reason)
  | .eligible call _ => (project.withArtifact type call, .augmented)

end Project

end TypedRoutes
