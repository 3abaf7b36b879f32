import TypedRoutes.Script.Same
import TypedRoutes.Source.Basic

/-!
# Sameness of source files

Sameness of types, snapshots and units. As in programs, numbers are compared as numbers.
-/

namespace TypedRoutes

mutual

/-- Whether two types are the same, their aliases included. -/
def Ty.same : Ty → Ty → Bool
  | .mk a aAlias, .mk b bAlias => a.same b && aAlias == bAlias

/-- Whether two kinds of type are the same. -/
def TyKind.same : TyKind → TyKind → Bool
  | .string, .string => true
  | .number, .number => true
  | .boolean, .boolean => true
  | .bigInt, .bigInt => true
  | .null, .null => true
  | .undefined, .undefined => true
  | .void, .void => true
  | .any, .any => true
  | .unknown, .unknown => true
  | .never, .never => true
  | .date, .date => true
  | .function, .function => true
  | .literalString a, .literalString b => a == b
  | .literalNumber a, .literalNumber b => a == b
  | .literalBoolean a, .literalBoolean b => a == b
  | .array a, .array b => a.same b
  | .tuple as, .tuple bs => Ty.sameAll as bs
  | .object as, .object bs => TyProperty.sameAll as bs
  | .record a, .record b => a.same b
  | .promise a, .promise b => a.same b
  | .reference a, .reference b => a == b
  | .union as, .union bs => Ty.sameAll as bs
  | .intersection as, .intersection bs => Ty.sameAll as bs
  | .internal a, .internal b => a == b
  | _, _ => false

/-- Whether two lists of types are the same. -/
def Ty.sameAll : List Ty → List Ty → Bool
  | [], [] => true
  | a :: as, b :: bs => a.same b && Ty.sameAll as bs
  | _, _ => false

/-- Whether two lists of properties are the same. -/
def TyProperty.sameAll : List TyProperty → List TyProperty → Bool
  | [], [] => true
  | .mk a aType aOptional aDescription :: as, .mk b bType bOptional bDescription :: bs =>
    a == b && aType.same bType && aOptional == bOptional && aDescription == bDescription &&
      TyProperty.sameAll as bs
  | _, _ => false

end

/-- Whether two optional values are both missing or both there and related. -/
def sameOptions {α : Type} (related : α → α → Bool) : Option α → Option α → Bool
  | none, none => true
  | some a, some b => related a b
  | _, _ => false

/-- Whether two maps have the same keys with related values. -/
def KeyMap.same {α : Type} (related : α → α → Bool) (a b : KeyMap α) : Bool :=
  sameLists (fun a b => a.1 == b.1 && related a.2 b.2) a.entries b.entries

/-- Whether two snapshots are the same. -/
def Snapshot.same (a b : Snapshot) : Bool :=
  a.symbols.same (· == ·) b.symbols && a.values.same Ty.same b.values &&
    a.definitions.same Ty.same b.definitions

/-- Whether two methods are the same. -/
def MethodDeclaration.same (a b : MethodDeclaration) : Bool :=
  a.name == b.name && sameLists Decorator.same a.decorators b.decorators &&
    sameOptions Ty.same a.returnType? b.returnType?

/-- Whether two classes are the same. -/
def ClassDeclaration.same (a b : ClassDeclaration) : Bool :=
  a.name == b.name && sameLists MethodDeclaration.same a.methods b.methods

/-- Whether two source files are the same. -/
def SourceFile.same (a b : SourceFile) : Bool :=
  a.fileName == b.fileName && sameLists ClassDeclaration.same a.classes b.classes

/-- Whether two units are the same. -/
def CompilationUnit.same (a b : CompilationUnit) : Bool :=
  a.source.same b.source && a.types.same b.types

end TypedRoutes
