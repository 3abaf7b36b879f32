/-!
# Resolved types

A type as the type checker resolved it. Definitions are referred to by name, so a type is always a
finite tree; recursion between types goes through their names.
-/

namespace TypedRoutes

mutual

/-- A resolved type: its kind, and the alias it was declared under, if any. -/
inductive Ty where
  | mk (kind : TyKind) (aliasName : Option String)

/-- What a type is. -/
inductive TyKind where
  | string
  | number
  | boolean
  | bigInt
  | null
  | undefined
  | void
  | any
  | unknown
  | never
  | date
  | function
  | literalString (value : String)
  | literalNumber (value : Float)
  | literalBoolean (value : Bool)
  | array (element : Ty)
  | tuple (elements : List Ty)
  | object (properties : List TyProperty)
  /-- An object with text keys of which all values have one type. -/
  | record (value : Ty)
  | promise (inner : Ty)
  /-- A definition, by name. -/
  | reference (name : String)
  | union (members : List Ty)
  | intersection (members : List Ty)
  /-- A type of the checker's own that has no written form. -/
  | internal (name : String)

/-- A property of an object type, optional when it is declared with a question mark. -/
inductive TyProperty where
  | mk (name : String) (type : Ty) (optional : Bool) (description : Option String)

end

instance : Inhabited Ty := ⟨.mk .any none⟩

/-- What a type is, whatever it is called. -/
def Ty.kind : Ty → TyKind
  | .mk kind _ => kind

/-- The name a type was declared under. -/
def Ty.aliasName : Ty → Option String
  | .mk _ aliasName => aliasName

/-- A type without an alias. -/
def TyKind.type (kind : TyKind) : Ty := .mk kind none

/-- The key of a property. -/
def TyProperty.name : TyProperty → String
  | .mk name _ _ _ => name

/-- The type of a property. -/
def TyProperty.type : TyProperty → Ty
  | .mk _ type _ _ => type

/-- Whether a property is declared with a question mark. -/
def TyProperty.optional : TyProperty → Bool
  | .mk _ _ optional _ => optional

/-- The four kinds that are written as a bare name and hold values of one run-time type. -/
def TyKind.isPrimitive : TyKind → Bool
  | .string | .number | .boolean | .bigInt => true
  | _ => false

/-- The kinds that hold a single value. -/
def TyKind.isLiteral : TyKind → Bool
  | .literalString _ | .literalNumber _ | .literalBoolean _ => true
  | _ => false

/-- The kinds whose only value is `undefined`. -/
def TyKind.isUndefined : TyKind → Bool
  | .undefined | .void => true
  | _ => false

/-- Whether a type is one of those whose only value is `undefined`. -/
def Ty.isUndefined (type : Ty) : Bool := type.kind.isUndefined

/-- Whether a property of the type may be absent from serialized text: the type is undefined, or a
union with an undefined member. -/
def Ty.admitsAbsence (type : Ty) : Bool :=
  match type.kind with
  | .undefined | .void => true
  | .union members => members.any Ty.isUndefined
  | _ => false

/-- Whether a property may be absent from serialized text. -/
def TyProperty.mayBeAbsent (property : TyProperty) : Bool :=
  property.optional || property.type.admitsAbsence

/-- The type without the undefined members of its union. -/
def Ty.defined (type : Ty) : Ty :=
  match type.kind with
  | .union members =>
    match members.filter fun member => !member.isUndefined with
    | [] => TyKind.undefined.type
    | [only] => only
    | kept => (TyKind.union kept).type
  | _ => type

/-- The type that a method responds with: one promise is awaited. -/
def Ty.response (type : Ty) : Ty :=
  match type.kind with
  | .promise inner => inner
  | _ => type

end TypedRoutes
