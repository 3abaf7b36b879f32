import TypedRoutes.Types.Basic

/-!
# References between types

The definitions that a type refers to, in the order in which its tree is visited, and whether a
part of it belongs to the checker.
-/

namespace TypedRoutes

mutual

/-- The names a type refers to, in visit order, as often as they occur. -/
def Ty.references : Ty → List String
  | .mk kind _ => kind.references

/-- The names a kind refers to. -/
def TyKind.references : TyKind → List String
  | .reference name => [name]
  | .array element => element.references
  | .promise inner => inner.references
  | .record value => value.references
  | .tuple elements => Ty.referencesOf elements
  | .union members => Ty.referencesOf members
  | .intersection members => Ty.referencesOf members
  | .object properties => TyProperty.referencesOf properties
  | _ => []

/-- The names that several types refer to. -/
def Ty.referencesOf : List Ty → List String
  | [] => []
  | type :: rest => type.references ++ Ty.referencesOf rest

/-- The names that several properties refer to. -/
def TyProperty.referencesOf : List TyProperty → List String
  | [] => []
  | .mk _ type _ _ :: rest => type.references ++ TyProperty.referencesOf rest

end

mutual

/-- Whether a type, or a part of it, has no written form; an alias does not hide such a part. -/
def Ty.hasInternal : Ty → Bool
  | .mk kind _ => kind.hasInternal

/-- Whether a kind, or a part of it, has no written form. -/
def TyKind.hasInternal : TyKind → Bool
  | .internal _ => true
  | .array element => element.hasInternal
  | .promise inner => inner.hasInternal
  | .record value => value.hasInternal
  | .tuple elements => Ty.anyInternal elements
  | .union members => Ty.anyInternal members
  | .intersection members => Ty.anyInternal members
  | .object properties => TyProperty.anyInternal properties
  | _ => false

/-- Whether one of the types has a part without written form. -/
def Ty.anyInternal : List Ty → Bool
  | [] => false
  | type :: rest => type.hasInternal || Ty.anyInternal rest

/-- Whether one of the properties has a part without written form. -/
def TyProperty.anyInternal : List TyProperty → Bool
  | [] => false
  | .mk _ type _ _ :: rest => type.hasInternal || TyProperty.anyInternal rest

end

/-- The references of several types are those of the single types, one after the other. -/
theorem Ty.referencesOf_eq_flatMap (types : List Ty) :
    Ty.referencesOf types = types.flatMap Ty.references := by
  induction types with
  | nil => rfl
  | cons type rest ih => simp [Ty.referencesOf, ih]

/-- The references of several properties are those of their types, one after the other. -/
theorem TyProperty.referencesOf_eq_flatMap (properties : List TyProperty) :
    TyProperty.referencesOf properties =
      properties.flatMap fun property => property.type.references := by
  induction properties with
  | nil => rfl
  | cons property rest ih =>
    cases property
    simp [TyProperty.referencesOf, TyProperty.type, ih]

end TypedRoutes
