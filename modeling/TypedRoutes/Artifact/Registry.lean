import TypedRoutes.Decimal.Layout

/-!
# Helper functions

Named types are never expanded in place. Each gets a number at its first use, and a helper for
every purpose it is used for. A helper whose body is still to be generated waits in a queue; it
enters the queue once, at its first request.
-/

namespace TypedRoutes

/-- What a helper does with a value: check it, serialize it, or check it and report what is
wrong. -/
inductive HelperKind where
  | check
  | serialize
  | validate
  deriving DecidableEq, Repr

/-- How the names of the helpers of one kind start. -/
def HelperKind.stem : HelperKind → String
  | .check => "$io"
  | .serialize => "$so"
  | .validate => "$vo"

/-- The order in which helpers of different kinds are declared. -/
def HelperKind.rank : HelperKind → Nat
  | .check => 0
  | .serialize => 1
  | .validate => 2

/-- The name of the helper for the type with the given number. -/
def HelperKind.helperName (kind : HelperKind) (index : Nat) : String :=
  kind.stem ++ Decimal.naturalText index

/-- A helper that was asked for. -/
structure Helper where
  kind : HelperKind
  index : Nat
  typeName : String
  deriving DecidableEq, Repr

/-- The numbering of types, the helpers that were ever asked for, and those that still wait. -/
structure Registry where
  names : List String := []
  requested : List Helper := []
  pending : List Helper := []
  deriving Repr, Inhabited

namespace Registry

/-- No helper was asked for. -/
def empty : Registry := {}

/-- The number of a type, the next free one if it has none. -/
def indexOf (registry : Registry) (typeName : String) : Nat :=
  registry.names.idxOf typeName

/-- The names after a type was given its number. -/
def withName (registry : Registry) (typeName : String) : List String :=
  if registry.names.contains typeName then registry.names else registry.names ++ [typeName]

/-- Asks for a helper: its name, and the registry in which it waits if it is new. -/
def request (registry : Registry) (kind : HelperKind) (typeName : String) : String × Registry :=
  let helper : Helper := ⟨kind, registry.indexOf typeName, typeName⟩
  let names := registry.withName typeName
  let next : Registry :=
    if registry.requested.contains helper then { registry with names }
    else ⟨names, registry.requested ++ [helper], registry.pending ++ [helper]⟩
  (kind.helperName helper.index, next)

/-- Takes the helper that has waited longest. -/
def nextPending (registry : Registry) : Option (Helper × Registry) :=
  match registry.pending with
  | [] => none
  | helper :: rest => some (helper, { registry with pending := rest })

/-- The number of types that have a number. -/
def size (registry : Registry) : Nat := registry.names.length

/-- Whether no type has a number yet. -/
def isEmpty (registry : Registry) : Bool := registry.names.isEmpty

end Registry

end TypedRoutes
