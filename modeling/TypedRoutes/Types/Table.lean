import TypedRoutes.KeyMap
import TypedRoutes.Types.References

/-!
# Named definitions

A table of definitions and the names that are referred to without having one.
-/

namespace TypedRoutes

/-- Definitions by name. -/
abbrev TypeTable := KeyMap Ty

/-- The first occurrences of the elements of a list, in order. -/
def firstOccurrences : List String → List String
  | [] => []
  | name :: rest => name :: (firstOccurrences rest).filter (· != name)

/-- All references of the definitions, in name order and visit order. -/
def TypeTable.references (table : TypeTable) : List String :=
  table.entries.flatMap fun entry => entry.2.references

/-- The names that definitions refer to and that have no definition, each once, in the order of
their first occurrences. -/
def TypeTable.dangling (table : TypeTable) : List String :=
  firstOccurrences (table.references.filter fun name => !table.contains name)

/-- The first definition, in name order, that refers to a name. -/
def TypeTable.referrer? (table : TypeTable) (name : String) : Option String :=
  (table.entries.find? fun entry => entry.2.references.contains name).map Prod.fst

end TypedRoutes
