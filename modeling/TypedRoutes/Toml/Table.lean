import TypedRoutes.Toml.Value

/-!
# Tables in the making

While a document is read, a table remembers how it came about, because that decides what may still
be added to it: a header opens a table once, a dotted key adds to tables that dotted keys made, and
what was written as a value is closed.
-/

namespace TypedRoutes

/-- How a table came about. -/
inductive TableOrigin where
  /-- It has a header of its own. -/
  | header
  /-- It stands on the way to a header. -/
  | passage
  /-- It stands on the way to a dotted key. -/
  | dotted
  deriving DecidableEq, Repr

/-- A part of a document in the making. -/
inductive TomlNode where
  | closed (value : Toml)
  | table (origin : TableOrigin) (members : List (String × TomlNode))
  /-- Tables that share a header; the last one is open. -/
  | tables (finished : List Toml) (members : List (String × TomlNode))
  deriving Inhabited

/-- The members of a table in the making. -/
abbrev TomlMembers := List (String × TomlNode)

mutual

/-- What a part of a document is once nothing is added any more. -/
def TomlNode.value : TomlNode → Toml
  | .closed value => value
  | .table _ members => .table (TomlNode.values members)
  | .tables finished members => .array (finished ++ [.table (TomlNode.values members)])

/-- What the members of a table are once nothing is added any more. -/
def TomlNode.values : List (String × TomlNode) → List (String × Toml)
  | [] => []
  | (key, node) :: rest => (key, node.value) :: TomlNode.values rest

end

namespace TomlMembers

/-- Puts a member in the place of the one with the same key, or behind all others. -/
def set (key : String) (node : TomlNode) : TomlMembers → TomlMembers
  | [] => [(key, node)]
  | (other, old) :: rest =>
    if other = key then (key, node) :: rest else (other, old) :: set key node rest

/-- Changes the table that a path leads to. Tables that are missing are made with the given origin;
of tables that share a header the last one is meant. A dotted key does not lead into a table that
has a header. -/
def change? (origin : TableOrigin) (change : TableOrigin → TomlMembers → Option TomlMembers)
    (here : TableOrigin) : List String → TomlMembers → Option TomlMembers
  | [], members => change here members
  | key :: path, members =>
    match members.lookup key with
    | none => do
      let inner ← change? origin change origin path []
      return set key (.table origin inner) members
    | some (.table found inner) =>
      if origin = .dotted ∧ found = .header then none
      else do
        let inner ← change? origin change found path inner
        return set key (.table found inner) members
    | some (.tables finished inner) => do
      let inner ← change? origin change .header path inner
      return set key (.tables finished inner) members
    | some (.closed _) => none

/-- Adds a member to a table. Only a table made by dotted keys takes a member by a dotted key. -/
def add? (dotted : Bool) (key : String) (node : TomlNode) (here : TableOrigin)
    (members : TomlMembers) : Option TomlMembers :=
  if dotted && here != .dotted then none
  else if (members.lookup key).isSome then none
  else some (members ++ [(key, node)])

/-- Adds a value under a key with dots to the table that the header `path` leads to. -/
def addValue? (path key : List String) (value : Toml) (members : TomlMembers) :
    Option TomlMembers := do
  let last ← key.getLast?
  let way := key.dropLast
  change? .passage
    (fun _ members => change? .dotted (add? (!way.isEmpty) last (.closed value)) .header
      way members)
    .header path members

/-- Opens a table by its header. -/
def open? (key : String) (_ : TableOrigin) (members : TomlMembers) : Option TomlMembers :=
  match members.lookup key with
  | none => some (members ++ [(key, .table .header [])])
  | some (.table .passage inner) => some (set key (.table .header inner) members)
  | some _ => none

/-- Opens one more table of those that share a header. -/
def openNext? (key : String) (_ : TableOrigin) (members : TomlMembers) : Option TomlMembers :=
  match members.lookup key with
  | none => some (members ++ [(key, .tables [] [])])
  | some (.tables finished inner) =>
    some (set key (.tables (finished ++ [.table (TomlNode.values inner)]) []) members)
  | some _ => none

/-- Carries out a header. -/
def addHeader? (shared : Bool) (path : List String) (members : TomlMembers) :
    Option TomlMembers := do
  let last ← path.getLast?
  change? .passage (if shared then openNext? last else open? last) .header path.dropLast members

end TomlMembers

end TypedRoutes
