import TypedRoutes.Json.Draft
import TypedRoutes.KeyMap

/-!
# Reading shapes

Readers of the shapes that a document is made of: texts, numbers, lists, maps, records and choices.
A draft is read in the order of its text, so the first fault in the text is the one reported. Every
array and object that is entered uses up one level of a nesting budget; a value that nobody wants
is skipped, whatever its depth.
-/

namespace TypedRoutes.Json

/-- The levels of arrays and objects that a reader enters. -/
def nestingBudget : Nat := 127

/-- A reader of drafts. -/
abbrev Reading (α : Type) := Draft → Except Fault α

namespace Draft

/-- The fault of a value that is of another kind than the wanted one. -/
def unwanted : Draft → Fault
  | .broken verdict => verdict.wanted
  | .number value => if value.take?.isSome then .mismatched else .malformed
  | .string none => .malformed
  | _ => .mismatched

/-- The fault of a value for which no nesting is left. -/
def tooDeep : Draft → Fault
  | .array _ _ | .object _ _ => .malformed
  | other => other.unwanted

/-- Refuses an array or object that the text breaks off in. -/
def closed : Option Break → Except Fault Unit
  | none => .ok ()
  | some verdict => .error verdict.wanted

/-- Refuses an object with a single member that the text breaks off in. -/
def closedSingle : Option Break → Except Fault Unit
  | none => .ok ()
  | some verdict => .error verdict.single

/-- Passes over the end of an array or object. -/
def skipEnding : Option Break → Except Fault Unit
  | none => .ok ()
  | some verdict => .error verdict.skipped

mutual

/-- Passes over a value that nobody wants. -/
def skip : Draft → Except Fault Unit
  | .broken verdict => .error verdict.skipped
  | .array items ending => do
    skipItems items
    skipEnding ending
  | .object members ending => do
    skipMembers members
    skipEnding ending
  | _ => .ok ()

/-- Passes over the items of an array. -/
def skipItems : List Draft → Except Fault Unit
  | [] => .ok ()
  | item :: rest => do
    item.skip
    skipItems rest

/-- Passes over the members of an object. -/
def skipMembers : List (Option String × Draft) → Except Fault Unit
  | [] => .ok ()
  | (_, value) :: rest => do
    value.skip
    skipMembers rest

end

mutual

/-- Takes a value as a whole, whatever it holds. -/
def toJson (budget : Nat) : Draft → Except Fault Json
  | .null => .ok .null
  | .boolean value => .ok (.boolean value)
  | .number value => value.toJson?.elim (.error .malformed) .ok
  | .string (some text) => .ok (.string text)
  | .string none => .error .malformed
  | .broken verdict => .error verdict.wanted
  | .array items ending =>
    match budget with
    | 0 => .error .malformed
    | budget + 1 => do
      let items ← itemsToJson budget items
      closed ending
      return .array items
  | .object members ending =>
    match budget with
    | 0 => .error .malformed
    | budget + 1 => do
      let members ← membersToJson budget members
      closed ending
      return .object members

/-- Takes the items of an array. -/
def itemsToJson (budget : Nat) : List Draft → Except Fault (List Json)
  | [] => .ok []
  | item :: rest => do
    let item ← item.toJson budget
    return item :: (← itemsToJson budget rest)

/-- Takes the members of an object. -/
def membersToJson (budget : Nat) :
    List (Option String × Draft) → Except Fault (List (String × Json))
  | [] => .ok []
  | (none, _) :: _ => .error .malformed
  | (some key, value) :: rest => do
    let value ← value.toJson budget
    return (key, value) :: (← membersToJson budget rest)

end

/-- Reads a text. -/
def text : Reading String
  | .string (some value) => .ok value
  | other => .error other.unwanted

/-- Reads a boolean. -/
def truth : Reading Bool
  | .boolean value => .ok value
  | other => .error other.unwanted

/-- Reads a float; whole numbers are converted. -/
def float : Reading Float
  | .number value => value.take?.elim (.error .malformed) .ok
  | other => .error other.unwanted

/-- Reads null as nothing and anything else as a value. -/
def optional {α : Type} (read : Reading α) : Reading (Option α)
  | .null => .ok none
  | other => some <$> read other

/-- Reads the items of an array in order. -/
def list {α : Type} (budget : Nat) (read : Nat → Reading α) : Reading (List α)
  | .array items ending =>
    match budget with
    | 0 => .error .malformed
    | budget + 1 => do
      let values ← items.mapM (read budget)
      closed ending
      return values
  | other => .error other.unwanted

/-- Reads one member of a map. -/
def mapMember {α : Type} (read : Reading α) (map : KeyMap α) :
    Option String × Draft → Except Fault (KeyMap α)
  | (none, _) => .error .malformed
  | (some key, value) => do return map.insert key (← read value)

/-- Reads the members of an object as a map; of members with one key the last one counts. -/
def keyMap {α : Type} (budget : Nat) (read : Nat → Reading α) : Reading (KeyMap α)
  | .object members ending =>
    match budget with
    | 0 => .error .malformed
    | budget + 1 => do
      let map ← members.foldlM (mapMember (read budget)) .empty
      closed ending
      return map
  | other => .error other.unwanted

/-- Takes the value of a record field into the record read so far. -/
abbrev FieldReader (σ : Type) := String → Draft → σ → Except Fault σ

/-- Reads one member of a record. A field may stand there once; other members are skipped. -/
def recordMember {σ : Type} (fields : List String) (read : FieldReader σ)
    (state : List String × σ) : Option String × Draft → Except Fault (List String × σ)
  | (none, _) => .error .malformed
  | (some key, value) =>
    if fields.contains key then
      if state.1.contains key then .error .mismatched
      else do return (key :: state.1, ← read key value state.2)
    else do
      value.skip
      return state

/-- Reads a record that is written as an array of its fields in order. A comma behind the last field
is malformed, whatever follows it. -/
def recordItems {σ : Type} (read : FieldReader σ) : List String → List Draft → σ → Except Fault σ
  | _, [], state => .ok state
  | [], _ :: _, _ => .error .malformed
  | field :: fields, item :: rest, state => do
    recordItems read fields rest (← read field item state)

/-- Reads a record, by field names or as the array of its fields. Fields that are missing are left
as they are in `start`. -/
def record {σ : Type} (budget : Nat) (fields : List String) (read : Nat → FieldReader σ)
    (start : σ) : Reading σ
  | .object members ending =>
    match budget with
    | 0 => .error .malformed
    | budget + 1 => do
      let state ← members.foldlM (recordMember fields (read budget)) ([], start)
      closed ending
      return state.2
  | .array items ending =>
    match budget with
    | 0 => .error .malformed
    | budget + 1 => do
      let state ← recordItems (read budget) fields items start
      closed ending
      return state
  | other => .error other.unwanted

/-- The value of a field that has to be there. -/
def required {α : Type} (value : Option α) : Except Fault α :=
  value.elim (.error .mismatched) .ok

/-- Reads one of several names; an object whose only member is a name with null counts as the
name. -/
def choice (budget : Nat) (names : List String) : Reading String
  | .string none => .error .malformed
  | .string (some name) => if names.contains name then .ok name else .error .mismatched
  | .broken verdict => .error verdict.wanted
  | .object members ending =>
    match budget, members with
    | 0, _ => .error .malformed
    | _ + 1, [] => do
      closedSingle ending
      .error .malformed
    | _ + 1, (none, _) :: _ => .error .malformed
    | _ + 1, (some name, value) :: more =>
      if names.contains name then
        match value, more with
        | .null, [] => do
          closedSingle ending
          return name
        | .null, _ :: _ => .error .malformed
        | other, _ => .error other.unwanted
      else .error .mismatched
  | _ => .error .malformed

/-- Reads the null that stands for a value without content. -/
def nothing (budget : Nat) : Reading Unit
  | .null => .ok ()
  | .array _ _ | .object _ _ => .error (if budget = 0 then .malformed else .mismatched)
  | other => .error other.unwanted

end Draft

end TypedRoutes.Json
