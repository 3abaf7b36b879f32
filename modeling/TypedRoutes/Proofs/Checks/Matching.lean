import TypedRoutes.Types.Table
import TypedRoutes.Proofs.Runtime.Machine

/-!
# Matching

When a value is one of a type, as a relation that knows nothing of generated code. A name without
definition and the kinds that nothing is checked for hold every value.
-/

namespace TypedRoutes.Runtime

/-- The value matches the kind of type. -/
inductive Matches (world : World) (definitions : TypeTable) : Data → TyKind → Prop where
  | string (value : String) : Matches world definitions (.string value) .string
  | number {value : Float} (finite : value.isFinite = true) :
      Matches world definitions (.number value) .number
  | boolean (value : Bool) : Matches world definitions (.boolean value) .boolean
  | bigInt (value : Int) : Matches world definitions (.bigInt value) .bigInt
  | null : Matches world definitions .null .null
  | undefined : Matches world definitions .undefined .undefined
  | void : Matches world definitions .undefined .void
  | any (value : Data) : Matches world definitions value .any
  | unknown (value : Data) : Matches world definitions value .unknown
  | promise (value : Data) (inner : Ty) : Matches world definitions value (.promise inner)
  | internal (value : Data) (name : String) : Matches world definitions value (.internal name)
  | date (time : Float) : Matches world definitions (.date time) .date
  | function (callable : Callable) : Matches world definitions (.function callable) .function
  | literalString (value : String) :
      Matches world definitions (.string value) (.literalString value)
  | literalNumber {value given : Float} (equal : (value == given) = true) :
      Matches world definitions (.number given) (.literalNumber value)
  | literalBoolean (value : Bool) :
      Matches world definitions (.boolean value) (.literalBoolean value)
  | array {items : List Data} {element : Ty}
      (each : ∀ item ∈ items, Matches world definitions item element.kind) :
      Matches world definitions (.array items) (.array element)
  /-- The number of items is that of the elements. -/
  | tuple {items : List Data} {elements : List Ty} (length : items.length = elements.length)
      (each : ∀ pair ∈ items.zip elements, Matches world definitions pair.1 pair.2.kind) :
      Matches world definitions (.array items) (.tuple elements)
  /-- An optional property may be undefined. -/
  | object {value : Data} {properties : List TyProperty} (shape : value.isObject = true)
      (each : ∀ property ∈ properties,
        ¬ (property.optional = true ∧ world.get value property.name = .undefined) →
          Matches world definitions (world.get value property.name) property.type.kind) :
      Matches world definitions value (.object properties)
  | record {value : Data} {type : Ty} (shape : value.isObject = true)
      (each : ∀ item ∈ value.values, Matches world definitions item type.kind) :
      Matches world definitions value (.record type)
  | reference {value : Data} {name : String} {definition : Ty}
      (defined : definitions.get? name = some definition)
      (same : Matches world definitions value definition.kind) :
      Matches world definitions value (.reference name)
  | dangling {name : String} (value : Data) (missing : definitions.get? name = none) :
      Matches world definitions value (.reference name)
  | union {value : Data} {members : List Ty} {member : Ty} (mem : member ∈ members)
      (one : Matches world definitions value member.kind) :
      Matches world definitions value (.union members)
  | intersection {value : Data} {members : List Ty}
      (all : ∀ member ∈ members, Matches world definitions value member.kind) :
      Matches world definitions value (.intersection members)

namespace Matches

variable {world : World} {definitions : TypeTable} {value : Data}

/-- Texts match string. -/
theorem string_iff : Matches world definitions value .string ↔ ∃ text, value = .string text :=
  ⟨fun h => by cases h; exact ⟨_, rfl⟩, by rintro ⟨text, rfl⟩; exact .string text⟩

/-- Finite numbers match number. -/
theorem number_iff :
    Matches world definitions value .number ↔ ∃ number, value = .number number ∧
      number.isFinite = true :=
  ⟨fun h => by cases h with | number finite => exact ⟨_, rfl, finite⟩,
    by rintro ⟨number, rfl, finite⟩; exact .number finite⟩

/-- Boolean values match boolean. -/
theorem boolean_iff : Matches world definitions value .boolean ↔ ∃ flag, value = .boolean flag :=
  ⟨fun h => by cases h; exact ⟨_, rfl⟩, by rintro ⟨flag, rfl⟩; exact .boolean flag⟩

/-- Big integers match bigint. -/
theorem bigInt_iff : Matches world definitions value .bigInt ↔ ∃ number, value = .bigInt number :=
  ⟨fun h => by cases h; exact ⟨_, rfl⟩, by rintro ⟨number, rfl⟩; exact .bigInt number⟩

/-- Callables match the type of functions. -/
theorem function_iff :
    Matches world definitions value .function ↔ ∃ callable, value = .function callable :=
  ⟨fun h => by cases h; exact ⟨_, rfl⟩, by rintro ⟨callable, rfl⟩; exact .function callable⟩

/-- Dates match the type of dates. -/
theorem date_iff : Matches world definitions value .date ↔ ∃ time, value = .date time :=
  ⟨fun h => by cases h; exact ⟨_, rfl⟩, by rintro ⟨time, rfl⟩; exact .date time⟩

/-- Only null matches null. -/
theorem null_iff : Matches world definitions value .null ↔ value = .null :=
  ⟨fun h => by cases h; rfl, by rintro rfl; exact .null⟩

/-- Only undefined matches undefined. -/
theorem undefined_iff : Matches world definitions value .undefined ↔ value = .undefined :=
  ⟨fun h => by cases h; rfl, by rintro rfl; exact .undefined⟩

/-- Only undefined matches void. -/
theorem void_iff : Matches world definitions value .void ↔ value = .undefined :=
  ⟨fun h => by cases h; rfl, by rintro rfl; exact .void⟩

/-- A literal text matches itself only. -/
theorem literalString_iff {text : String} :
    Matches world definitions value (.literalString text) ↔ value = .string text :=
  ⟨fun h => by cases h; rfl, by rintro rfl; exact .literalString text⟩

/-- A literal number matches the numbers that are equal to it, so that both zeros match each other.
-/
theorem literalNumber_iff {number : Float} :
    Matches world definitions value (.literalNumber number) ↔
      ∃ given, value = .number given ∧ (number == given) = true :=
  ⟨fun h => by cases h with | literalNumber equal => exact ⟨_, rfl, equal⟩,
    by rintro ⟨given, rfl, equal⟩; exact .literalNumber equal⟩

/-- A literal flag matches itself only. -/
theorem literalBoolean_iff {flag : Bool} :
    Matches world definitions value (.literalBoolean flag) ↔ value = .boolean flag :=
  ⟨fun h => by cases h; rfl, by rintro rfl; exact .literalBoolean flag⟩

/-- Nothing matches never. -/
theorem not_never : ¬ Matches world definitions value .never := by
  intro h
  cases h

/-- Arrays match if all items do. -/
theorem array_iff {element : Ty} :
    Matches world definitions value (.array element) ↔
      ∃ items, value = .array items ∧ ∀ item ∈ items, Matches world definitions item element.kind :=
  ⟨fun h => by cases h with | array each => exact ⟨_, rfl, each⟩,
    by rintro ⟨items, rfl, each⟩; exact .array each⟩

/-- Arrays match a tuple if they have its length and every item matches its element. -/
theorem tuple_iff {elements : List Ty} :
    Matches world definitions value (.tuple elements) ↔
      ∃ items, value = .array items ∧ items.length = elements.length ∧
        ∀ pair ∈ items.zip elements, Matches world definitions pair.1 pair.2.kind :=
  ⟨fun h => by cases h with | tuple length each => exact ⟨_, rfl, length, each⟩,
    by rintro ⟨items, rfl, length, each⟩; exact .tuple length each⟩

/-- Objects match if every property matches, or is undefined where it is optional. -/
theorem object_iff {properties : List TyProperty} :
    Matches world definitions value (.object properties) ↔ value.isObject = true ∧
      ∀ property ∈ properties,
        (property.optional = true ∧ world.get value property.name = .undefined) ∨
          Matches world definitions (world.get value property.name) property.type.kind := by
  constructor
  · intro h
    cases h with
    | object shape each =>
      refine ⟨shape, fun property hproperty => ?_⟩
      by_cases habsent : property.optional = true ∧ world.get value property.name = .undefined
      · exact .inl habsent
      · exact .inr (each property hproperty habsent)
  · rintro ⟨shape, each⟩
    exact .object shape fun property hproperty habsent =>
      (each property hproperty).resolve_left habsent

/-- Objects match a record if all their values match. -/
theorem record_iff {type : Ty} :
    Matches world definitions value (.record type) ↔ value.isObject = true ∧
      ∀ item ∈ value.values, Matches world definitions item type.kind :=
  ⟨fun h => by cases h with | record shape each => exact ⟨shape, each⟩,
    fun ⟨shape, each⟩ => .record shape each⟩

/-- A name with a definition is matched by what matches the definition. -/
theorem reference_iff {name : String} {definition : Ty}
    (defined : definitions.get? name = some definition) :
    Matches world definitions value (.reference name) ↔
      Matches world definitions value definition.kind := by
  constructor
  · intro h
    cases h with
    | reference defined' same =>
      cases defined.symm.trans defined'
      exact same
    | dangling _ missing => cases defined.symm.trans missing
  · exact .reference defined

/-- A union is matched by what matches one of its members. -/
theorem union_iff {members : List Ty} :
    Matches world definitions value (.union members) ↔
      ∃ member ∈ members, Matches world definitions value member.kind :=
  ⟨fun h => by cases h with | union mem one => exact ⟨_, mem, one⟩,
    fun ⟨_, mem, one⟩ => .union mem one⟩

/-- An intersection is matched by what matches all of its members. -/
theorem intersection_iff {members : List Ty} :
    Matches world definitions value (.intersection members) ↔
      ∀ member ∈ members, Matches world definitions value member.kind :=
  ⟨fun h => by cases h with | intersection all => exact all, .intersection⟩

end Matches

end TypedRoutes.Runtime
