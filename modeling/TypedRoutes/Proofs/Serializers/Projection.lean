import TypedRoutes.Proofs.Checks.Guarded
import TypedRoutes.Proofs.Checks.Matching
import TypedRoutes.Proofs.Json.Documents

/-!
# Projections

What of a value belongs to a type and is serialized: of an object the declared properties that are
not undefined, of a union what belongs to the first member that matches. The types are those whose
values have a JSON text, and a JSON text is one that is read as the value.
-/

namespace TypedRoutes

/-- The types that a property can have: the members of its union, or its type itself. -/
def Ty.alternatives (type : Ty) : List Ty :=
  match type.kind with
  | .union members => members
  | _ => [type]

/-- Every value of the kind of type has a JSON text. Undefined occurs only as the type of a property
or as a member of its union. -/
inductive TyKind.Serializable : TyKind → Prop where
  | string : Serializable .string
  | number : Serializable .number
  | boolean : Serializable .boolean
  | null : Serializable .null
  | literalString (value : String) : Serializable (.literalString value)
  | literalNumber {value : Float} (finite : value.isFinite = true) :
      Serializable (.literalNumber value)
  | literalBoolean (value : Bool) : Serializable (.literalBoolean value)
  | array {element : Ty} (each : Serializable element.kind) : Serializable (.array element)
  | tuple {elements : List Ty} (each : ∀ element ∈ elements, Serializable element.kind) :
      Serializable (.tuple elements)
  | object {properties : List TyProperty}
      (each : ∀ property ∈ properties, ∀ type ∈ property.type.alternatives,
        type.isUndefined = false → Serializable type.kind) : Serializable (.object properties)
  | record {value : Ty} (each : Serializable value.kind) : Serializable (.record value)
  | union {members : List Ty} (each : ∀ member ∈ members, Serializable member.kind) :
      Serializable (.union members)
  | reference (name : String) : Serializable (.reference name)

/-- The type and all definitions that it reaches are serializable. -/
structure TypeTable.Serializes (definitions : TypeTable) (type : Ty) : Prop where
  kind : type.kind.Serializable
  defined : ∀ name, definitions.Reaches type name →
    ∃ definition, definitions.get? name = some definition ∧ definition.kind.Serializable

namespace Runtime

/-- Whether a value is undefined. -/
def Data.isUndefined : Data → Bool
  | .undefined => true
  | _ => false

theorem Data.isUndefined_iff {value : Data} : value.isUndefined = true ↔ value = .undefined := by
  cases value <;> simp [isUndefined]

/-- The properties that a value has, in the order of their declaration. -/
def World.declared (world : World) (value : Data) (properties : List TyProperty) :
    List TyProperty :=
  properties.filter fun property => !(world.get value property.name).isUndefined

mutual

/-- The image is what of the value belongs to the kind of type. -/
inductive Projects (world : World) (definitions : TypeTable) : Data → TyKind → Data → Prop where
  | string (value : String) : Projects world definitions (.string value) .string (.string value)
  | number (value : Float) : Projects world definitions (.number value) .number (.number value)
  | boolean (value : Bool) :
      Projects world definitions (.boolean value) .boolean (.boolean value)
  | null : Projects world definitions .null .null .null
  | literalString (value : String) :
      Projects world definitions (.string value) (.literalString value) (.string value)
  | literalNumber {value given : Float} (equal : (value == given) = true) :
      Projects world definitions (.number given) (.literalNumber value) (.number given)
  | literalBoolean (value : Bool) :
      Projects world definitions (.boolean value) (.literalBoolean value) (.boolean value)
  | array {items images : List Data} {element : Ty}
      (each : ProjectsAll world definitions (items.map fun item => (item, element)) images) :
      Projects world definitions (.array items) (.array element) (.array images)
  | tuple {items images : List Data} {elements : List Ty} (length : items.length = elements.length)
      (each : ProjectsAll world definitions (items.zip elements) images) :
      Projects world definitions (.array items) (.tuple elements) (.array images)
  /-- Declared properties in their order, without those that are undefined. -/
  | object {value : Data} {properties : List TyProperty} {images : List Data}
      (each : ProjectsAll world definitions ((world.declared value properties).map fun property =>
        (world.get value property.name, property.type)) images) :
      Projects world definitions value (.object properties)
        (.object (((world.declared value properties).map TyProperty.name).zip images))
  /-- Every key of the value. -/
  | record {value : Data} {type : Ty} {images : List Data}
      (each : ProjectsAll world definitions (value.values.map fun item => (item, type)) images) :
      Projects world definitions value (.record type) (.object (value.keys.zip images))
  | reference {value image : Data} {name : String} {definition : Ty}
      (defined : definitions.get? name = some definition)
      (same : Projects world definitions value definition.kind image) :
      Projects world definitions value (.reference name) image
  /-- The first member that the value matches. -/
  | union {value image : Data} {before behind : List Ty} {member : Ty}
      (first : ∀ other ∈ before, ¬ Matches world definitions value other.kind)
      (one : Matches world definitions value member.kind)
      (same : Projects world definitions value member.kind image) :
      Projects world definitions value (.union (before ++ member :: behind)) image

/-- The images are what of each value belongs to its type. -/
inductive ProjectsAll (world : World) (definitions : TypeTable) :
    List (Data × Ty) → List Data → Prop where
  | nil : ProjectsAll world definitions [] []
  | cons {value image : Data} {type : Ty} {rest : List (Data × Ty)} {images : List Data}
      (first : Projects world definitions value type.kind image)
      (others : ProjectsAll world definitions rest images) :
      ProjectsAll world definitions ((value, type) :: rest) (image :: images)

end

/-- The draft of a document holds the value. Numbers are told apart as far as equality does. -/
inductive Holds : Json.Draft → Data → Prop where
  | null : Holds .null .null
  | boolean (value : Bool) : Holds (.boolean value) (.boolean value)
  | number {numeral : Json.Numeral} {read value : Float} (reads : numeral.toFloat? = some read)
      (equal : (read == value) = true) : Holds (.number numeral) (.number value)
  | string (value : String) : Holds (.string (some value)) (.string value)
  | array {items : List Json.Draft} {values : List Data} (each : List.Forall₂ Holds items values) :
      Holds (.array items none) (.array values)
  | object {keys : List String} {items : List Json.Draft} {values : List Data}
      (each : List.Forall₂ Holds items values) :
      Holds (.object ((keys.map some).zip items) none) (.object (keys.zip values))

/-- The text is a JSON text of the value. -/
def JsonText (text : String) (value : Data) : Prop :=
  ∃ document, Json.Draft.read text = (document, none) ∧ Holds document value

theorem JsonText.of_reads {text : String} {document : Json.Draft} {value : Data}
    (h : Json.Reads text.toList document) (hholds : Holds document value) : JsonText text value :=
  ⟨document, h.read, hholds⟩

theorem JsonText.reads {text : String} {value : Data} (h : JsonText text value) :
    ∃ document, Json.Reads text.toList document ∧ Holds document value := by
  obtain ⟨document, hread, hholds⟩ := h
  refine ⟨document, .of_read hread ?_, hholds⟩
  cases hholds <;> rfl

end Runtime

end TypedRoutes
