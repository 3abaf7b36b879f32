import TypedRoutes.Json.Shape
import TypedRoutes.Source.Basic
import TypedRoutes.Unit.Decode
import TypedRoutes.Unit.DecodeTypes

/-!
# Reading units from JSON

Types, snapshots and source files are read in the order of the text, so that the first fault in
the text is the one reported. The reader of a record gathers its fields as they come and asks at
the end for those that have to be there.
-/

namespace TypedRoutes

open Json Json.Draft

/-- Reads the name of a shape, which has to be one of those that are known. -/
def readShapeName (names : List String) : Reading String := fun draft => do
  let name ← draft.text
  if names.contains name then return name else .error .mismatched

/-- Looks at one member of a tagged record; `named` tells whether its name was met before. -/
def checkTaggedMember (budget : Nat) (names : List String) (named : Bool) :
    Option String × Draft → Except Fault Bool
  | (none, _) => .error .malformed
  | (some key, value) => do
    if key = "kind" then
      if named then .error .mismatched
      else
        discard (readShapeName names value)
        return true
    else
      discard (value.toJson budget)
      return named

/-- Looks at a tagged record in the order of its text. The name of its shape is judged where it
stands, and all other members only have to be well formed. -/
def checkTagged (budget : Nat) (names : List String) : Draft → Except Fault Unit
  | .object members ending =>
    match budget with
    | 0 => .error .malformed
    | budget + 1 => do
      discard (members.foldlM (checkTaggedMember budget names) false)
      closed ending
  | .array items ending =>
    match budget, items with
    | 0, _ => .error .malformed
    | _ + 1, [] => closed ending
    | budget + 1, name :: fields => do
      discard (readShapeName names name)
      discard (itemsToJson budget fields)
      closed ending
  | other => .error other.unwanted

/-- Reads a tagged record: its own name where it stands, and what it holds once the whole record is
known. -/
def readTagged {α : Type} (names : List String) (ofJson? : Nat → Json → Option α) (budget : Nat) :
    Reading α := fun draft => do
  checkTagged budget names draft
  let json ← draft.toJson budget
  required (ofJson? budget json)

/-- Reads an expression. -/
def Expr.read : Nat → Reading Expr := readTagged Expr.shapeNames Expr.ofJson?

/-- Reads a statement. -/
def Stmt.read : Nat → Reading Stmt := readTagged Stmt.shapeNames Stmt.ofJson?

/-- Reads a type expression. -/
def TypeExpr.read : Nat → Reading TypeExpr := readTagged TypeExpr.shapeNames TypeExpr.ofJson?

/-- The decorator read so far. -/
structure DecoratorFields where
  expression? : Option Expr := none

/-- Reads a decorator. -/
def Decorator.read (budget : Nat) : Reading Decorator := fun draft => do
  let fields ← draft.record budget ["expression"]
    (fun budget _ value fields => do
      return { fields with expression? := some (← Expr.read budget value) })
    ({} : DecoratorFields)
  return ⟨← required fields.expression?⟩

/-- The type read so far. -/
structure TyFields where
  kind? : Option TyKind := none
  aliasName : Option String := none

/-- The property read so far. -/
structure PropertyFields where
  name? : Option String := none
  type? : Option Ty := none
  isOptional : Bool := false
  description : Option String := none

/-- The kind read so far: its name, what it is made of while the name is not known yet, and the
kind itself once both are. -/
structure KindFields where
  name? : Option String := none
  held? : Option Json := none
  kind? : Option TyKind := none

/-- Reads one member of a kind: its name or what it is made of, each once and in either order. What
comes before the name is taken as a whole. -/
def KindFields.member (budget : Nat) (content : String → Reading TyKind) (fields : KindFields) :
    Option String × Draft → Except Fault KindFields
  | (none, _) => .error .malformed
  | (some "type", value) =>
    match fields with
    | ⟨none, none, _⟩ => do return { fields with name? := some (← value.choice budget kindNames) }
    | ⟨none, some held, none⟩ => do
      let name ← value.choice budget kindNames
      let kind ← required (TyKind.contentOfJson? (Ty.ofJson? budget) name held)
      return ⟨some name, some held, some kind⟩
    | _ => .error .mismatched
  | (some "value", value) =>
    match fields with
    | ⟨none, none, _⟩ => do return { fields with held? := some (← value.toJson budget) }
    | ⟨some name, none, none⟩ => do return { fields with kind? := some (← content name value) }
    | _ => .error .mismatched
  | (some _, value) => do
    value.skip
    return fields

/-- The kind that was read. A kind that is made of nothing else needs only its name. -/
def KindFields.finish (fields : KindFields) : Except Fault TyKind := do
  let name ← required fields.name?
  required (fields.kind?.or (plainKind? name))

/-- Reads a property. -/
def TyProperty.readWith (type : Nat → Reading Ty) (budget : Nat) : Reading TyProperty :=
  fun draft => do
    let fields ← draft.record budget ["name", "ty", "optional", "description"]
      (fun budget field value fields => do
        match field with
        | "name" => return { fields with name? := some (← value.text) }
        | "ty" => return { fields with type? := some (← type budget value) }
        | "optional" => return { fields with isOptional := ← value.truth }
        | _ => return { fields with description := ← value.optional Draft.text })
      ({} : PropertyFields)
    return .mk (← required fields.name?) (← required fields.type?) fields.isOptional
      fields.description

/-- Reads the properties of an object type; without any the field may be left out. -/
def TyProperty.readAllWith (type : Nat → Reading Ty) (budget : Nat) : Reading (List TyProperty) :=
  fun draft => draft.record budget ["properties"]
    (fun budget _ value _ => value.list budget (TyProperty.readWith type)) []

/-- Reads what a kind of type with the given name is made of. -/
def TyKind.contentWith (type : Nat → Reading Ty) (budget : Nat) (name : String) :
    Reading TyKind := fun draft => do
  match name with
  | "LiteralString" => return .literalString (← draft.text)
  | "LiteralNumber" => return .literalNumber (← draft.float)
  | "LiteralBoolean" => return .literalBoolean (← draft.truth)
  | "Array" => return .array (← type budget draft)
  | "Tuple" => return .tuple (← draft.list budget type)
  | "Object" => return .object (← TyProperty.readAllWith type budget draft)
  | "Record" => return .record (← type budget draft)
  | "Promise" => return .promise (← type budget draft)
  | "Reference" => return .reference (← draft.text)
  | "Union" => return .union (← draft.list budget type)
  | "Intersection" => return .intersection (← draft.list budget type)
  | "Internal" => return .internal (← draft.text)
  | _ =>
    draft.nothing budget
    required (plainKind? name)

/-- Reads a kind of type, by member names or as the array of its name and what it is made of. -/
def TyKind.readWith (type : Nat → Reading Ty) (budget : Nat) : Reading TyKind
  | .object members ending =>
    match budget with
    | 0 => .error .malformed
    | budget + 1 => do
      let fields ← members.foldlM (KindFields.member budget (TyKind.contentWith type budget)) {}
      closed ending
      fields.finish
  | .array items ending =>
    match budget, items with
    | 0, _ => .error .malformed
    | _ + 1, [] => do
      closed ending
      .error .mismatched
    | _ + 1, [name] => do
      discard (readShapeName kindNames name)
      closed ending
      .error .mismatched
    | budget + 1, name :: value :: more => do
      let name ← readShapeName kindNames name
      let kind ← TyKind.contentWith type budget name value
      match more with
      | [] =>
        closed ending
        return kind
      | _ :: _ => .error .malformed
  | other => .error other.unwanted

/-- Reads a type within a number of steps, each of which spends some of the nesting budget. -/
def Ty.readWithin : Nat → Nat → Reading Ty
  | 0, _ => fun draft => .error draft.tooDeep
  | steps + 1, budget => fun draft => do
    let fields ← draft.record budget ["kind", "alias"]
      (fun budget field value fields => do
        match field with
        | "kind" =>
          return { fields with kind? := some (← TyKind.readWith (readWithin steps) budget value) }
        | _ => return { fields with aliasName := ← value.optional Draft.text })
      ({} : TyFields)
    return .mk (← required fields.kind?) fields.aliasName

/-- Reads a type. -/
def Ty.read (budget : Nat) : Reading Ty := Ty.readWithin budget budget

/-- The declaration read so far. -/
structure DeclarationFields where
  fileName? : Option String := none
  symbol : String := ""

/-- Reads a declaration; its symbol may be left out. -/
def Declaration.read (budget : Nat) : Reading Declaration := fun draft => do
  let fields ← draft.record budget ["file_name", "symbol"]
    (fun _ field value fields => do
      match field with
      | "file_name" => return { fields with fileName? := some (← value.text) }
      | _ => return { fields with symbol := ← value.text })
    ({} : DeclarationFields)
  return ⟨.text (← required fields.fileName?), fields.symbol⟩

/-- Reads a snapshot; each of its maps may be left out. -/
def Snapshot.read (budget : Nat) : Reading Snapshot := fun draft =>
  draft.record budget ["symbols", "values", "definitions"]
    (fun budget field value snapshot => do
      match field with
      | "symbols" =>
        return { snapshot with
          symbols :=
            ← value.keyMap budget fun budget draft => draft.optional (Declaration.read budget) }
      | "values" => return { snapshot with values := ← value.keyMap budget Ty.read }
      | _ => return { snapshot with definitions := ← value.keyMap budget Ty.read })
    {}

/-- The method read so far. -/
structure MethodFields where
  name? : Option String := none
  decorators : List Decorator := []
  returnType? : Option Ty := none

/-- Reads a method; only its name has to be there. -/
def MethodDeclaration.read (budget : Nat) : Reading MethodDeclaration := fun draft => do
  let fields ← draft.record budget ["name", "decorators", "return_type"]
    (fun budget field value fields => do
      match field with
      | "name" => return { fields with name? := some (← value.text) }
      | "decorators" => return { fields with decorators := ← value.list budget Decorator.read }
      | _ => return { fields with returnType? := ← value.optional (Ty.read budget) })
    ({} : MethodFields)
  return ⟨← required fields.name?, fields.decorators, fields.returnType?⟩

/-- The class read so far. -/
structure ClassFields where
  name? : Option String := none
  methods : List MethodDeclaration := []

/-- Reads a class; only its name has to be there. -/
def ClassDeclaration.read (budget : Nat) : Reading ClassDeclaration := fun draft => do
  let fields ← draft.record budget ["name", "methods"]
    (fun budget field value fields => do
      match field with
      | "name" => return { fields with name? := some (← value.text) }
      | _ => return { fields with methods := ← value.list budget MethodDeclaration.read })
    ({} : ClassFields)
  return ⟨← required fields.name?, fields.methods⟩

/-- The source file read so far. -/
structure SourceFields where
  fileName? : Option String := none
  classes : List ClassDeclaration := []

/-- Reads a source file; only its name has to be there. -/
def SourceFile.read (budget : Nat) : Reading SourceFile := fun draft => do
  let fields ← draft.record budget ["file_name", "classes"]
    (fun budget field value fields => do
      match field with
      | "file_name" => return { fields with fileName? := some (← value.text) }
      | _ => return { fields with classes := ← value.list budget ClassDeclaration.read })
    ({} : SourceFields)
  return ⟨.text (← required fields.fileName?), fields.classes⟩

/-- The unit read so far. -/
structure UnitFields where
  source? : Option SourceFile := none
  types : Snapshot := {}

/-- Reads a unit; what was recorded about the file may be left out. -/
def CompilationUnit.read (budget : Nat) : Reading CompilationUnit := fun draft => do
  let fields ← draft.record budget ["source", "types"]
    (fun budget field value fields => do
      match field with
      | "source" => return { fields with source? := some (← SourceFile.read budget value) }
      | _ => return { fields with types := ← Snapshot.read budget value })
    ({} : UnitFields)
  return ⟨← required fields.source?, fields.types⟩

/-- Why a unit cannot be taken from a text. -/
inductive UnitProblem where
  | json (fault : Fault)
  | unknownReference (unknown : UnknownReference)
  deriving DecidableEq, Repr

/-- Reads a text as one document with nothing behind it. -/
def readDocument {α : Type} (read : Nat → Reading α) (text : String) : Except Fault α := do
  let (draft, trailing) := Draft.read text
  let value ← read nestingBudget draft
  closed trailing
  return value

/-- Takes a unit from its text. Every reference in it has to have a definition. -/
def CompilationUnit.ofText (text : String) : Except UnitProblem CompilationUnit := do
  let unit ← (readDocument CompilationUnit.read text).mapError .json
  match unit.types.unknownReference? with
  | none => return unit
  | some unknown => .error (.unknownReference unknown)

end TypedRoutes
