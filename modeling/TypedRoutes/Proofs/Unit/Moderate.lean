import TypedRoutes.Proofs.Json.Readings
import TypedRoutes.Proofs.Unit.Limits

/-!
# Moderate units

A unit is moderate if its numbers have a property and its tuples are not too long: then so is what
its decorators receive. Of a unit that was read from a text it is known that its file names are
texts and that nothing in it refers to an unknown type.
-/

namespace TypedRoutes

open Json

variable {P : Float → Prop} {limit : Nat}

/-! ## Types -/

mutual

/-- Whether the numbers of a type have the property and its tuples are no longer than the limit. -/
def Ty.Moderate (P : Float → Prop) (limit : Nat) : Ty → Prop
  | .mk kind _ => kind.Moderate P limit

/-- Whether the numbers of a kind have the property and its tuples are no longer than the limit. -/
def TyKind.Moderate (P : Float → Prop) (limit : Nat) : TyKind → Prop
  | .literalNumber value => P value
  | .array inner | .record inner | .promise inner => inner.Moderate P limit
  | .tuple types => types.length ≤ limit ∧ Ty.AllModerate P limit types
  | .union types | .intersection types => Ty.AllModerate P limit types
  | .object properties => TyProperty.AllModerate P limit properties
  | _ => True

/-- Whether several types are moderate. -/
def Ty.AllModerate (P : Float → Prop) (limit : Nat) : List Ty → Prop
  | [] => True
  | type :: rest => type.Moderate P limit ∧ Ty.AllModerate P limit rest

/-- Whether the types of several properties are moderate. -/
def TyProperty.AllModerate (P : Float → Prop) (limit : Nat) : List TyProperty → Prop
  | [] => True
  | .mk _ type _ _ :: rest => type.Moderate P limit ∧ TyProperty.AllModerate P limit rest

end

theorem Ty.allModerate_iff {types : List Ty} :
    Ty.AllModerate P limit types ↔ ∀ type ∈ types, type.Moderate P limit := by
  induction types with
  | nil => simp [Ty.AllModerate]
  | cons type rest ih => simp [Ty.AllModerate, ih]

theorem TyProperty.allModerate_iff {properties : List TyProperty} :
    TyProperty.AllModerate P limit properties ↔
      ∀ property ∈ properties, property.type.Moderate P limit := by
  induction properties with
  | nil => simp [TyProperty.AllModerate]
  | cons property rest ih =>
    cases property
    simp [TyProperty.AllModerate, TyProperty.type, ih]

mutual

/-- The numbers of a moderate type have the property. -/
theorem Ty.Moderate.every : ∀ {type : Ty}, type.Moderate P limit → Every P type.numbers
  | .mk _ _, h => TyKind.Moderate.every h

theorem TyKind.Moderate.every : ∀ {kind : TyKind}, kind.Moderate P limit →
    Every P kind.numbers
  | .string, _ | .number, _ | .boolean, _ | .bigInt, _ | .null, _ | .undefined, _ | .void, _
  | .any, _ | .unknown, _ | .never, _ | .date, _ | .function, _ | .literalString _, _
  | .literalBoolean _, _ | .reference _, _ | .internal _, _ => every_nil
  | .literalNumber _, h => every_singleton.mpr h
  | .array _, h | .record _, h | .promise _, h => Ty.Moderate.every h
  | .tuple _, h => Ty.AllModerate.every h.2
  | .union _, h | .intersection _, h => Ty.AllModerate.every h
  | .object _, h => TyProperty.AllModerate.every h

theorem Ty.AllModerate.every : ∀ {types : List Ty}, Ty.AllModerate P limit types →
    Every P (Ty.numbersOf types)
  | [], _ => every_nil
  | _ :: _, h => every_append.mpr ⟨Ty.Moderate.every h.1, Ty.AllModerate.every h.2⟩

theorem TyProperty.AllModerate.every : ∀ {properties : List TyProperty},
    TyProperty.AllModerate P limit properties → Every P (TyProperty.numbersOf properties)
  | [], _ => every_nil
  | .mk _ _ _ _ :: _, h =>
    every_append.mpr ⟨Ty.Moderate.every h.1, TyProperty.AllModerate.every h.2⟩

end

/-! ## Units -/

/-- A method whose numbers have the property, and the tuples of whose return type are not too
long. -/
structure MethodDeclaration.Moderate (P : Float → Prop) (limit : Nat) (method : MethodDeclaration) :
    Prop where
  decorators : ∀ decorator ∈ method.decorators, Every P decorator.expression.numbers
  returnType : ∀ type ∈ method.returnType?, type.Moderate P limit

/-- A source file whose methods are moderate. -/
def SourceFile.Moderate (P : Float → Prop) (limit : Nat) (file : SourceFile) : Prop :=
  ∀ declaration ∈ file.classes, ∀ method ∈ declaration.methods, method.Moderate P limit

/-- Recorded types that are moderate. -/
structure Snapshot.Moderate (P : Float → Prop) (limit : Nat) (snapshot : Snapshot) : Prop where
  values : ∀ entry ∈ snapshot.values.entries, entry.2.Moderate P limit
  definitions : ∀ entry ∈ snapshot.definitions.entries, entry.2.Moderate P limit

/-- A unit with moderate types all over, the numbers in whose decorators have the property. -/
structure CompilationUnit.Moderate (P : Float → Prop) (limit : Nat) (unit : CompilationUnit) :
    Prop where
  source : unit.source.Moderate P limit
  types : unit.types.Moderate P limit

theorem MethodDeclaration.Moderate.every {method : MethodDeclaration}
    (h : method.Moderate P limit) : Every P method.numbers := by
  rw [MethodDeclaration.numbers, every_append, every_flatMap]
  refine ⟨h.decorators, ?_⟩
  cases hreturn : method.returnType? with
  | none => exact every_nil
  | some type => exact (h.returnType type hreturn).every

/-- The numbers of a moderate unit have the property. -/
theorem CompilationUnit.Moderate.every {unit : CompilationUnit} (h : unit.Moderate P limit) :
    Every P unit.numbers := by
  rw [CompilationUnit.numbers, SourceFile.numbers]
  simp only [every_append, every_flatMap]
  exact ⟨⟨fun declaration hdeclaration method hmethod =>
      (h.source declaration hdeclaration method hmethod).every,
    fun entry hentry => (h.types.values entry hentry).every⟩,
    fun entry hentry => (h.types.definitions entry hentry).every⟩

/-! ## Units that were read -/

/-- The file name of a declaration that was read is a text. -/
theorem Declaration.named_read (budget : Nat) (document : Draft) :
    Json.Ensures (fun declaration => declaration.fileName.text?.isSome = true)
      (Declaration.read budget document) :=
  Ensures.trivial.bind fun _ _ => Ensures.trivial.bind fun _ _ => .ok rfl

/-- So are those of the declarations in a snapshot. -/
theorem Snapshot.named_read (budget : Nat) (document : Draft) :
    Json.Ensures (fun snapshot => ∀ entry ∈ snapshot.symbols.entries, ∀ declaration ∈ entry.2,
      declaration.fileName.text?.isSome = true) (Snapshot.read budget document) := by
  refine .record _ (fun _ hmem => by cases hmem) fun budget field value snapshot hsnapshot => ?_
  split
  · exact (Ensures.keyMap (fun budget => .optional (Declaration.named_read budget)) budget
      value).bind
      fun _ hsymbols => .ok hsymbols
  · exact Ensures.trivial.bind fun _ _ => .ok hsnapshot
  · exact Ensures.trivial.bind fun _ _ => .ok hsnapshot

/-- The name of a source file that was read is a text. -/
theorem SourceFile.named_read (budget : Nat) (document : Draft) :
    Json.Ensures (fun file => file.fileName.text?.isSome = true)
      (SourceFile.read budget document) :=
  Ensures.trivial.bind fun _ _ => Ensures.trivial.bind fun _ _ => .ok rfl

/-- All file names in a unit that was read are texts. -/
theorem CompilationUnit.named_read (budget : Nat) (document : Draft) :
    Json.Ensures CompilationUnit.Named (CompilationUnit.read budget document) := by
  refine .bind (.record (fun fields : UnitFields =>
      (∀ source ∈ fields.source?, source.fileName.text?.isSome = true) ∧
        ∀ entry ∈ fields.types.symbols.entries, ∀ declaration ∈ entry.2,
          declaration.fileName.text?.isSome = true)
    ⟨fun _ hmem => (by cases hmem), fun _ hmem => (by cases hmem)⟩
    fun budget field value fields hfields => ?_) fun fields hfields =>
      (Ensures.required hfields.1).bind fun _ hsource =>
        .ok (CompilationUnit.named_iff.mpr ⟨hsource, hfields.2⟩)
  split
  · refine (SourceFile.named_read budget value).bind fun source hsource => .ok ⟨?_, hfields.2⟩
    rintro _ ⟨⟩
    exact hsource
  · exact (Snapshot.named_read budget value).bind fun _ htypes => .ok ⟨hfields.1, htypes⟩

/-- A unit that is read from a text has names that are texts, and no unknown references. -/
theorem CompilationUnit.of_ofText {text : String} {unit : CompilationUnit}
    (h : CompilationUnit.ofText text = .ok unit) :
    unit.Named ∧ unit.types.unknownReference? = none := by
  have hnamed : Json.Ensures CompilationUnit.Named (readDocument CompilationUnit.read text) :=
    (CompilationUnit.named_read _ _).bind fun _ hunit => Ensures.trivial.bind fun _ _ => .ok hunit
  rw [CompilationUnit.ofText] at h
  generalize readDocument CompilationUnit.read text = document at h hnamed
  cases document with
  | error fault => cases h
  | ok found =>
    simp only [Except.mapError, bind, Except.bind] at h
    split at h
    · rename_i hnone
      obtain rfl := Except.ok.inj h
      exact ⟨hnamed found rfl, hnone⟩
    · cases h

end TypedRoutes
