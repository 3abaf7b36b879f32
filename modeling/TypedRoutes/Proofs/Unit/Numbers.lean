import TypedRoutes.Proofs.Json.Printing
import TypedRoutes.Unit.Encode

/-!
# Numbers of a unit

The floats that stand in a unit: in the decorators of its methods, and in the types that are written
or recorded for it. If all of them are kept then the JSON form of the unit has an exact text; the
offsets of spans always do, being small.
-/

namespace TypedRoutes

open Json

/-! ## Numbers of syntax -/

mutual

/-- The numbers in an expression, in the order of its text. -/
def Expr.numbers : Expr → List Float
  | .number value => [value]
  | .property target _ => target.numbers
  | .element target index => target.numbers ++ index.numbers
  | .call callee _ arguments _ => callee.numbers ++ Expr.numbersOf arguments
  | .object entries => Entry.numbersOf entries
  | .array elements => Expr.numbersOf elements
  | .arrow _ body => body.numbers
  | .unary _ operand => operand.numbers
  | .binary _ left right => left.numbers ++ right.numbers
  | .conditional condition whenTrue whenFalse =>
    condition.numbers ++ whenTrue.numbers ++ whenFalse.numbers
  | _ => []

/-- The numbers in several expressions. -/
def Expr.numbersOf : List Expr → List Float
  | [] => []
  | expr :: rest => expr.numbers ++ Expr.numbersOf rest

/-- The numbers in the values of several entries. -/
def Entry.numbersOf : List Entry → List Float
  | [] => []
  | .mk _ value :: rest => value.numbers ++ Entry.numbersOf rest

/-- The numbers in the body of a closure. -/
def Body.numbers : Body → List Float
  | .concise value => value.numbers
  | .block statements => Stmt.numbersOf statements

/-- The numbers in several statements. -/
def Stmt.numbersOf : List Stmt → List Float
  | [] => []
  | stmt :: rest => stmt.numbers ++ Stmt.numbersOf rest

/-- The numbers in a statement. -/
def Stmt.numbers : Stmt → List Float
  | .const _ value | .returns value | .throws value | .expression value => value.numbers
  | .branch condition consequent alternative =>
    condition.numbers ++ Stmt.numbersOf consequent ++ Stmt.numbersOf alternative

end

/-- A member that is left out when empty holds what its items hold. -/
theorem exactMembers_memberUnlessEmpty {key : String} {items : List Json} :
    ExactMembers (memberUnlessEmpty key items) ↔ ExactItems items := by
  cases items <;> simp [memberUnlessEmpty, ExactMembers, ExactItems, Exact]

theorem exactMembers_append {members more : List (String × Json)} :
    ExactMembers (members ++ more) ↔ ExactMembers members ∧ ExactMembers more := by
  simp only [exactMembers_iff, List.forall_mem_append]

/-- The offsets of a span are natural numbers and always exact. -/
theorem Span.exact_toJson (span : Span) : span.toJson.Exact := by
  have hsmall (n : UInt32) : n.toNat < naturalBound :=
    Nat.lt_trans n.toNat_lt (by decide)
  simp [Span.toJson, Exact, ExactMembers, hsmall]

mutual

/-- There are no numbers in a type expression. -/
theorem TypeExpr.exact_toJson : ∀ type : TypeExpr, type.toJson.Exact
  | .keyword _ | .literal _ => by simp [TypeExpr.toJson, taggedJson, Exact, ExactMembers]
  | .reference _ arguments => by
    simp [TypeExpr.toJson, taggedJson, Exact, ExactMembers, exactMembers_memberUnlessEmpty,
      TypeExpr.exact_toJsons arguments]
  | .array element => by
    simp [TypeExpr.toJson, taggedJson, Exact, ExactMembers, element.exact_toJson]
  | .tuple types | .union types | .intersection types => by
    simp [TypeExpr.toJson, taggedJson, Exact, ExactMembers, TypeExpr.exact_toJsons types]
  | .object members => by
    simp [TypeExpr.toJson, taggedJson, Exact, ExactMembers, TypeMember.exact_toJsons members]

/-- Type expressions hold no numbers. -/
theorem TypeExpr.exact_toJsons : ∀ types : List TypeExpr, ExactItems (TypeExpr.toJsons types)
  | [] => trivial
  | type :: rest => ⟨type.exact_toJson, TypeExpr.exact_toJsons rest⟩

/-- Members of type expressions hold no numbers. -/
theorem TypeMember.exact_toJsons :
    ∀ members : List TypeMember, ExactItems (TypeMember.toJsons members)
  | [] => trivial
  | .mk _ _ type :: rest => by
    simp [TypeMember.toJsons, ExactItems, Exact, ExactMembers, type.exact_toJson,
      TypeMember.exact_toJsons rest]

end

/-! ## A property of all numbers -/

/-- Whether all of some numbers have a property. -/
def Every (P : Float → Prop) (numbers : List Float) : Prop := ∀ x ∈ numbers, P x

section Every

variable {P : Float → Prop}

theorem every_nil : Every P [] := fun _ hmem => absurd hmem List.not_mem_nil

/-- Every number of two lists. -/
theorem every_append {xs ys : List Float} : Every P (xs ++ ys) ↔ Every P xs ∧ Every P ys :=
  List.forall_mem_append

theorem every_singleton {x : Float} : Every P [x] ↔ P x := by simp [Every]

/-- The numbers of a list of parts have a property if those of each part have. -/
theorem every_flatMap {α : Type} {numbers : α → List Float} {items : List α} :
    Every P (items.flatMap numbers) ↔ ∀ item ∈ items, Every P (numbers item) := by
  simp only [Every, List.mem_flatMap]
  exact ⟨fun h item hitem x hx => h x ⟨item, hitem, hx⟩,
    fun h x ⟨item, hitem, hx⟩ => h item hitem x hx⟩

/-- The numbers of expressions are those of each. -/
theorem every_numbersOf {exprs : List Expr} :
    Every P (Expr.numbersOf exprs) ↔ ∀ expr ∈ exprs, Every P expr.numbers := by
  induction exprs with
  | nil => simp [Expr.numbersOf, Every]
  | cons expr rest ih => simp [Expr.numbersOf, every_append, ih]

/-- The numbers of entries are those of each value. -/
theorem every_entries {entries : List Entry} :
    Every P (Entry.numbersOf entries) ↔ ∀ entry ∈ entries, Every P entry.value.numbers := by
  induction entries with
  | nil => simp [Entry.numbersOf, Every]
  | cons entry rest ih =>
    cases entry
    simp [Entry.numbersOf, Entry.value, every_append, ih]

/-- The numbers of statements are those of each. -/
theorem every_statements {statements : List Stmt} :
    Every P (Stmt.numbersOf statements) ↔ ∀ stmt ∈ statements, Every P stmt.numbers := by
  induction statements with
  | nil => simp [Stmt.numbersOf, Every]
  | cons stmt rest ih => simp [Stmt.numbersOf, every_append, ih]

end Every

/-! ## Exact syntax -/

mutual

/-- The JSON form of an expression is read back exactly if its numbers are kept. -/
theorem Expr.exact_toJson : ∀ {expr : Expr}, Every Kept expr.numbers → expr.toJson.Exact
  | .identifier _, _ | .string _, _ | .boolean _, _ | .null, _ => by
    simp [Expr.toJson, taggedJson, Exact, ExactMembers]
  | .number _, h => by
    simpa [Expr.toJson, taggedJson, Exact, ExactMembers] using every_singleton.mp h
  | .property target _, h => by
    rw [Expr.numbers] at h
    simp [Expr.toJson, taggedJson, Exact, ExactMembers, Expr.exact_toJson h]
  | .element target index, h => by
    rw [Expr.numbers, every_append] at h
    simp [Expr.toJson, taggedJson, Exact, ExactMembers, Expr.exact_toJson h.1,
      Expr.exact_toJson h.2]
  | .call callee typeArguments arguments span, h => by
    rw [Expr.numbers, every_append] at h
    simp [Expr.toJson, taggedJson, Exact, ExactMembers, exactMembers_append,
      exactMembers_memberUnlessEmpty, TypeExpr.exact_toJsons, Span.exact_toJson,
      Expr.exact_toJson h.1, Expr.exact_toJsons h.2]
  | .object entries, h => by
    rw [Expr.numbers] at h
    simp [Expr.toJson, taggedJson, Exact, ExactMembers, Entry.exact_toJsons h]
  | .array elements, h => by
    rw [Expr.numbers] at h
    simp [Expr.toJson, taggedJson, Exact, ExactMembers, Expr.exact_toJsons h]
  | .arrow params body, h => by
    rw [Expr.numbers] at h
    simp [Expr.toJson, taggedJson, Exact, ExactMembers, exactItems_iff, Body.exact_toJson h]
  | .unary _ operand, h => by
    rw [Expr.numbers] at h
    simp [Expr.toJson, taggedJson, Exact, ExactMembers, Expr.exact_toJson h]
  | .binary _ left right, h => by
    rw [Expr.numbers, every_append] at h
    simp [Expr.toJson, taggedJson, Exact, ExactMembers, Expr.exact_toJson h.1,
      Expr.exact_toJson h.2]
  | .conditional condition whenTrue whenFalse, h => by
    rw [Expr.numbers, every_append, every_append] at h
    simp [Expr.toJson, taggedJson, Exact, ExactMembers, Expr.exact_toJson h.1.1,
      Expr.exact_toJson h.1.2, Expr.exact_toJson h.2]

/-- The same for several expressions. -/
theorem Expr.exact_toJsons : ∀ {exprs : List Expr}, Every Kept (Expr.numbersOf exprs) →
    ExactItems (Expr.toJsons exprs)
  | [], _ => trivial
  | _ :: _, h => by
    rw [Expr.numbersOf, every_append] at h
    exact ⟨Expr.exact_toJson h.1, Expr.exact_toJsons h.2⟩

/-- The same for the entries of an object. -/
theorem Entry.exact_toJsons : ∀ {entries : List Entry}, Every Kept (Entry.numbersOf entries) →
    ExactItems (Entry.toJsons entries)
  | [], _ => trivial
  | .mk _ _ :: _, h => by
    rw [Entry.numbersOf, every_append] at h
    simp [Entry.toJsons, ExactItems, Exact, ExactMembers, Expr.exact_toJson h.1,
      Entry.exact_toJsons h.2]

/-- The same for the body of a closure. -/
theorem Body.exact_toJson : ∀ {body : Body}, Every Kept body.numbers → body.toJson.Exact
  | .concise _, h => by
    rw [Body.numbers] at h
    simp [Body.toJson, Exact, ExactMembers, Expr.exact_toJson h]
  | .block _, h => by
    rw [Body.numbers] at h
    simp [Body.toJson, Exact, ExactMembers, Stmt.exact_toJsons h]

/-- The same for several statements. -/
theorem Stmt.exact_toJsons : ∀ {statements : List Stmt}, Every Kept (Stmt.numbersOf statements) →
    ExactItems (Stmt.toJsons statements)
  | [], _ => trivial
  | _ :: _, h => by
    rw [Stmt.numbersOf, every_append] at h
    exact ⟨Stmt.exact_toJson h.1, Stmt.exact_toJsons h.2⟩

/-- The same for a statement. -/
theorem Stmt.exact_toJson : ∀ {statement : Stmt}, Every Kept statement.numbers →
    statement.toJson.Exact
  | .const _ _, h | .returns _, h | .throws _, h | .expression _, h => by
    rw [Stmt.numbers] at h
    simp [Stmt.toJson, taggedJson, Exact, ExactMembers, Expr.exact_toJson h]
  | .branch _ _ _, h => by
    rw [Stmt.numbers, every_append, every_append] at h
    simp [Stmt.toJson, taggedJson, Exact, ExactMembers, exactMembers_memberUnlessEmpty,
      Expr.exact_toJson h.1.1, Stmt.exact_toJsons h.1.2, Stmt.exact_toJsons h.2]

end

/-! ## Numbers of types -/

mutual

/-- The numbers in a type: those of its literal types. -/
def Ty.numbers : Ty → List Float
  | .mk kind _ => kind.numbers

/-- The numbers in a kind of type. -/
def TyKind.numbers : TyKind → List Float
  | .literalNumber value => [value]
  | .array inner | .record inner | .promise inner => inner.numbers
  | .tuple types | .union types | .intersection types => Ty.numbersOf types
  | .object properties => TyProperty.numbersOf properties
  | _ => []

/-- The numbers in several types. -/
def Ty.numbersOf : List Ty → List Float
  | [] => []
  | type :: rest => type.numbers ++ Ty.numbersOf rest

/-- The numbers in the types of several properties. -/
def TyProperty.numbersOf : List TyProperty → List Float
  | [] => []
  | .mk _ type _ _ :: rest => type.numbers ++ TyProperty.numbersOf rest

end

/-- A text that may be missing holds no numbers. -/
theorem exactMembers_memberIfPresent_string {key : String} {text? : Option String} :
    ExactMembers (memberIfPresent key (text?.map .string)) := by
  cases text? <;> simp [memberIfPresent, ExactMembers, Exact]

mutual

/-- The JSON form of a type is read back exactly if its literals are kept. -/
theorem Ty.exact_toJson : ∀ {type : Ty}, Every Kept type.numbers → type.toJson.Exact
  | .mk kind aliasName, h => by
    rw [Ty.numbers] at h
    simp [Ty.toJson, Exact, ExactMembers, TyKind.exact_toJson h,
      exactMembers_memberIfPresent_string]

/-- The same for a kind of type. -/
theorem TyKind.exact_toJson : ∀ {kind : TyKind}, Every Kept kind.numbers → kind.toJson.Exact
  | .string, _ | .number, _ | .boolean, _ | .bigInt, _ | .null, _ | .undefined, _ | .void, _
  | .any, _ | .unknown, _ | .never, _ | .date, _ | .function, _ | .literalString _, _
  | .literalBoolean _, _ | .reference _, _ | .internal _, _ => by
    simp [TyKind.toJson, Exact, ExactMembers]
  | .literalNumber _, h => by
    simpa [TyKind.toJson, Exact, ExactMembers] using every_singleton.mp h
  | .array _, h | .record _, h | .promise _, h => by
    rw [TyKind.numbers] at h
    simp [TyKind.toJson, Exact, ExactMembers, Ty.exact_toJson h]
  | .tuple _, h | .union _, h | .intersection _, h => by
    rw [TyKind.numbers] at h
    simp [TyKind.toJson, Exact, ExactMembers, Ty.exact_toJsons h]
  | .object _, h => by
    rw [TyKind.numbers] at h
    simp [TyKind.toJson, Exact, ExactMembers, TyProperty.exact_toJsons h]

/-- The same for several types. -/
theorem Ty.exact_toJsons : ∀ {types : List Ty}, Every Kept (Ty.numbersOf types) →
    ExactItems (Ty.toJsons types)
  | [], _ => trivial
  | _ :: _, h => by
    rw [Ty.numbersOf, every_append] at h
    exact ⟨Ty.exact_toJson h.1, Ty.exact_toJsons h.2⟩

/-- The same for properties, whose descriptions are texts. -/
theorem TyProperty.exact_toJsons : ∀ {properties : List TyProperty},
    Every Kept (TyProperty.numbersOf properties) → ExactItems (TyProperty.toJsons properties)
  | [], _ => trivial
  | .mk _ _ _ _ :: _, h => by
    rw [TyProperty.numbersOf, every_append] at h
    simp [TyProperty.toJsons, TyProperty.toJson, ExactItems, Exact, ExactMembers,
      Ty.exact_toJson h.1, TyProperty.exact_toJsons h.2, exactMembers_memberIfPresent_string]

end

/-! ## Numbers of units -/

/-- The numbers in a method: in its decorators and in its return type. -/
def MethodDeclaration.numbers (method : MethodDeclaration) : List Float :=
  method.decorators.flatMap (fun decorator => decorator.expression.numbers) ++
    method.returnType?.elim [] Ty.numbers

/-- The numbers in a source file. -/
def SourceFile.numbers (file : SourceFile) : List Float :=
  file.classes.flatMap fun declaration => declaration.methods.flatMap MethodDeclaration.numbers

/-- The numbers in a unit: in its source file, and in the types recorded about it. -/
def CompilationUnit.numbers (unit : CompilationUnit) : List Float :=
  unit.source.numbers ++ unit.types.values.entries.flatMap (fun entry => entry.2.numbers) ++
    unit.types.definitions.entries.flatMap (fun entry => entry.2.numbers)

/-- The JSON form of a method is read back exactly if its numbers are kept. -/
theorem MethodDeclaration.exact_toJson {method : MethodDeclaration}
    (h : Every Kept method.numbers) : method.toJson.Exact := by
  rw [MethodDeclaration.numbers, every_append, every_flatMap] at h
  obtain ⟨hdecorators, hreturn⟩ := h
  have hdecoratorsExact : ExactItems (method.decorators.map Decorator.toJson) := by
    rw [exactItems_iff, List.forall_mem_map]
    intro decorator hmem
    simp [Decorator.toJson, Exact, ExactMembers, Expr.exact_toJson (hdecorators decorator hmem)]
  have hreturnExact : ExactMembers
      (memberIfPresent "return_type" (method.returnType?.map Ty.toJson)) := by
    cases hcase : method.returnType? with
    | none => trivial
    | some type =>
      rw [hcase] at hreturn
      exact ⟨Ty.exact_toJson hreturn, trivial⟩
  simp [MethodDeclaration.toJson, Exact, ExactMembers, hdecoratorsExact, hreturnExact]

/-- The same for a source file. -/
theorem SourceFile.exact_toJson {file : SourceFile} (h : Every Kept file.numbers) :
    file.toJson.Exact := by
  rw [SourceFile.numbers, every_flatMap] at h
  have hclasses : ExactItems (file.classes.map ClassDeclaration.toJson) := by
    rw [exactItems_iff, List.forall_mem_map]
    intro declaration hmem
    have hmethods : ExactItems (declaration.methods.map MethodDeclaration.toJson) := by
      rw [exactItems_iff, List.forall_mem_map]
      exact fun method hmethod =>
        MethodDeclaration.exact_toJson (every_flatMap.mp (h declaration hmem) method hmethod)
    simp [ClassDeclaration.toJson, Exact, ExactMembers, hmethods]
  simp [SourceFile.toJson, Exact, ExactMembers, hclasses]

/-- A map is read back exactly if its values are. -/
theorem KeyMap.exact_toJson {α : Type} {write : α → Json} {map : KeyMap α}
    (h : ∀ entry ∈ map.entries, (write entry.2).Exact) : (map.toJson write).Exact := by
  rw [KeyMap.toJson, Exact, exactMembers_iff, List.forall_mem_map]
  exact h

/-- Declarations hold no numbers. -/
theorem Declaration.exact_orNull (declaration? : Option Declaration) :
    (orNull Declaration.toJson declaration?).Exact := by
  cases declaration? <;> simp [orNull, Declaration.toJson, Exact, ExactMembers]

/-- The JSON form of a unit has an exact text if the numbers in the unit are kept. -/
theorem CompilationUnit.exact_toJson {unit : CompilationUnit} (h : Every Kept unit.numbers) :
    unit.toJson.Exact := by
  rw [CompilationUnit.numbers, every_append, every_append, every_flatMap,
    every_flatMap] at h
  obtain ⟨⟨hsource, hvalues⟩, hdefinitions⟩ := h
  have hsymbols : (unit.types.symbols.toJson (orNull Declaration.toJson)).Exact :=
    KeyMap.exact_toJson fun entry _ => Declaration.exact_orNull entry.2
  have hvaluesExact : (unit.types.values.toJson Ty.toJson).Exact :=
    KeyMap.exact_toJson fun entry hmem => Ty.exact_toJson (hvalues entry hmem)
  have hdefinitionsExact : (unit.types.definitions.toJson Ty.toJson).Exact :=
    KeyMap.exact_toJson fun entry hmem => Ty.exact_toJson (hdefinitions entry hmem)
  simp [CompilationUnit.toJson, Snapshot.toJson, Exact, ExactMembers,
    SourceFile.exact_toJson hsource, hsymbols, hvaluesExact, hdefinitionsExact]

end TypedRoutes
