import TypedRoutes.Proofs.Generation.Requests

/-!
# Steps that call helpers

Checks, validators and serializers are put together from calls of helpers and nothing else, by
induction on the type. So what holds of such calls and is kept by putting steps together holds of
them: they only ask for helpers, and not for helpers of other kinds.
-/

namespace TypedRoutes.Scope

open Generate

variable {scope : Scope} {kinds : HelperKind → Prop}
  {holds : {α : Type} → Generate α → Prop}

/-- The property holds of whatever is put together from calls of helpers of some kinds. -/
structure Composed (scope : Scope) (kinds : HelperKind → Prop)
    (holds : {α : Type} → Generate α → Prop) : Prop where
  pure : ∀ {α : Type} (value : α), holds (Pure.pure value)
  bind : ∀ {α β : Type} {step : Generate α} {next : α → Generate β}, holds step →
    (∀ value, holds (next value)) → holds (step >>= next)
  callHelper : ∀ {kind : HelperKind}, kinds kind → ∀ (name : String) (arguments : List Expr),
    holds (scope.callHelper kind name arguments)

mutual

/-- What composes holds of the check of a type. -/
theorem Composed.check (h : Composed scope kinds holds) (hcheck : kinds .check) (type : Ty)
    (depth : Nat) (input : Expr) :
    holds (scope.check type depth input) := by
  cases type with
  | mk kind _ =>
    rw [Scope.check]
    exact h.checkKind hcheck kind depth input

/-- What composes holds of the check of a kind of type, by induction on it. -/
theorem Composed.checkKind (h : Composed scope kinds holds) (hcheck : kinds .check) (kind : TyKind)
    (depth : Nat) (input : Expr) :
    holds (scope.checkKind kind depth input) := by
  cases kind with
  | array element =>
    rw [Scope.checkKind]
    refine h.bind (h.check hcheck element _ _) fun condition => ?_
    split <;> exact h.pure _
  | tuple elements =>
    rw [Scope.checkKind]
    exact h.bind (h.checkElements hcheck elements depth input 0) fun _ => h.pure _
  | object properties =>
    rw [Scope.checkKind]
    exact h.bind (h.checkProperties hcheck properties depth input) fun _ => h.pure _
  | record value =>
    rw [Scope.checkKind]
    refine h.bind (h.check hcheck value _ _) fun condition => ?_
    split <;> exact h.pure _
  | reference name =>
    rw [Scope.checkKind]
    exact h.bind (h.callHelper hcheck name _) fun _ => h.pure _
  | union members =>
    rw [Scope.checkKind]
    exact h.bind (h.checkMembers hcheck members depth input) fun _ => h.pure _
  | intersection members =>
    rw [Scope.checkKind]
    exact h.bind (h.checkMembers hcheck members depth input) fun _ => h.pure _
  | _ =>
    rw [Scope.checkKind]
    exact h.pure _

/-- What composes holds of the checks of tuple elements. -/
theorem Composed.checkElements (h : Composed scope kinds holds) (hcheck : kinds .check)
    (elements : List Ty) (depth : Nat) (input : Expr) (position : Nat) :
    holds (scope.checkElements elements depth input position) := by
  cases elements with
  | nil =>
    rw [Scope.checkElements]
    exact h.pure _
  | cons element rest =>
    rw [Scope.checkElements]
    exact h.bind (h.check hcheck element _ _) fun _ =>
      h.bind (h.checkElements hcheck rest depth input _) fun _ => h.pure _

/-- What composes holds of the checks of properties. -/
theorem Composed.checkProperties (h : Composed scope kinds holds) (hcheck : kinds .check)
    (properties : List TyProperty) (depth : Nat) (input : Expr) :
    holds (scope.checkProperties properties depth input) := by
  cases properties with
  | nil =>
    rw [Scope.checkProperties]
    exact h.pure _
  | cons property rest =>
    obtain ⟨name, type, optional, _⟩ := property
    rw [Scope.checkProperties]
    exact h.bind (h.check hcheck type _ _) fun _ =>
      h.bind (h.checkProperties hcheck rest depth input) fun _ => h.pure _

/-- What composes holds of the checks of the members of a union or an intersection. -/
theorem Composed.checkMembers (h : Composed scope kinds holds) (hcheck : kinds .check)
    (members : List Ty) (depth : Nat) (input : Expr) :
    holds (scope.checkMembers members depth input) := by
  cases members with
  | nil =>
    rw [Scope.checkMembers]
    exact h.pure _
  | cons member rest =>
    rw [Scope.checkMembers]
    exact h.bind (h.check hcheck member _ _) fun _ =>
      h.bind (h.checkMembers hcheck rest depth input) fun _ => h.pure _

end

mutual

/-- What composes holds of the validator of a type, which also checks. -/
theorem Composed.validate (h : Composed scope kinds holds) (hcheck : kinds .check)
    (hvalidate : kinds .validate) (type : Ty) (depth : Nat) (input path : Expr) (expected : String)
    :
    holds (scope.validate type depth input path expected) := by
  cases type with
  | mk kind _ =>
    rw [Scope.validate]
    exact h.validateKind hcheck hvalidate kind depth input path expected

/-- What composes holds of the validator of a kind of type, by induction on it. -/
theorem Composed.validateKind (h : Composed scope kinds holds) (hcheck : kinds .check)
    (hvalidate : kinds .validate) (kind : TyKind) (depth : Nat) (input path : Expr)
    (expected : String) :
    holds (scope.validateKind kind depth input path expected) := by
  cases kind with
  | reference name =>
    rw [Scope.validateKind]
    exact h.bind (h.callHelper hvalidate name _) fun _ => h.pure _
  | array element =>
    rw [Scope.validateKind]
    refine h.bind (h.validate hcheck hvalidate element _ _ _ _) fun item => ?_
    split <;> exact h.pure _
  | tuple elements =>
    rw [Scope.validateKind]
    exact h.bind (h.validateElements hcheck hvalidate elements depth input path 0) fun _ => h.pure _
  | object properties =>
    rw [Scope.validateKind]
    exact h.bind (h.validateProperties hcheck hvalidate properties depth input path) fun _ =>
      h.pure _
  | record value =>
    rw [Scope.validateKind]
    refine h.bind (h.validate hcheck hvalidate value _ _ _ _) fun item => ?_
    split <;> exact h.pure _
  | _ =>
    rw [Scope.validateKind]
    · refine h.bind (h.checkKind hcheck _ depth input) fun condition => ?_
      split <;> exact h.pure _
    all_goals
      intros
      contradiction

/-- What composes holds of the validators of tuple elements. -/
theorem Composed.validateElements (h : Composed scope kinds holds) (hcheck : kinds .check)
    (hvalidate : kinds .validate) (elements : List Ty) (depth : Nat) (input path : Expr)
    (position : Nat) :
    holds (scope.validateElements elements depth input path position) := by
  cases elements with
  | nil =>
    rw [Scope.validateElements]
    exact h.pure _
  | cons element rest =>
    rw [Scope.validateElements]
    exact h.bind (h.validate hcheck hvalidate element _ _ _ _) fun _ =>
      h.bind (h.validateElements hcheck hvalidate rest depth input path _) fun _ => h.pure _

/-- What composes holds of the validators of properties. -/
theorem Composed.validateProperties (h : Composed scope kinds holds) (hcheck : kinds .check)
    (hvalidate : kinds .validate) (properties : List TyProperty) (depth : Nat) (input path : Expr) :
    holds (scope.validateProperties properties depth input path) := by
  cases properties with
  | nil =>
    rw [Scope.validateProperties]
    exact h.pure _
  | cons property rest =>
    obtain ⟨name, type, optional, _⟩ := property
    rw [Scope.validateProperties]
    exact h.bind (h.validate hcheck hvalidate type _ _ _ _) fun _ =>
      h.bind (h.validateProperties hcheck hvalidate rest depth input path) fun _ => h.pure _

end

mutual

/-- What composes holds of the serializer of a type, which also checks. -/
theorem Composed.serialize (h : Composed scope kinds holds) (hcheck : kinds .check)
    (hserialize : kinds .serialize) (type : Ty) (depth : Nat) (input : Expr) :
    holds (scope.serialize type depth input) := by
  cases type with
  | mk kind aliasName =>
    rw [Scope.serialize]
    exact h.serializeKind hcheck hserialize kind aliasName depth input

/-- What composes holds of the serializer of a kind of type, by induction on it. -/
theorem Composed.serializeKind (h : Composed scope kinds holds) (hcheck : kinds .check)
    (hserialize : kinds .serialize) (kind : TyKind) (aliasName : Option String) (depth : Nat)
    (input : Expr) :
    holds (scope.serializeKind kind aliasName depth input) := by
  cases kind with
  | array element =>
    rw [Scope.serializeKind]
    exact h.bind (h.serialize hcheck hserialize element _ _) fun _ => h.pure _
  | tuple elements =>
    rw [Scope.serializeKind]
    exact h.bind (h.serializeElements hcheck hserialize elements depth input 0) fun _ => h.pure _
  | object properties =>
    rw [Scope.serializeKind]
    split
    · exact h.bind (h.serializeEntries hcheck hserialize properties depth input) fun _ => h.pure _
    · exact h.bind (h.serializeProperties hcheck hserialize properties depth input true) fun _ =>
      h.pure _
  | record value =>
    rw [Scope.serializeKind]
    exact h.bind (h.serialize hcheck hserialize value _ _) fun _ => h.pure _
  | reference name =>
    rw [Scope.serializeKind]
    exact h.bind (h.callHelper hserialize name _) fun _ => h.pure _
  | union members =>
    rw [Scope.serializeKind]
    exact h.bind (h.serializeMembers hcheck hserialize members false depth input) fun _ => h.pure _
  | _ =>
    rw [Scope.serializeKind]
    exact h.pure _

/-- What composes holds of the serializers of tuple elements. -/
theorem Composed.serializeElements (h : Composed scope kinds holds) (hcheck : kinds .check)
    (hserialize : kinds .serialize) (elements : List Ty) (depth : Nat) (input : Expr)
    (position : Nat) :
    holds (scope.serializeElements elements depth input position) := by
  cases elements with
  | nil =>
    rw [Scope.serializeElements]
    exact h.pure _
  | cons element rest =>
    rw [Scope.serializeElements]
    exact h.bind (h.serialize hcheck hserialize element _ _) fun _ =>
      h.bind (h.serializeElements hcheck hserialize rest depth input _) fun _ => h.pure _

/-- What composes holds of the serializers of properties that are all there. -/
theorem Composed.serializeProperties (h : Composed scope kinds holds) (hcheck : kinds .check)
    (hserialize : kinds .serialize) (properties : List TyProperty) (depth : Nat) (input : Expr)
    (first : Bool) :
    holds (scope.serializeProperties properties depth input first) := by
  cases properties with
  | nil =>
    rw [Scope.serializeProperties]
    exact h.pure _
  | cons property rest =>
    obtain ⟨name, type, optional, _⟩ := property
    rw [Scope.serializeProperties]
    exact h.bind (h.serialize hcheck hserialize type _ _) fun _ =>
      h.bind (h.serializeProperties hcheck hserialize rest depth input _) fun _ => h.pure _

/-- What composes holds of the serializers of properties that may be absent. -/
theorem Composed.serializeEntries (h : Composed scope kinds holds) (hcheck : kinds .check)
    (hserialize : kinds .serialize) (properties : List TyProperty) (depth : Nat) (input : Expr) :
    holds (scope.serializeEntries properties depth input) := by
  cases properties with
  | nil =>
    rw [Scope.serializeEntries]
    exact h.pure _
  | cons property rest =>
    obtain ⟨name, type, optional, _⟩ := property
    rw [Scope.serializeEntries]
    exact h.bind (h.serializeDefined hcheck hserialize type _ _) fun _ =>
      h.bind (h.serializeEntries hcheck hserialize rest depth input) fun _ => h.pure _

/-- What composes holds of the serializer of a value that is not undefined. -/
theorem Composed.serializeDefined (h : Composed scope kinds holds) (hcheck : kinds .check)
    (hserialize : kinds .serialize) (type : Ty) (depth : Nat) (input : Expr) :
    holds (scope.serializeDefined type depth input) := by
  obtain ⟨kind, aliasName⟩ := type
  cases kind with
  | union members =>
    rw [Scope.serializeDefined]
    split
    · exact h.pure _
    · exact h.serializeOnly hcheck hserialize members depth input
    · exact h.bind (h.serializeMembers hcheck hserialize members true depth input) fun _ =>
        h.pure _
  | _ =>
    rw [Scope.serializeDefined]
    · exact h.serializeKind hcheck hserialize _ aliasName depth input
    · intros
      contradiction

/-- What composes holds of the serializer of the only member that is left. -/
theorem Composed.serializeOnly (h : Composed scope kinds holds) (hcheck : kinds .check)
    (hserialize : kinds .serialize) (members : List Ty) (depth : Nat) (input : Expr) :
    holds (scope.serializeOnly members depth input) := by
  cases members with
  | nil =>
    rw [Scope.serializeOnly]
    exact h.pure _
  | cons member rest =>
    rw [Scope.serializeOnly]
    split
    · exact h.serializeOnly hcheck hserialize rest depth input
    · exact h.serialize hcheck hserialize member depth input

/-- What composes holds of the branches of a union. -/
theorem Composed.serializeMembers (h : Composed scope kinds holds) (hcheck : kinds .check)
    (hserialize : kinds .serialize) (members : List Ty) (defined : Bool) (depth : Nat)
    (input : Expr) :
    holds (scope.serializeMembers members defined depth input) := by
  cases members with
  | nil =>
    rw [Scope.serializeMembers]
    exact h.pure _
  | cons member rest =>
    rw [Scope.serializeMembers]
    split
    · exact h.serializeMembers hcheck hserialize rest defined depth input
    · exact h.bind (h.check hcheck member _ _) fun _ =>
        h.bind (h.serialize hcheck hserialize member _ _) fun _ =>
          h.bind (h.serializeMembers hcheck hserialize rest defined depth input) fun _ => h.pure _

end

/-- The closure of a helper is put together in the same way. -/
theorem Composed.helperClosure (h : Composed scope kinds holds) (hcheck : kinds .check)
    (depth : Nat) (helper : Helper) (hkind : kinds helper.kind) (definition : Ty) :
    holds (scope.helperClosure depth helper definition) := by
  obtain ⟨kind, index, typeName⟩ := helper
  rw [Scope.helperClosure]
  cases kind with
  | check => exact h.bind (h.check hcheck definition depth _) fun _ => h.pure _
  | serialize => exact h.bind (h.serialize hcheck hkind definition depth _) fun _ => h.pure _
  | validate => exact h.bind (h.validate hcheck hkind definition depth _ _ _) fun _ => h.pure _

/-! ## Steps that only ask -/

section

variable (scope)

/-- That a computation only asks for helpers of defined names composes. -/
theorem asking : Composed scope (fun _ => True) (Asking scope.definitions) where
  pure := .pure
  bind := .bind
  callHelper _ name arguments := .callHelper scope _ name arguments

/-- A check only asks for helpers of defined names. -/
theorem check_asking (type : Ty) (depth : Nat) (input : Expr) :
    Asking scope.definitions (scope.check type depth input) :=
  (asking scope).check trivial type depth input

theorem checkElements_asking (elements : List Ty) (depth : Nat) (input : Expr) (position : Nat) :
    Asking scope.definitions (scope.checkElements elements depth input position) :=
  (asking scope).checkElements trivial elements depth input position

theorem checkProperties_asking (properties : List TyProperty) (depth : Nat) (input : Expr) :
    Asking scope.definitions (scope.checkProperties properties depth input) :=
  (asking scope).checkProperties trivial properties depth input

theorem checkMembers_asking (members : List Ty) (depth : Nat) (input : Expr) :
    Asking scope.definitions (scope.checkMembers members depth input) :=
  (asking scope).checkMembers trivial members depth input

/-- A validator only asks for helpers of defined names. -/
theorem validate_asking (type : Ty) (depth : Nat) (input path : Expr) (expected : String) :
    Asking scope.definitions (scope.validate type depth input path expected) :=
  (asking scope).validate trivial trivial type depth input path expected

theorem validateElements_asking (elements : List Ty) (depth : Nat) (input path : Expr)
    (position : Nat) :
    Asking scope.definitions (scope.validateElements elements depth input path position) :=
  (asking scope).validateElements trivial trivial elements depth input path position

theorem validateProperties_asking (properties : List TyProperty) (depth : Nat) (input path : Expr) :
    Asking scope.definitions (scope.validateProperties properties depth input path) :=
  (asking scope).validateProperties trivial trivial properties depth input path

/-- A serializer only asks for helpers of defined names. -/
theorem serialize_asking (type : Ty) (depth : Nat) (input : Expr) :
    Asking scope.definitions (scope.serialize type depth input) :=
  (asking scope).serialize trivial trivial type depth input

theorem serializeElements_asking (elements : List Ty) (depth : Nat) (input : Expr) (position : Nat)
    :
    Asking scope.definitions (scope.serializeElements elements depth input position) :=
  (asking scope).serializeElements trivial trivial elements depth input position

theorem serializeProperties_asking (properties : List TyProperty) (depth : Nat) (input : Expr)
    (first : Bool) :
    Asking scope.definitions (scope.serializeProperties properties depth input first) :=
  (asking scope).serializeProperties trivial trivial properties depth input first

theorem serializeEntries_asking (properties : List TyProperty) (depth : Nat) (input : Expr) :
    Asking scope.definitions (scope.serializeEntries properties depth input) :=
  (asking scope).serializeEntries trivial trivial properties depth input

theorem serializeMembers_asking (members : List Ty) (defined : Bool) (depth : Nat) (input : Expr) :
    Asking scope.definitions (scope.serializeMembers members defined depth input) :=
  (asking scope).serializeMembers trivial trivial members defined depth input

/-- The closure of a helper only asks for helpers of defined names. -/
theorem helperClosure_asking (depth : Nat) (helper : Helper) (definition : Ty) :
    Asking scope.definitions (scope.helperClosure depth helper definition) :=
  (asking scope).helperClosure trivial depth helper trivial definition

end

end TypedRoutes.Scope
