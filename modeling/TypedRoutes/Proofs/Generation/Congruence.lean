import TypedRoutes.Proofs.Generation.Steps

/-!
# What generation looks up

Generation for a type looks up the names that the type refers to and no others. Two tables that hold
the same definitions for these names give the same code and the same requests, by induction on the
type.
-/

namespace TypedRoutes

/-- The two tables have the same definition, or both none, for each of the names. -/
def TypeTable.AgreeOn (first second : TypeTable) (names : List String) : Prop :=
  ∀ name ∈ names, first.get? name = second.get? name

namespace TypeTable.AgreeOn

variable {first second : TypeTable} {front rest : List String}

/-- Tables that agree on more names agree on the first of them. -/
theorem left (h : first.AgreeOn second (front ++ rest)) : first.AgreeOn second front :=
  fun name hname => h name (List.mem_append_left rest hname)

/-- Tables that agree on more names agree on the last of them. -/
theorem right (h : first.AgreeOn second (front ++ rest)) : first.AgreeOn second rest :=
  fun name hname => h name (List.mem_append_right front hname)

end TypeTable.AgreeOn

namespace Scope

variable {first second : TypeTable} {factory : Expr}

/-- A call of a helper looks up its own name only. -/
theorem callHelper_congr {name : String} (h : first.get? name = second.get? name)
    (kind : HelperKind) (arguments : List Expr) :
    (Scope.mk factory first).callHelper kind name arguments =
      (Scope.mk factory second).callHelper kind name arguments := by
  rw [callHelper, callHelper, h]

mutual

/-- A check only depends on the definitions of the names in its type. -/
theorem check_congr {type : Ty} (h : first.AgreeOn second type.references) (depth : Nat)
    (input : Expr) :
    (Scope.mk factory first).check type depth input =
      (Scope.mk factory second).check type depth input := by
  cases type with
  | mk kind aliasName =>
    rw [Ty.references] at h
    rw [check, check]
    exact checkKind_congr h depth input

/-- The same for a kind of type, by induction on it. -/
theorem checkKind_congr {kind : TyKind} (h : first.AgreeOn second kind.references) (depth : Nat)
    (input : Expr) :
    (Scope.mk factory first).checkKind kind depth input =
      (Scope.mk factory second).checkKind kind depth input := by
  cases kind with
  | array element =>
    rw [TyKind.references] at h
    rw [checkKind, checkKind, check_congr h]
  | tuple elements =>
    rw [TyKind.references] at h
    rw [checkKind, checkKind, checkElements_congr h]
  | object properties =>
    rw [TyKind.references] at h
    rw [checkKind, checkKind, checkProperties_congr h]
  | record value =>
    rw [TyKind.references] at h
    rw [checkKind, checkKind, check_congr h]
  | reference name =>
    rw [TyKind.references] at h
    rw [checkKind, checkKind, callHelper_congr (h name List.mem_cons_self)]
  | union members =>
    rw [TyKind.references] at h
    rw [checkKind, checkKind, checkMembers_congr h]
  | intersection members =>
    rw [TyKind.references] at h
    rw [checkKind, checkKind, checkMembers_congr h]
  | _ => rw [checkKind, checkKind]

/-- The same for the checks of tuple elements. -/
theorem checkElements_congr {elements : List Ty}
    (h : first.AgreeOn second (Ty.referencesOf elements)) (depth : Nat) (input : Expr)
    (position : Nat) :
    (Scope.mk factory first).checkElements elements depth input position =
      (Scope.mk factory second).checkElements elements depth input position := by
  cases elements with
  | nil => rw [checkElements, checkElements]
  | cons element rest =>
    rw [Ty.referencesOf] at h
    rw [checkElements, checkElements, check_congr h.left, checkElements_congr h.right]

/-- The same for the checks of properties. -/
theorem checkProperties_congr {properties : List TyProperty}
    (h : first.AgreeOn second (TyProperty.referencesOf properties)) (depth : Nat) (input : Expr) :
    (Scope.mk factory first).checkProperties properties depth input =
      (Scope.mk factory second).checkProperties properties depth input := by
  cases properties with
  | nil => rw [checkProperties, checkProperties]
  | cons property rest =>
    obtain ⟨name, type, optional, _⟩ := property
    rw [TyProperty.referencesOf] at h
    rw [checkProperties, checkProperties, check_congr h.left, checkProperties_congr h.right]

/-- The same for the checks of members. -/
theorem checkMembers_congr {members : List Ty}
    (h : first.AgreeOn second (Ty.referencesOf members)) (depth : Nat) (input : Expr) :
    (Scope.mk factory first).checkMembers members depth input =
      (Scope.mk factory second).checkMembers members depth input := by
  cases members with
  | nil => rw [checkMembers, checkMembers]
  | cons member rest =>
    rw [Ty.referencesOf] at h
    rw [checkMembers, checkMembers, check_congr h.left, checkMembers_congr h.right]

end

mutual

/-- A validator only depends on the definitions of the names in its type. -/
theorem validate_congr {type : Ty} (h : first.AgreeOn second type.references) (depth : Nat)
    (input path : Expr) (expected : String) :
    (Scope.mk factory first).validate type depth input path expected =
      (Scope.mk factory second).validate type depth input path expected := by
  cases type with
  | mk kind aliasName =>
    rw [Ty.references] at h
    rw [validate, validate]
    exact validateKind_congr h depth input path expected

/-- The same for a kind of type, by induction on it. -/
theorem validateKind_congr {kind : TyKind} (h : first.AgreeOn second kind.references) (depth : Nat)
    (input path : Expr) (expected : String) :
    (Scope.mk factory first).validateKind kind depth input path expected =
      (Scope.mk factory second).validateKind kind depth input path expected := by
  cases kind with
  | reference name =>
    rw [TyKind.references] at h
    rw [validateKind, validateKind, callHelper_congr (h name List.mem_cons_self)]
  | array element =>
    rw [TyKind.references] at h
    rw [validateKind, validateKind, validate_congr h]
    rfl
  | tuple elements =>
    rw [TyKind.references] at h
    rw [validateKind, validateKind, validateElements_congr h]
  | object properties =>
    rw [TyKind.references] at h
    rw [validateKind, validateKind, validateProperties_congr h]
  | record value =>
    rw [TyKind.references] at h
    rw [validateKind, validateKind, validate_congr h]
    rfl
  | _ =>
    -- The other kinds are checked.
    rw [validateKind, validateKind, checkKind_congr h]
    all_goals
      intros
      contradiction

/-- The same for the validators of tuple elements. -/
theorem validateElements_congr {elements : List Ty}
    (h : first.AgreeOn second (Ty.referencesOf elements)) (depth : Nat) (input path : Expr)
    (position : Nat) :
    (Scope.mk factory first).validateElements elements depth input path position =
      (Scope.mk factory second).validateElements elements depth input path position := by
  cases elements with
  | nil => rw [validateElements, validateElements]
  | cons element rest =>
    rw [Ty.referencesOf] at h
    rw [validateElements, validateElements, validate_congr h.left, validateElements_congr h.right]
    rfl

/-- The same for the validators of properties. -/
theorem validateProperties_congr {properties : List TyProperty}
    (h : first.AgreeOn second (TyProperty.referencesOf properties)) (depth : Nat)
    (input path : Expr) :
    (Scope.mk factory first).validateProperties properties depth input path =
      (Scope.mk factory second).validateProperties properties depth input path := by
  cases properties with
  | nil => rw [validateProperties, validateProperties]
  | cons property rest =>
    obtain ⟨name, type, optional, _⟩ := property
    rw [TyProperty.referencesOf] at h
    rw [validateProperties, validateProperties, validate_congr h.left,
      validateProperties_congr h.right]
    rfl

end

mutual

/-- A serializer only depends on the definitions of the names in its type. -/
theorem serialize_congr {type : Ty} (h : first.AgreeOn second type.references) (depth : Nat)
    (input : Expr) :
    (Scope.mk factory first).serialize type depth input =
      (Scope.mk factory second).serialize type depth input := by
  cases type with
  | mk kind aliasName =>
    rw [Ty.references] at h
    rw [serialize, serialize]
    exact serializeKind_congr h aliasName depth input

/-- The same for a kind of type, by induction on it. -/
theorem serializeKind_congr {kind : TyKind} (h : first.AgreeOn second kind.references)
    (aliasName : Option String) (depth : Nat) (input : Expr) :
    (Scope.mk factory first).serializeKind kind aliasName depth input =
      (Scope.mk factory second).serializeKind kind aliasName depth input := by
  cases kind with
  | array element =>
    rw [TyKind.references] at h
    rw [serializeKind, serializeKind, serialize_congr h]
  | tuple elements =>
    rw [TyKind.references] at h
    rw [serializeKind, serializeKind, serializeElements_congr h]
  | object properties =>
    rw [TyKind.references] at h
    rw [serializeKind, serializeKind, serializeEntries_congr h, serializeProperties_congr h]
  | record value =>
    rw [TyKind.references] at h
    rw [serializeKind, serializeKind, serialize_congr h]
    rfl
  | reference name =>
    rw [TyKind.references] at h
    rw [serializeKind, serializeKind, callHelper_congr (h name List.mem_cons_self)]
  | union members =>
    rw [TyKind.references] at h
    rw [serializeKind, serializeKind, serializeMembers_congr h]
    rfl
  | _ => simp only [serializeKind, runtime]

/-- The same for the parts of tuple elements. -/
theorem serializeElements_congr {elements : List Ty}
    (h : first.AgreeOn second (Ty.referencesOf elements)) (depth : Nat) (input : Expr)
    (position : Nat) :
    (Scope.mk factory first).serializeElements elements depth input position =
      (Scope.mk factory second).serializeElements elements depth input position := by
  cases elements with
  | nil => rw [serializeElements, serializeElements]
  | cons element rest =>
    rw [Ty.referencesOf] at h
    rw [serializeElements, serializeElements, serialize_congr h.left,
      serializeElements_congr h.right]

/-- The same for the parts of properties that are all there. -/
theorem serializeProperties_congr {properties : List TyProperty}
    (h : first.AgreeOn second (TyProperty.referencesOf properties)) (depth : Nat) (input : Expr)
    (leading : Bool) :
    (Scope.mk factory first).serializeProperties properties depth input leading =
      (Scope.mk factory second).serializeProperties properties depth input leading := by
  cases properties with
  | nil => rw [serializeProperties, serializeProperties]
  | cons property rest =>
    obtain ⟨name, type, optional, _⟩ := property
    rw [TyProperty.referencesOf] at h
    rw [serializeProperties, serializeProperties, serialize_congr h.left,
      serializeProperties_congr h.right]

/-- The same for the entries of properties that may be absent. -/
theorem serializeEntries_congr {properties : List TyProperty}
    (h : first.AgreeOn second (TyProperty.referencesOf properties)) (depth : Nat) (input : Expr) :
    (Scope.mk factory first).serializeEntries properties depth input =
      (Scope.mk factory second).serializeEntries properties depth input := by
  cases properties with
  | nil => rw [serializeEntries, serializeEntries]
  | cons property rest =>
    obtain ⟨name, type, optional, _⟩ := property
    rw [TyProperty.referencesOf] at h
    rw [serializeEntries, serializeEntries, serializeDefined_congr h.left,
      serializeEntries_congr h.right]

/-- The same for a value that is not undefined. -/
theorem serializeDefined_congr {type : Ty} (h : first.AgreeOn second type.references)
    (depth : Nat) (input : Expr) :
    (Scope.mk factory first).serializeDefined type depth input =
      (Scope.mk factory second).serializeDefined type depth input := by
  obtain ⟨kind, aliasName⟩ := type
  rw [Ty.references] at h
  cases kind with
  | union members =>
    rw [TyKind.references] at h
    rw [serializeDefined, serializeDefined, serializeOnly_congr h, serializeMembers_congr h]
    rfl
  | _ =>
    rw [serializeDefined, serializeDefined, serializeKind_congr h]
    all_goals
      intros
      contradiction

/-- The same for the only member that is left. -/
theorem serializeOnly_congr {members : List Ty}
    (h : first.AgreeOn second (Ty.referencesOf members)) (depth : Nat) (input : Expr) :
    (Scope.mk factory first).serializeOnly members depth input =
      (Scope.mk factory second).serializeOnly members depth input := by
  cases members with
  | nil => rw [serializeOnly, serializeOnly]
  | cons member rest =>
    rw [Ty.referencesOf] at h
    rw [serializeOnly, serializeOnly, serialize_congr h.left, serializeOnly_congr h.right]

/-- The same for the branches of a union. -/
theorem serializeMembers_congr {members : List Ty}
    (h : first.AgreeOn second (Ty.referencesOf members)) (defined : Bool) (depth : Nat)
    (input : Expr) :
    (Scope.mk factory first).serializeMembers members defined depth input =
      (Scope.mk factory second).serializeMembers members defined depth input := by
  cases members with
  | nil => rw [serializeMembers, serializeMembers]
  | cons member rest =>
    rw [Ty.referencesOf] at h
    rw [serializeMembers, serializeMembers, check_congr h.left, serialize_congr h.left,
      serializeMembers_congr h.right]

end

/-- The closure of a helper looks up what the definition refers to. -/
theorem helperClosure_congr {definition : Ty} (h : first.AgreeOn second definition.references)
    (depth : Nat) (helper : Helper) :
    (Scope.mk factory first).helperClosure depth helper definition =
      (Scope.mk factory second).helperClosure depth helper definition := by
  rw [helperClosure, helperClosure, check_congr h, serialize_congr h, validate_congr h]

/-- The body of a closure looks up what the type refers to. -/
theorem body_congr {type : Ty} (h : first.AgreeOn second type.references) (mode : Mode) :
    (Scope.mk factory first).body mode type = (Scope.mk factory second).body mode type := by
  cases mode with
  | stringify => rw [body, body, serialize_congr h]
  | is => rw [body, body, check_congr h, serialize_congr h]
  | assert =>
    rw [body, body, check_congr h, serialize_congr h]
    rfl
  | validate =>
    rw [body, body, validate_congr h, serialize_congr h]
    rfl

end Scope

end TypedRoutes
