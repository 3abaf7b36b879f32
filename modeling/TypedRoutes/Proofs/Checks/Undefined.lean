import TypedRoutes.Proofs.Checks.Program

/-!
# Types that admit undefined

Which types hold undefined, told from the type and its definitions alone. A property counts as one
that may be absent by its mark, its type or a direct member of its union. What else admits undefined
is not looked at: the check of an object accepts a value without such a property, although the
property counts as present.
-/

namespace TypedRoutes

open TypedRoutes.Runtime

/-- Undefined is one of the values of the kind of type. -/
inductive TypeTable.Admits (definitions : TypeTable) : TyKind → Prop where
  | undefined : Admits definitions .undefined
  | void : Admits definitions .void
  | any : Admits definitions .any
  | unknown : Admits definitions .unknown
  | promise (inner : Ty) : Admits definitions (.promise inner)
  | internal (name : String) : Admits definitions (.internal name)
  | reference {name : String} {definition : Ty}
      (defined : definitions.get? name = some definition)
      (same : Admits definitions definition.kind) : Admits definitions (.reference name)
  /-- Nothing is checked for a name without definition. -/
  | dangling {name : String} (missing : definitions.get? name = none) :
      Admits definitions (.reference name)
  | union {members : List Ty} {member : Ty} (mem : member ∈ members)
      (one : Admits definitions member.kind) : Admits definitions (.union members)
  | intersection {members : List Ty} (all : ∀ member ∈ members, Admits definitions member.kind) :
      Admits definitions (.intersection members)

/-- The type of the property admits undefined, but the property does not count as one that may be
absent. -/
structure TypeTable.Overlooks (definitions : TypeTable) (property : TyProperty) : Prop where
  admits : definitions.Admits property.type.kind
  present : property.mayBeAbsent = false

variable {definitions : TypeTable} {kind : TyKind}

theorem Runtime.Matches.admits {world : World} {value : Data}
    (h : Matches world definitions value kind) (hvalue : value = .undefined) :
    definitions.Admits kind := by
  induction h with
  | undefined => exact .undefined
  | void => exact .void
  | any => exact .any
  | unknown => exact .unknown
  | promise _ inner => exact .promise inner
  | internal _ name => exact .internal name
  | object shape | record shape =>
    subst hvalue
    cases shape
  | reference defined _ ih => exact .reference defined (ih hvalue)
  | dangling _ missing => exact .dangling missing
  | union mem _ ih => exact .union mem (ih hvalue)
  | intersection _ ih => exact .intersection fun member hmem => ih member hmem hvalue
  | _ => cases hvalue

theorem TypeTable.Admits.matches_undefined (world : World) (h : definitions.Admits kind) :
    Matches world definitions .undefined kind := by
  induction h with
  | undefined => exact .undefined
  | void => exact .void
  | any => exact .any _
  | unknown => exact .unknown _
  | promise inner => exact .promise _ inner
  | internal name => exact .internal _ name
  | reference defined _ ih => exact .reference defined ih
  | dangling missing => exact .dangling _ missing
  | union mem _ ih => exact .union mem ih
  | intersection _ ih => exact .intersection ih

/-- The types that undefined matches are those that admit it. -/
theorem matches_undefined_iff (world : World) :
    Matches world definitions .undefined kind ↔ definitions.Admits kind :=
  ⟨fun h => h.admits rfl, fun h => h.matches_undefined world⟩

theorem TyKind.admits_of_isUndefined (h : kind.isUndefined = true) : definitions.Admits kind := by
  cases kind <;> cases h
  · exact .undefined
  · exact .void

/-- The type of a property that may be absent for another reason than its mark admits undefined. -/
theorem Ty.admits_of_admitsAbsence {type : Ty} (h : type.admitsAbsence = true) :
    definitions.Admits type.kind := by
  obtain ⟨kind, aliasName⟩ := type
  cases kind with
  | undefined => exact .undefined
  | void => exact .void
  | union members =>
    obtain ⟨member, hmem, hundefined⟩ := List.any_eq_true.mp h
    exact .union hmem (TyKind.admits_of_isUndefined hundefined)
  | _ => cases h

/-- What is checked for a property that is undefined: that it may be absent, or that this is
overlooked. -/
theorem TyProperty.accepts_undefined_iff (world : World) {property : TyProperty} :
    property.optional = true ∨ Matches world definitions .undefined property.type.kind ↔
      property.mayBeAbsent = true ∨ definitions.Overlooks property := by
  rw [matches_undefined_iff]
  constructor
  · rintro (hoptional | hadmits)
    · exact .inl (by rw [TyProperty.mayBeAbsent, hoptional, Bool.true_or])
    · by_cases habsent : property.mayBeAbsent = true
      · exact .inl habsent
      · exact .inr ⟨hadmits, by simpa using habsent⟩
  · rintro (habsent | hoverlooks)
    · rcases Bool.or_eq_true_iff.mp habsent with hoptional | habsence
      · exact .inl hoptional
      · exact .inr (Ty.admits_of_admitsAbsence habsence)
    · exact .inr hoverlooks.admits

/-- The object matches if its undefined properties may be absent, recognised or overlooked, and its
other properties match their types. -/
theorem Runtime.Matches.object_iff_absent {world : World} {value : Data}
    {properties : List TyProperty} (hobject : value.isObject = true) :
    Matches world definitions value (.object properties) ↔ ∀ property ∈ properties,
      (world.get value property.name = .undefined →
        property.mayBeAbsent = true ∨ definitions.Overlooks property) ∧
      (world.get value property.name ≠ .undefined →
        Matches world definitions (world.get value property.name) property.type.kind) := by
  rw [Matches.object_iff, and_iff_right hobject]
  refine forall₂_congr fun property _ => ?_
  by_cases hundefined : world.get value property.name = .undefined
  · rw [hundefined, ← TyProperty.accepts_undefined_iff world]
    simp
  · simp [hundefined]

namespace Scope

/-- The check of a guarded object type ends on every object. It gives true if each property that is
undefined may be absent, or has a type whose undefined is overlooked, and every other property
matches its type; and false otherwise. -/
theorem checkProgram_absent (world : World) (scope : Scope) (properties : List TyProperty)
    (aliasName : Option String) (value : Data)
    (hguarded : scope.definitions.Guarded (.mk (.object properties) aliasName))
    (hvalue : value.WellFormed) (hobject : value.isObject = true) :
    ∃ result : Bool,
      (result = true ↔ ∀ property ∈ properties,
        (world.get value property.name = .undefined →
          property.mayBeAbsent = true ∨ scope.definitions.Overlooks property) ∧
        (world.get value property.name ≠ .undefined →
          Matches world scope.definitions (world.get value property.name) property.type.kind)) ∧
      ∀ heap, (exec world (.input value)
        (scope.checkProgram (.mk (.object properties) aliasName))).Yields heap
          (some (.data (.boolean result))) heap := by
  classical
  have hresult := decide_eq_true_iff
    (p := Matches world scope.definitions value (.object properties))
  exact ⟨_, hresult.trans (Matches.object_iff_absent hobject),
    checkProgram_yields world scope _ value hguarded hvalue hresult⟩

/-- An object with one property, for whose type nothing is checked. -/
def anyProperty : TyProperty := .mk "a" TyKind.any.type false none

theorem anyProperty_guarded : TypeTable.Guarded .empty (TyKind.object [anyProperty]).type := by
  intro name hname
  induction hname with
  | here mem => cases mem
  | through _ defined => cases defined

/-- The empty object lacks the property and is checked. -/
theorem checkProgram_absent_any :
    TypeTable.Guarded .empty (.mk (.object [anyProperty]) none) ∧
      (Data.object []).WellFormed ∧ (Data.object []).isObject = true ∧
      ∃ result : Bool,
        (result = true ↔ ∀ property ∈ [anyProperty],
          (World.bare.get (.object []) property.name = .undefined →
            property.mayBeAbsent = true ∨ TypeTable.Overlooks .empty property) ∧
          (World.bare.get (.object []) property.name ≠ .undefined →
            Matches World.bare .empty (World.bare.get (.object []) property.name)
              property.type.kind)) ∧
        ∀ heap, (exec World.bare (.input (.object []))
          (checkProgram (.mk (.identifier "factory") .empty)
            (.mk (.object [anyProperty]) none))).Yields
            heap (some (.data (.boolean result))) heap :=
  ⟨anyProperty_guarded, .object (by simp) (by simp), rfl,
    checkProgram_absent World.bare (.mk (.identifier "factory") .empty) [anyProperty] none _
      anyProperty_guarded (.object (by simp) (by simp)) rfl⟩

/-- A check can accept an object without a property that does not count as one that may be
absent. -/
theorem checkProgram_absent_overlooked :
    ¬ ∀ (world : World) (scope : Scope) (properties : List TyProperty) (value : Data),
      scope.definitions.Guarded (TyKind.object properties).type → value.WellFormed →
      value.isObject = true →
      (∀ heap, (exec world (.input value) (scope.checkProgram
        (TyKind.object properties).type)).Yields heap (some (.data (.boolean true))) heap) →
      ∀ property ∈ properties, world.get value property.name = .undefined →
        property.mayBeAbsent = true := by
  intro hclaim
  have hvalue : (Data.object []).WellFormed := .object (by simp) (by simp)
  have hmatches : Matches World.bare .empty (.object []) (.object [anyProperty]) :=
    .object rfl fun property hmem _ => by
      rw [List.mem_singleton.mp hmem]
      exact .any _
  have haccepts := checkProgram_yields World.bare (.mk (.identifier "factory") .empty)
    (TyKind.object [anyProperty]).type (.object []) anyProperty_guarded hvalue
    (iff_of_true rfl hmatches)
  have habsent := hclaim World.bare (.mk (.identifier "factory") .empty) [anyProperty] (.object [])
    anyProperty_guarded hvalue rfl haccepts anyProperty List.mem_cons_self rfl
  cases habsent

end Scope

end TypedRoutes
