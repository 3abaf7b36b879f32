import TypedRoutes.Artifact.Scope
import TypedRoutes.Proofs.Checks.Matching
import TypedRoutes.Proofs.Runtime.Parts
import TypedRoutes.Proofs.Validation.Steps

/-!
# Mismatches

What is wrong with a value, as a traversal that knows nothing of generated code. A container whose
own shape is wrong is one mismatch. Otherwise the traversal goes through all parts of the container,
whether or not there are mismatches in the parts before. Anything else is a mismatch as a whole.
-/

namespace TypedRoutes

namespace Runtime

/-- A mismatch: the way to it, what is expected there, and the value that is there. -/
structure Mismatch where
  steps : List ValueStep
  expected : String
  value : Data

/-- A part of a container: the step to it, the value that is there, and its type. -/
structure Part where
  step : ValueStep
  value : Data
  type : Ty

variable {world : World} {definitions : TypeTable} {kind : TyKind} {value : Data}

/-- Whether a value has the shape that a container wants. Other kinds are not containers. -/
def shape? : TyKind → Data → Option Bool
  | .array _, .array _ => some true
  | .array _, _ => some false
  | .tuple elements, .array items => some (items.length == elements.length)
  | .tuple _, _ => some false
  | .object _, value => some value.isObject
  | .record _, value => some value.isObject
  | _, _ => none

/-- The items of an array, all of one type. -/
def itemParts (items : List Data) (element : Ty) : List Part :=
  items.zipIdx.map fun entry => ⟨.index entry.2, entry.1, element⟩

/-- The items of an array from a position on, each with a type of its own. -/
def elementParts (items : List Data) (elements : List Ty) (position : Nat) : List Part :=
  ((items.zip elements).zipIdx position).map fun entry =>
    ⟨.index entry.2, entry.1.1, entry.1.2⟩

/-- A declared property, unless it is optional and undefined. -/
def World.propertyPart? (world : World) (value : Data) (property : TyProperty) : Option Part :=
  match property.optional, world.get value property.name with
  | true, .undefined => none
  | _, part => some ⟨.ofName property.name, part, property.type⟩

/-- The parts of a value that has the shape of a container, in the order of the traversal. -/
def World.parts (world : World) : TyKind → Data → List Part
  | .array element, value => itemParts value.values element
  | .tuple elements, value => elementParts value.values elements 0
  | .object properties, value => properties.filterMap (world.propertyPart? value)
  | .record type, value => value.keys.map fun key => ⟨.key key, world.get value key, type⟩
  | _, _ => []

/-- The definition that a kind of type stands for. -/
def definition? (definitions : TypeTable) : TyKind → Option Ty
  | .reference name => definitions.get? name
  | _ => none

/-! ## Parts -/

theorem World.propertyPart?_skipped {property : TyProperty} (hoptional : property.optional = true)
    (hundefined : world.get value property.name = .undefined) :
    world.propertyPart? value property = none := by
  rw [propertyPart?, hoptional, hundefined]

theorem World.propertyPart?_present {property : TyProperty}
    (h : ¬ (property.optional = true ∧ world.get value property.name = .undefined)) :
    world.propertyPart? value property =
      some ⟨.ofName property.name, world.get value property.name, property.type⟩ := by
  rw [propertyPart?]
  split
  · rename_i hoptional hundefined
    exact absurd ⟨hoptional, hundefined⟩ h
  · rfl

theorem World.eq_of_propertyPart? {property : TyProperty} {part : Part}
    (h : world.propertyPart? value property = some part) :
    part = ⟨.ofName property.name, world.get value property.name, property.type⟩ := by
  by_cases hskipped : property.optional = true ∧ world.get value property.name = .undefined
  · rw [propertyPart?_skipped hskipped.1 hskipped.2] at h
    cases h
  · rw [propertyPart?_present hskipped] at h
    exact (Option.some.inj h).symm

theorem forall_itemParts (holds : Data → Ty → Prop) {items : List Data} {element : Ty} :
    (∀ part ∈ itemParts items element, holds part.value part.type) ↔
      ∀ item ∈ items, holds item element := by
  conv_rhs => rw [← List.zipIdx_map_fst 0 items]
  rw [itemParts, List.forall_mem_map, List.forall_mem_map]

theorem forall_elementParts (holds : Data → Ty → Prop) {items : List Data} {elements : List Ty}
    {position : Nat} :
    (∀ part ∈ elementParts items elements position, holds part.value part.type) ↔
      ∀ pair ∈ items.zip elements, holds pair.1 pair.2 := by
  conv_rhs => rw [← List.zipIdx_map_fst position (items.zip elements)]
  rw [elementParts, List.forall_mem_map, List.forall_mem_map]

/-- Where the shape is wrong, the value does not match. -/
theorem not_matches_of_shape? (h : shape? kind value = some false) :
    ¬ Matches world definitions value kind := by
  intro hmatches
  cases hmatches with
  | array each => cases h
  | tuple length each => simp [shape?, length] at h
  | object shape each => simp [shape?, shape] at h
  | record shape each => simp [shape?, shape] at h
  | _ => cases h

/-- Where the shape is right, the value matches if all its parts do. -/
theorem matches_iff_parts (h : shape? kind value = some true) (hvalue : value.WellFormed) :
    Matches world definitions value kind ↔
      ∀ part ∈ world.parts kind value, Matches world definitions part.value part.type.kind := by
  cases kind with
  | array element =>
    cases value with
    | array items =>
      rw [Matches.array_iff, World.parts, Data.values,
        forall_itemParts fun item type => Matches world definitions item type.kind]
      simp
    | _ => cases h
  | tuple elements =>
    cases value with
    | array items =>
      have hlength : items.length = elements.length := by simpa [shape?] using h
      rw [Matches.tuple_iff, World.parts, Data.values,
        forall_elementParts fun item type => Matches world definitions item type.kind]
      simp [hlength]
    | _ => cases h
  | object properties =>
    have hobject : value.isObject = true := by simpa [shape?] using h
    rw [Matches.object_iff, World.parts, List.forall_mem_filterMap, and_iff_right hobject]
    refine forall₂_congr fun property _ => ?_
    by_cases hskipped : property.optional = true ∧ world.get value property.name = .undefined
    · simp [World.propertyPart?_skipped hskipped.1 hskipped.2, hskipped.1, hskipped.2]
    · simp [World.propertyPart?_present hskipped, hskipped]
  | record type =>
    have hobject : value.isObject = true := by simpa [shape?] using h
    rw [Matches.record_iff, World.parts, and_iff_right hobject, ← world.map_get_keys hvalue,
      List.forall_mem_map, List.forall_mem_map]
  | _ => cases h

/-- The step to a part can be read back, and leads to it. -/
theorem World.follow?_part (h : shape? kind value = some true) {part : Part}
    (hpart : part ∈ world.parts kind value) :
    part.step.Readable ∧ part.step.follow? world value = some part.value := by
  cases kind with
  | array element =>
    cases value with
    | array items =>
      obtain ⟨⟨item, position⟩, hitem, rfl⟩ := List.mem_map.mp hpart
      exact ⟨trivial, List.mem_zipIdx_iff_getElem?.mp hitem⟩
    | _ => cases h
  | tuple elements =>
    cases value with
    | array items =>
      obtain ⟨⟨⟨item, element⟩, position⟩, hitem, rfl⟩ := List.mem_map.mp hpart
      have hzip := List.mem_zipIdx_iff_getElem?.mp hitem
      exact ⟨trivial, (List.getElem?_zip_eq_some.mp hzip).1⟩
    | _ => cases h
  | object properties =>
    have hobject : value.isObject = true := by simpa [shape?] using h
    obtain ⟨property, -, hproperty⟩ := List.mem_filterMap.mp hpart
    rw [World.eq_of_propertyPart? hproperty]
    exact ⟨ValueStep.readable_ofName _, ValueStep.follow?_ofName
      (Data.isPresent_of_isObject hobject) _⟩
  | record type =>
    have hobject : value.isObject = true := by simpa [shape?] using h
    obtain ⟨key, -, rfl⟩ := List.mem_map.mp hpart
    exact ⟨trivial, if_pos (Data.isPresent_of_isObject hobject)⟩
  | _ => cases h

theorem World.part_wellFormed (hvalue : value.WellFormed) {part : Part}
    (h : shape? kind value = some true) (hpart : part ∈ world.parts kind value) :
    part.value.WellFormed := by
  cases kind with
  | array element =>
    have hitems : ∀ part ∈ itemParts value.values element, part.value.WellFormed :=
      (forall_itemParts fun item _ => item.WellFormed).mpr fun item hitem => hvalue.values hitem
    exact hitems part hpart
  | tuple elements =>
    have hitems : ∀ part ∈ elementParts value.values elements 0, part.value.WellFormed :=
      (forall_elementParts fun item _ => item.WellFormed).mpr fun pair hpair =>
        hvalue.values (List.of_mem_zip hpair).1
    exact hitems part hpart
  | object properties =>
    obtain ⟨property, -, hproperty⟩ := List.mem_filterMap.mp hpart
    rw [World.eq_of_propertyPart? hproperty]
    exact World.get_wellFormed hvalue _
  | record type =>
    obtain ⟨key, -, rfl⟩ := List.mem_map.mp hpart
    exact World.get_wellFormed hvalue _
  | _ => cases h

end Runtime

namespace Scope

open TypedRoutes.Runtime

/-- The traversal of a value finds the mismatches, in this order. -/
inductive Finds (world : World) (scope : Scope) :
    Data → TyKind → List ValueStep → String → List Mismatch → Prop where
  | misshapen {value : Data} {kind : TyKind} {steps : List ValueStep} {expected : String}
      (shape : shape? kind value = some false) :
      Finds world scope value kind steps expected [⟨steps, expected, value⟩]
  | parts {value : Data} {kind : TyKind} {steps : List ValueStep} {expected : String}
      {founds : List (List Mismatch)} (shape : shape? kind value = some true)
      (length : founds.length = (world.parts kind value).length)
      (each : ∀ pair ∈ (world.parts kind value).zip founds,
        Finds world scope pair.1.value pair.1.type.kind (steps ++ [pair.1.step])
          (scope.expected pair.1.type) pair.2) :
      Finds world scope value kind steps expected founds.flatten
  /-- Behind a name its definition is expected, under that name. -/
  | reference {value : Data} {name : String} {definition : Ty} {steps : List ValueStep}
      {expected : String} {found : List Mismatch}
      (defined : scope.definitions.get? name = some definition)
      (same : Finds world scope value definition.kind steps name found) :
      Finds world scope value (.reference name) steps expected found
  | accepted {value : Data} {kind : TyKind} {steps : List ValueStep} {expected : String}
      (whole : shape? kind value = none) (resolved : definition? scope.definitions kind = none)
      (accepts : Matches world scope.definitions value kind) :
      Finds world scope value kind steps expected []
  | rejected {value : Data} {kind : TyKind} {steps : List ValueStep} {expected : String}
      (whole : shape? kind value = none) (resolved : definition? scope.definitions kind = none)
      (rejects : ¬ Matches world scope.definitions value kind) :
      Finds world scope value kind steps expected [⟨steps, expected, value⟩]

namespace Finds

variable {world : World} {scope : Scope} {value : Data} {kind : TyKind} {steps : List ValueStep}
  {expected : String} {found : List Mismatch}

/-- Nothing is found exactly in values that match. -/
theorem nil_iff (h : scope.Finds world value kind steps expected found)
    (hvalue : value.WellFormed) :
    found = [] ↔ Matches world scope.definitions value kind := by
  induction h with
  | misshapen shape => simp [not_matches_of_shape? shape]
  | @parts value kind steps expected founds shape length each ih =>
    have hpairs : (∀ found ∈ founds, found = []) ↔ ∀ part ∈ world.parts kind value,
        Matches world scope.definitions part.value part.type.kind := by
      conv_lhs => rw [← List.map_snd_zip length.le]
      conv_rhs => rw [← List.map_fst_zip length.ge]
      rw [List.forall_mem_map, List.forall_mem_map]
      refine forall₂_congr fun pair hpair => ih pair hpair ?_
      exact World.part_wellFormed hvalue shape (List.of_mem_zip hpair).1
    rw [List.flatten_eq_nil_iff, hpairs, matches_iff_parts shape hvalue]
  | reference defined _ ih => rw [ih hvalue, Matches.reference_iff defined]
  | accepted _ _ accepts => simp [accepts]
  | rejected _ _ rejects => simp [rejects]

/-- The steps of a mismatch, read from where the traversal started, lead to its value. -/
theorem reaches (h : scope.Finds world value kind steps expected found) {mismatch : Mismatch}
    (hmem : mismatch ∈ found) :
    ∃ further : List ValueStep, mismatch.steps = steps ++ further ∧
      (∀ step ∈ further, step.Readable) ∧
      followPath? world further value = some mismatch.value := by
  induction h with
  | misshapen shape =>
    obtain rfl := List.mem_singleton.mp hmem
    exact ⟨[], by simp, by simp, rfl⟩
  | @parts value kind steps expected founds shape length each ih =>
    obtain ⟨found, hfound, hmem⟩ := List.mem_flatten.mp hmem
    rw [← List.map_snd_zip length.le] at hfound
    obtain ⟨pair, hpair, rfl⟩ := List.mem_map.mp hfound
    obtain ⟨further, hsteps, hreadable, hfollow⟩ := ih pair hpair hmem
    obtain ⟨hstep, hpart⟩ := World.follow?_part shape (List.of_mem_zip hpair).1
    refine ⟨pair.1.step :: further, by simp [hsteps], ?_, ?_⟩
    · exact List.forall_mem_cons.mpr ⟨hstep, hreadable⟩
    · rw [followPath?_cons hpart, hfollow]
  | reference _ _ ih => exact ih hmem
  | accepted _ _ _ => cases hmem
  | rejected _ _ _ =>
    obtain rfl := List.mem_singleton.mp hmem
    exact ⟨[], by simp, by simp, rfl⟩

/-- The traversal of a value finds one list of mismatches. -/
theorem unique (h : scope.Finds world value kind steps expected found) {other : List Mismatch}
    (ho : scope.Finds world value kind steps expected other) : found = other := by
  induction h generalizing other with
  | misshapen shape =>
    cases ho with
    | misshapen _ => rfl
    | parts shape' _ _ => cases shape.symm.trans shape'
    | reference _ _ => cases shape
    | accepted whole _ _ => cases shape.symm.trans whole
    | rejected whole _ _ => cases shape.symm.trans whole
  | @parts value kind steps expected founds shape length each ih =>
    cases ho with
    | misshapen shape' => cases shape.symm.trans shape'
    | @parts _ _ _ _ others _ length' each' =>
      congr 1
      refine List.ext_getElem (length.trans length'.symm) fun position hfound hother => ?_
      have hpart : position < (world.parts kind value).length := length ▸ hfound
      have hpair (founds : List (List Mismatch)) (h : position < founds.length) :
          ((world.parts kind value)[position], founds[position]) ∈
            (world.parts kind value).zip founds := by
        rw [← List.getElem_zip (h := by simp [hpart, h])]
        exact List.getElem_mem _
      exact ih _ (hpair founds hfound) (each' _ (hpair others hother))
    | reference _ _ => cases shape
    | accepted whole _ _ => cases shape.symm.trans whole
    | rejected whole _ _ => cases shape.symm.trans whole
  | reference defined same ih =>
    cases ho with
    | misshapen shape => cases shape
    | parts shape _ _ => cases shape
    | reference defined' same' =>
      cases defined.symm.trans defined'
      exact ih same'
    | accepted _ resolved _ => cases defined.symm.trans resolved
    | rejected _ resolved _ => cases defined.symm.trans resolved
  | accepted whole resolved accepts =>
    cases ho with
    | misshapen shape => cases shape.symm.trans whole
    | parts shape _ _ => cases shape.symm.trans whole
    | reference defined _ => cases defined.symm.trans resolved
    | accepted _ _ _ => rfl
    | rejected _ _ rejects => exact absurd accepts rejects
  | rejected whole resolved rejects =>
    cases ho with
    | misshapen shape => cases shape.symm.trans whole
    | parts shape _ _ => cases shape.symm.trans whole
    | reference defined _ => cases defined.symm.trans resolved
    | accepted _ _ accepts => exact absurd accepts rejects
    | rejected _ _ _ => rfl

end Finds

end Scope

end TypedRoutes
