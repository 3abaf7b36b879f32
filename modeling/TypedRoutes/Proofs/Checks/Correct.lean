import TypedRoutes.Proofs.Checks.Conditions
import TypedRoutes.Proofs.Checks.Helpers
import TypedRoutes.Proofs.Checks.Matching

/-!
# Checks are correct

A generated check decides whether its input matches the type. By induction on the type, where the
calls of helpers are known to decide; and from that for the helpers of all names that a guarded type
reaches.
-/

namespace TypedRoutes

namespace Scope

open Generate TypedRoutes.Runtime

variable (world : World) (scope : Scope) (final : Registry) (base : Env)

/-- Every call of the check helper of a name decides whether the value matches it. -/
def HelperDecides (name : String) (value : Data) : Prop :=
  ∀ index function, ⟨.check, index, name⟩ ∈ final.requested →
    base.lookup? (HelperKind.check.helperName index) = some function →
    ∃ result : Bool, (result = true ↔ Matches world scope.definitions value (.reference name)) ∧
      ∀ heap, (apply world function (.data .undefined) [.data value]).Yields heap
        (.data (.boolean result)) heap

/-- The helpers decide that the check of a type calls. -/
abbrev HelpersDecide (direct references : List String) (value : Data) : Prop :=
  HelpersHold world (scope.HelperDecides world final base) direct references value

variable {world scope final base} {value : Data}

/-- The call of a helper that decides. -/
theorem callHelper_decides (hready : scope.Ready final base) {env : Env} {input : Expr}
    {name : String} {call : Option Expr}
    (hgives : Gives final (scope.callHelper .check name [input]) call)
    (hinput : Evaluates world env input (.data value)) (henv : base.Extends env)
    (hhelper : scope.HelperDecides world final base name value) :
    Decides world env (call.getD (.boolean true))
      (Matches world scope.definitions value (.reference name)) := by
  rcases hgives.of_callHelper with ⟨hmissing, rfl⟩ | ⟨definition, index, -, hrequested, rfl⟩
  · exact (Decides.boolean true).congr (by simp [Matches.dangling value hmissing])
  · obtain ⟨_, params, body, -, -, hlookup⟩ := hready.links _ hrequested
    obtain ⟨result, hresult, hcall⟩ := hhelper index _ hrequested hlookup
    refine .of_evaluates (isSingle_invoke _ _) hresult fun heap => ?_
    have hname := (henv _ (HelperKind.not_local_helperName .check index)).trans hlookup
    exact yields_invoke (evalCallee_identifier (Evaluates.bound hname heap))
      (evalAll_cons (hinput heap) evalAll_nil) (hcall heap)

/-! ## One kind of type -/

/-- A primitive kind is decided by the run-time type, and a number has to be finite as well. -/
theorem checkPrimitive_decides (hready : scope.Ready final base) {kind : TyKind}
    (hprimitive : kind.isPrimitive = true) {depth : Nat} {input condition : Expr} {env : Env}
    (hgives : Gives final (scope.checkKind kind depth input) condition)
    (hinput : Evaluates world env input (.data value)) (henv : base.Extends env) :
    Decides world env condition (Matches world scope.definitions value kind) := by
  cases kind with
  | string =>
    rw [checkKind] at hgives
    rw [← hgives.of_pure]
    refine (Decides.isOfType "string" hinput).congr ?_
    rw [Matches.string_iff]
    cases value <;> simp [Data.typeName]
  | number =>
    rw [checkKind] at hgives
    rw [← hgives.of_pure]
    have hfree : env.lookup? "Number" = none := hready.standard.extends henv _ _ rfl
    refine (DecidesAll.conjunction (.cons (.isOfType "number" hinput) fun _ =>
      .cons (.isFinite hfree hinput) fun _ => .nil)).congr ?_
    rw [Matches.number_iff]
    cases value <;> simp [Data.typeName]
  | boolean =>
    rw [checkKind] at hgives
    rw [← hgives.of_pure]
    refine (Decides.isOfType "boolean" hinput).congr ?_
    rw [Matches.boolean_iff]
    cases value <;> simp [Data.typeName]
  | bigInt =>
    rw [checkKind] at hgives
    rw [← hgives.of_pure]
    refine (Decides.isOfType "bigint" hinput).congr ?_
    rw [Matches.bigInt_iff]
    cases value <;> simp [Data.typeName]
  | _ => cases hprimitive

/-- A literal kind is decided by equality with its only value. -/
theorem checkLiteral_decides {kind : TyKind} (hliteral : kind.isLiteral = true) {depth : Nat}
    {input condition : Expr} {env : Env}
    (hgives : Gives final (scope.checkKind kind depth input) condition)
    (hinput : Evaluates world env input (.data value)) :
    Decides world env condition (Matches world scope.definitions value kind) := by
  cases kind with
  | literalString text =>
    rw [checkKind] at hgives
    rw [← hgives.of_pure]
    exact (Decides.isString text hinput).congr Matches.literalString_iff.symm
  | literalNumber number =>
    rw [checkKind] at hgives
    rw [← hgives.of_pure]
    exact (Decides.isNumber number hinput).congr Matches.literalNumber_iff.symm
  | literalBoolean flag =>
    rw [checkKind] at hgives
    rw [← hgives.of_pure]
    exact (Decides.isBoolean flag hinput).congr Matches.literalBoolean_iff.symm
  | _ => cases hliteral

/-- An array whose items are decided by the check of the element. -/
theorem checkArray_decides (hready : scope.Ready final base) {element : Ty} {depth : Nat}
    {input condition : Expr} {env : Env}
    (hgives : Gives final (scope.checkKind (.array element) depth input) condition)
    (hinput : Evaluates world env input (.data value)) (henv : base.Extends env)
    (helement : ∀ inner,
      Gives final (scope.check element (depth + 1) (.identifier (bindingName depth "elem"))) inner →
      ∀ items, value = .array items → ∀ item ∈ items,
        Decides world (.bind (bindingName depth "elem") (.data item) env) inner
          (Matches world scope.definitions item element.kind)) :
    Decides world env condition (Matches world scope.definitions value (.array element)) := by
  rw [checkKind] at hgives
  obtain ⟨inner, hinner, hgives⟩ := hgives.of_bind scope.definitions fun inner => by
    split <;> exact .pure _
  have hitems := helement inner hinner
  have harray := Decides.isArray (hready.standard.extends henv _ _ rfl) hinput
  split at hgives
  · rename_i hliteral
    rw [Expr.isBoolean_eq.mp hliteral] at hitems
    rw [← hgives.of_pure]
    refine harray.congr ?_
    rw [Matches.array_iff]
    exact exists_congr fun items =>
      ⟨fun h => ⟨h, fun item hitem => (hitems items h item hitem).of_true⟩, And.left⟩
  · rw [← hgives.of_pure]
    refine (DecidesAll.conjunction (.cons (q := (∀ item ∈ value.values,
      Matches world scope.definitions item element.kind) ∧ True) harray fun ⟨items, hitem⟩ =>
        .cons ?_ fun _ => .nil)).congr ?_
    · subst hitem
      exact .every hinput (hitems items rfl)
    · rw [Matches.array_iff]
      cases value <;> simp [Data.values]

/-- A tuple whose items are decided one by one by the checks of its elements. -/
theorem checkTuple_decides (hready : scope.Ready final base) {elements : List Ty} {depth : Nat}
    {input condition : Expr} {env : Env}
    (hgives : Gives final (scope.checkKind (.tuple elements) depth input) condition)
    (hinput : Evaluates world env input (.data value)) (henv : base.Extends env)
    (hvalue : value.WellFormed)
    (helements : ∀ conditions,
      Gives final (scope.checkElements elements depth input 0) conditions →
      ∀ items, value = .array items → items.length = elements.length →
        List.Forall₂ (fun condition (pair : Data × Ty) => Decides world env condition
          (Matches world scope.definitions pair.1 pair.2.kind)) conditions (items.zip elements)) :
    Decides world env condition (Matches world scope.definitions value (.tuple elements)) := by
  rw [checkKind] at hgives
  obtain ⟨conditions, hconditions, rfl⟩ := hgives.of_bind_pure
  refine (DecidesAll.conjunction (.cons (q := value.values.length = elements.length ∧
    ∀ pair ∈ value.values.zip elements, Matches world scope.definitions pair.1 pair.2.kind)
      (.isArray (hready.standard.extends henv _ _ rfl) hinput) fun ⟨items, hitems⟩ => ?_)).congr ?_
  · subst hitems
    exact .cons (.hasLength hvalue.length_lt hinput elements.length) fun hlength =>
      .of_forall₂ (helements conditions hconditions items rfl hlength)
  · rw [Matches.tuple_iff]
    cases value <;> simp [Data.values]

/-- A record whose values are decided by the check of their type. -/
theorem checkRecord_decides (hready : scope.Ready final base) {type : Ty} {depth : Nat}
    {input condition : Expr} {env : Env}
    (hgives : Gives final (scope.checkKind (.record type) depth input) condition)
    (hinput : Evaluates world env input (.data value)) (henv : base.Extends env)
    (hvalues : ∀ inner,
      Gives final (scope.check type (depth + 1) (.identifier (bindingName depth "value"))) inner →
      ∀ item ∈ value.values,
        Decides world (.bind (bindingName depth "value") (.data item) env) inner
          (Matches world scope.definitions item type.kind)) :
    Decides world env condition (Matches world scope.definitions value (.record type)) := by
  rw [checkKind] at hgives
  obtain ⟨inner, hinner, hgives⟩ := hgives.of_bind scope.definitions fun inner => by
    split <;> exact .pure _
  have hitems := hvalues inner hinner
  split at hgives
  · rename_i hliteral
    rw [Expr.isBoolean_eq.mp hliteral] at hitems
    rw [← hgives.of_pure]
    have hobject := DecidesAll.objectConditions hinput fun _ => .nil
    rw [List.append_nil] at hobject
    refine hobject.conjunction.congr ?_
    rw [Matches.record_iff]
    exact and_congr_right fun _ =>
      ⟨fun _ item hitem => (hitems item hitem).of_true, fun _ => trivial⟩
  · rw [← hgives.of_pure]
    refine (DecidesAll.conjunction (.objectConditions hinput fun hobject => .cons (.every
      (.values (hready.standard.extends henv _ _ rfl) hinput hobject) hitems) fun _ =>
        .nil)).congr ?_
    rw [Matches.record_iff, and_true]

/-! ## All types -/

mutual

/-- The check of a type decides whether the value matches it. -/
theorem check_decides (hready : scope.Ready final base) (type : Ty) {depth : Nat}
    {input : Expr} {env : Env} {value : Data} {condition : Expr}
    (hgives : Gives final (scope.check type depth input) condition)
    (hinput : Stable world env depth input value) (henv : base.Extends env)
    (hvalue : value.WellFormed)
    (hhelpers : scope.HelpersDecide world final base type.direct type.references value) :
    Decides world env condition (Matches world scope.definitions value type.kind) := by
  cases type with
  | mk kind _ =>
    rw [check] at hgives
    rw [Ty.direct, Ty.references] at hhelpers
    exact checkKind_decides hready kind hgives hinput henv hvalue hhelpers

/-- The check of a kind of type decides whether the value matches it. -/
theorem checkKind_decides (hready : scope.Ready final base) (kind : TyKind) {depth : Nat}
    {input : Expr} {env : Env} {value : Data} {condition : Expr}
    (hgives : Gives final (scope.checkKind kind depth input) condition)
    (hinput : Stable world env depth input value) (henv : base.Extends env)
    (hvalue : value.WellFormed)
    (hhelpers : scope.HelpersDecide world final base kind.direct kind.references value) :
    Decides world env condition (Matches world scope.definitions value kind) := by
  have hstandard := hready.standard.extends henv
  have heval := hinput.evaluates
  cases kind with
  | string | number | boolean | bigInt => exact checkPrimitive_decides hready rfl hgives heval henv
  | literalString _ | literalNumber _ | literalBoolean _ =>
    exact checkLiteral_decides rfl hgives heval
  | function =>
    rw [checkKind] at hgives
    rw [← hgives.of_pure]
    refine (Decides.isOfType "function" heval).congr ?_
    rw [Matches.function_iff]
    cases value <;> simp [Data.typeName]
  | null =>
    rw [checkKind] at hgives
    rw [← hgives.of_pure]
    exact (Decides.isNull heval).congr Matches.null_iff.symm
  | undefined =>
    rw [checkKind] at hgives
    rw [← hgives.of_pure]
    exact (Decides.isUndefined (hstandard _ _ rfl) heval).congr Matches.undefined_iff.symm
  | void =>
    rw [checkKind] at hgives
    rw [← hgives.of_pure]
    exact (Decides.isUndefined (hstandard _ _ rfl) heval).congr Matches.void_iff.symm
  | date =>
    rw [checkKind] at hgives
    rw [← hgives.of_pure]
    exact (Decides.isDate (hstandard _ _ rfl) heval).congr Matches.date_iff.symm
  | never =>
    rw [checkKind] at hgives
    rw [← hgives.of_pure]
    exact (Decides.boolean false).congr (iff_of_false Bool.false_ne_true Matches.not_never)
  | any | unknown | promise _ | internal _ =>
    rw [checkKind] at hgives
    rw [← hgives.of_pure]
    exact (Decides.boolean true).congr (iff_of_true rfl (by constructor))
  | array element =>
    refine checkArray_decides hready hgives heval henv ?_
    rintro inner hinner items rfl item hitem
    exact check_decides hready element hinner (.parameter (by simp [binders]) depth item env)
      (henv.agrees (.bind (by simp [binders]) depth _ env)) (hvalue.values hitem)
      (hhelpers.part (World.rank_item hitem) (hvalue.values hitem) (List.Subset.refl _))
  | tuple elements =>
    refine checkTuple_decides hready hgives heval henv hvalue ?_
    rintro conditions hconditions items rfl hlength
    exact checkElements_decides hready elements 0 hconditions hinput henv hvalue
      (by rw [Nat.zero_add]; exact hlength.symm)
      (hhelpers.mono (List.nil_subset _) (List.Subset.refl _))
  | object properties =>
    rw [checkKind] at hgives
    obtain ⟨conditions, hconditions, rfl⟩ := hgives.of_bind_pure
    refine (DecidesAll.conjunction (.objectConditions heval fun hobject => .of_forall₂
      (checkProperties_decides hready properties hconditions hinput henv hvalue hobject
        (hhelpers.mono (List.nil_subset _) (List.Subset.refl _))))).congr ?_
    rw [Matches.object_iff]
  | record type =>
    refine checkRecord_decides hready hgives heval henv ?_
    intro inner hinner item hitem
    exact check_decides hready type hinner (.parameter (by simp [binders]) depth item env)
      (henv.agrees (.bind (by simp [binders]) depth _ env)) (hvalue.values hitem)
      (hhelpers.part (world.rank_value value item hitem) (hvalue.values hitem)
        (List.Subset.refl _))
  | reference name =>
    rw [checkKind] at hgives
    obtain ⟨call, hcall, rfl⟩ := hgives.of_bind_pure
    exact callHelper_decides hready hcall heval henv
      (hhelpers.same name (by simp [TyKind.direct]))
  | union members =>
    rw [checkKind] at hgives
    obtain ⟨conditions, hconditions, rfl⟩ := hgives.of_bind_pure
    rw [TyKind.direct, TyKind.references] at hhelpers
    have hmembers := checkMembers_decides hready members hconditions hinput henv hvalue hhelpers
    exact (DecidesAny.of_forall₂ hmembers).disjunction.congr Matches.union_iff.symm
  | intersection members =>
    rw [checkKind] at hgives
    obtain ⟨conditions, hconditions, rfl⟩ := hgives.of_bind_pure
    rw [TyKind.direct, TyKind.references] at hhelpers
    have hmembers := checkMembers_decides hready members hconditions hinput henv hvalue hhelpers
    exact (DecidesAll.of_forall₂ hmembers).conjunction.congr Matches.intersection_iff.symm

/-- Each member of a union or an intersection is decided by its own condition. -/
theorem checkMembers_decides (hready : scope.Ready final base) (members : List Ty)
    {depth : Nat} {input : Expr} {env : Env} {value : Data} {conditions : List Expr}
    (hgives : Gives final (scope.checkMembers members depth input) conditions)
    (hinput : Stable world env depth input value) (henv : base.Extends env)
    (hvalue : value.WellFormed)
    (hhelpers : scope.HelpersDecide world final base (Ty.directOf members)
      (Ty.referencesOf members) value) :
    List.Forall₂ (fun condition (member : Ty) => Decides world env condition
      (Matches world scope.definitions value member.kind)) conditions members := by
  cases members with
  | nil =>
    rw [checkMembers] at hgives
    rw [← hgives.of_pure]
    exact .nil
  | cons member rest =>
    rw [checkMembers] at hgives
    obtain ⟨condition, hcondition, hgives⟩ := hgives.of_bind scope.definitions fun _ =>
      .bind (checkMembers_asking scope rest _ _) fun _ => .pure _
    obtain ⟨others, hothers, rfl⟩ := hgives.of_bind_pure
    rw [Ty.directOf, Ty.referencesOf] at hhelpers
    refine .cons (check_decides hready member hcondition hinput henv hvalue ?_)
      (checkMembers_decides hready rest hothers hinput henv hvalue ?_)
    · exact hhelpers.mono (List.subset_append_left _ _) (List.subset_append_left _ _)
    · exact hhelpers.mono (List.subset_append_right _ _) (List.subset_append_right _ _)

/-- Each item from a position on is decided by the condition of its element. -/
theorem checkElements_decides (hready : scope.Ready final base) (elements : List Ty)
    (position : Nat) {depth : Nat} {input : Expr} {env : Env} {items : List Data}
    {conditions : List Expr}
    (hgives : Gives final (scope.checkElements elements depth input position) conditions)
    (hinput : Stable world env depth input (.array items)) (henv : base.Extends env)
    (hvalue : (Data.array items).WellFormed) (hlength : position + elements.length = items.length)
    (hhelpers : scope.HelpersDecide world final base [] (Ty.referencesOf elements)
      (.array items)) :
    List.Forall₂ (fun condition (pair : Data × Ty) => Decides world env condition
      (Matches world scope.definitions pair.1 pair.2.kind)) conditions
      ((items.drop position).zip elements) := by
  cases elements with
  | nil =>
    rw [checkElements] at hgives
    rw [← hgives.of_pure, List.zip_nil_right]
    exact .nil
  | cons element rest =>
    rw [checkElements] at hgives
    obtain ⟨condition, hcondition, hgives⟩ := hgives.of_bind scope.definitions fun _ =>
      .bind (checkElements_asking scope rest _ _ _) fun _ => .pure _
    obtain ⟨others, hothers, rfl⟩ := hgives.of_bind_pure
    rw [List.length_cons] at hlength
    have hposition : position < items.length := by omega
    have hmem := List.getElem_mem hposition
    have hitem := hinput.position position
    rw [World.item_ofNat hvalue.length_lt hposition] at hitem
    rw [Ty.referencesOf] at hhelpers
    rw [List.drop_eq_getElem_cons hposition, List.zip_cons_cons]
    refine .cons (check_decides hready element hcondition hitem henv (hvalue.values hmem) ?_)
      (checkElements_decides hready rest (position + 1) hothers hinput henv hvalue (by omega) ?_)
    · exact hhelpers.part (World.rank_item hmem) (hvalue.values hmem) (List.subset_append_left _ _)
    · exact hhelpers.mono (List.nil_subset _) (List.subset_append_right _ _)

/-- Each property is decided by its own condition; an optional one may be undefined as well. -/
theorem checkProperties_decides (hready : scope.Ready final base) (properties : List TyProperty)
    {depth : Nat} {input : Expr} {env : Env} {value : Data} {conditions : List Expr}
    (hgives : Gives final (scope.checkProperties properties depth input) conditions)
    (hinput : Stable world env depth input value) (henv : base.Extends env)
    (hvalue : value.WellFormed) (hobject : value.isObject = true)
    (hhelpers : scope.HelpersDecide world final base [] (TyProperty.referencesOf properties)
      value) :
    List.Forall₂ (fun condition (property : TyProperty) => Decides world env condition
      ((property.optional = true ∧ world.get value property.name = .undefined) ∨
        Matches world scope.definitions (world.get value property.name) property.type.kind))
      conditions properties := by
  cases properties with
  | nil =>
    rw [checkProperties] at hgives
    rw [← hgives.of_pure]
    exact .nil
  | cons property rest =>
    obtain ⟨name, type, optional, description⟩ := property
    rw [checkProperties] at hgives
    obtain ⟨condition, hcondition, hgives⟩ := hgives.of_bind scope.definitions fun _ =>
      .bind (checkProperties_asking scope rest _ _) fun _ => .pure _
    obtain ⟨others, hothers, rfl⟩ := hgives.of_bind_pure
    have hmember := hinput.member (Data.isPresent_of_isObject hobject) name
    have hwf : (world.get value name).WellFormed := World.get_wellFormed hvalue name
    rw [TyProperty.referencesOf] at hhelpers
    have hdecides := check_decides hready type hcondition hmember henv hwf
      (hhelpers.part (World.rank_get hobject name) hwf (List.subset_append_left _ _))
    refine .cons ?_ (checkProperties_decides hready rest hothers hinput henv hvalue hobject
      (hhelpers.mono (List.nil_subset _) (List.subset_append_right _ _)))
    simp only [TyProperty.name, TyProperty.optional, TyProperty.type]
    split
    · rename_i hoptional
      simp only [Bool.and_eq_true, Bool.not_eq_eq_eq_not, Bool.not_true] at hoptional
      have hundefined := Decides.isUndefined ((hready.standard.extends henv) _ _ rfl)
        hmember.evaluates
      refine (DecidesAny.disjunction (.cons hundefined fun _ => .cons hdecides fun _ =>
        .nil)).congr ?_
      simp [hoptional.1]
    · rename_i hplain
      refine hdecides.congr ?_
      cases optional with
      | false => simp
      | true =>
        have hliteral : condition = .boolean true := by
          simpa [Expr.isBoolean_eq] using hplain
        rw [hliteral] at hdecides
        simp [hdecides.of_true]

end

/-- One call of a check helper: its body decides as the definition does. -/
theorem HelperDecides.of_definition (hready : scope.Ready final base) {name : String}
    (hvalue : value.WellFormed)
    (hhelpers : ∀ definition, scope.definitions.get? name = some definition →
      scope.HelpersDecide world final base definition.direct definition.references value) :
    scope.HelperDecides world final base name value := by
  intro index function hrequested hlookup
  obtain ⟨definition, params, body, hdefinition, hgives, hlookup'⟩ := hready.links _ hrequested
  obtain rfl : function = .closure params (.concise body) base :=
    Option.some.inj (hlookup.symm.trans hlookup')
  obtain ⟨condition, hcondition, hclosure⟩ := Gives.of_map hgives
  cases hclosure
  obtain ⟨result, hresult, htests⟩ := check_decides hready definition hcondition
    (helperInput_stable value) (helperInput_extends (.data value)) hvalue
    (hhelpers definition hdefinition)
  exact ⟨result, hresult.trans (Matches.reference_iff hdefinition).symm,
    fun heap => apply_closure (htests heap).yields⟩

/-- The check of a guarded type decides. -/
theorem check_decides_of_guarded (hready : scope.Ready final base) {type : Ty}
    (hguarded : scope.definitions.Guarded type) {depth : Nat} {input condition : Expr} {env : Env}
    (hgives : Gives final (scope.check type depth input) condition)
    (hinput : Stable world env depth input value) (henv : base.Extends env)
    (hvalue : value.WellFormed) :
    Decides world env condition (Matches world scope.definitions value type.kind) :=
  check_decides hready type hgives hinput henv hvalue
    (hguarded.helpersHold (fun _ _ _ hvalue => .of_definition hready hvalue) hvalue)

end Scope

end TypedRoutes
