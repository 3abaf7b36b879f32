import TypedRoutes.Proofs.Checks.Correct
import TypedRoutes.Proofs.Validation.Listing
import TypedRoutes.Proofs.Validation.Paths

/-!
# Validators are correct

A generated validator lists what the traversal of its input finds. So it tells whether the input
matches the type, and reports a mismatch exactly when it does not. The induction follows the one for
checks: on the type, where the calls of helpers are known to be right, and from there for the
helpers of all names that a guarded type reaches.
-/

namespace TypedRoutes

namespace Scope

open Generate TypedRoutes.Runtime

variable (world : World) (scope : Scope) (final : Registry) (base : Env) (errors : Nat)
  (start : String)

/-- Every call of the validating helper of a name lists what the traversal of the value finds under
it. -/
def HelperLists (name : String) (value : Data) : Prop :=
  ∀ index function, ⟨.validate, index, name⟩ ∈ final.requested →
    base.lookup? (HelperKind.validate.helperName index) = some function →
    ∀ (steps : List ValueStep) (path expected : String), Traces world start steps path →
    ∃ listed, scope.Listed world start value (.reference name) steps expected listed ∧
      ∀ heap, (apply world function (.data .undefined) [.data value, .data (.string path)]).Yields
        heap (.data (.boolean listed.isEmpty)) (heap.report errors listed)

/-- The helpers are right that the validator of a type calls, those for checks among them. -/
abbrev HelpersList (direct references : List String) (value : Data) : Prop :=
  HelpersHold world (fun name value => scope.HelperDecides world final base name value ∧
    scope.HelperLists world final base errors start name value) direct references value

variable {world scope final base errors start} {value : Data} {steps : List ValueStep}

/-- The call of a helper that lists. -/
theorem callHelper_lists (hready : scope.Ready final base) {env : Env} {input path : Expr}
    {name text : String} {call : Option Expr} (expected : String)
    (hgives : Gives final (scope.callHelper .validate name [input, path]) call)
    (hinput : Evaluates world env input (.data value))
    (hpath : Evaluates world env path (.data (.string text)))
    (htraces : Traces world start steps text) (henv : base.Extends env)
    (hhelper : scope.HelperLists world final base errors start name value) :
    scope.Validates world env errors start (call.getD (.boolean true)) value (.reference name) steps
      expected := by
  rcases hgives.of_callHelper with ⟨hmissing, rfl⟩ | ⟨definition, index, -, hrequested, rfl⟩
  · exact ⟨[], .accepted rfl hmissing (.dangling value hmissing), .boolean_true⟩
  · obtain ⟨_, params, body, -, -, hlookup⟩ := hready.links _ hrequested
    obtain ⟨listed, hlisted, hcall⟩ :=
      hhelper index _ hrequested hlookup steps text expected htraces
    refine ⟨listed, hlisted, fun heap => ?_⟩
    have hname := (henv _ (HelperKind.not_local_helperName .validate index)).trans hlookup
    refine .single (isSingle_invoke _ _) ?_
    exact yields_invoke (evalCallee_identifier (Evaluates.bound hname heap))
      (evalAll_cons (hinput heap) (evalAll_cons (hpath heap) evalAll_nil)) (hcall heap)

/-- Anything but a container or a name is reported as a whole. -/
theorem whole_lists {kind : TyKind} {env : Env} {condition input path : Expr} {text : String}
    (expected : String) (hwhole : shape? kind value = none)
    (hresolved : definition? scope.definitions kind = none)
    (h : Decides world env condition (Matches world scope.definitions value kind))
    (hcollects : env.Collects errors) (hinput : Evaluates world env input (.data value))
    (hpath : Evaluates world env path (.data (.string text)))
    (htraces : Traces world start steps text) :
    scope.Validates world env errors start (if condition.isBoolean true then condition
      else orReport condition path expected input) value kind steps expected := by
  split
  · rename_i hliteral
    rw [Expr.isBoolean_eq.mp hliteral] at h ⊢
    exact ⟨[], .accepted hwhole hresolved h.of_true, .boolean_true⟩
  · by_cases hmatches : Matches world scope.definitions value kind
    · exact ⟨[], .accepted hwhole hresolved hmatches, .orReport h hcollects hpath expected hinput
        (fun _ => rfl) fun hfails => absurd hmatches hfails⟩
    · exact ⟨_, .rejected hwhole hresolved hmatches htraces, .orReport h hcollects hpath expected
        hinput (fun hholds => absurd hholds hmatches) fun _ => rfl⟩

/-- The names that the body of a loop over an array sees for one item. -/
theorem itemAt_scope (world : World) (env : Env) (depth : Nat) (item : Data) (position : Nat)
    (items : List Data) :
    let outer := Env.bindAll [bindingName depth "elem", bindingName depth "index"]
      [.data item, .data (.number (Float.ofNat position)), .data (.array items)] env
    env.AgreesBelow depth outer ∧
      Stable world outer (depth + 1) (.identifier (bindingName depth "elem")) item ∧
      Stable world outer (depth + 1) (.identifier (bindingName depth "index"))
        (.number (Float.ofNat position)) := by
  have hne : bindingName depth "index" ≠ bindingName depth "elem" :=
    bindingName_ne (by simp [binders]) (by simp [binders]) (by simp)
  have hagrees := (Env.AgreesBelow.bind (by simp [binders] : "elem" ∈ binders) depth
    (.data item) env).trans (.bind (by simp [binders] : "index" ∈ binders) depth
      (.data (.number (Float.ofNat position))) _)
  rw [bindAll_itemAt]
  refine ⟨hagrees, .bound ?_ (not_boundFrom_succ (by simp [binders])),
    .bound (Env.lookup?_bind_self _ _ _) (not_boundFrom_succ (by simp [binders]))⟩
  rw [Env.lookup?_bind_of_ne hne, Env.lookup?_bind_self]

/-- The names that the body of a loop over the keys of an object sees for one key. -/
theorem key_scope (world : World) (env : Env) (depth : Nat) (key : String) :
    let outer := Env.bind (bindingName depth "key") (.data (.string key)) env
    env.AgreesBelow depth outer ∧
      Stable world outer (depth + 1) (.identifier (bindingName depth "key")) (.string key) :=
  ⟨.bind (by simp [binders]) depth _ env,
    .bound (Env.lookup?_bind_self _ _ _) (not_boundFrom_succ (by simp [binders]))⟩

/-- A text in quotes is as stable as the text. -/
theorem standardJson_stable {outer : Env} {depth : Nat} {input : Expr} {text : String}
    (hstandard : base.StandardFree) (henv : base.Extends outer)
    (hinput : Stable world outer depth input (.string text)) :
    Stable world outer depth (.standardJson input) (.string (Json.quote text)) :=
  fun inner hi => .standardJson_string (hstandard.extends (henv.agrees hi) _ _ rfl)
    (hinput inner hi)

/-! ## One kind of type

The validator of a container lists what is found in it if those of its parts do. -/

section

variable {depth : Nat} {input path condition : Expr} {expected text : String} {env : Env}

/-- The loop over the items of an array. -/
theorem validateArray_lists (hready : scope.Ready final base) (hcollects : base.Collects errors)
    {element : Ty}
    (hgives : Gives final (scope.validateKind (.array element) depth input path expected) condition)
    (hinput : Stable world env depth input value) (hpath : SpellsBelow world env depth path text)
    (htraces : Traces world start steps text) (henv : base.Extends env) (hvalue : value.WellFormed)
    (helement : ∀ body,
      Gives final (scope.validate element (depth + 1) (.identifier (bindingName depth "elem"))
        (indexed path (.identifier (bindingName depth "index"))) (scope.expected element)) body →
      ∀ inner item position reached, item ∈ value.values → base.Extends inner →
        Stable world inner (depth + 1) (.identifier (bindingName depth "elem")) item →
        SpellsBelow world inner (depth + 1)
          (indexed path (.identifier (bindingName depth "index"))) reached →
        Traces world start (steps ++ [.index position]) reached →
        scope.Validates world inner errors start body item element.kind (steps ++ [.index position])
          (scope.expected element)) :
    scope.Validates world env errors start condition value (.array element) steps expected := by
  have heval := hinput.evaluates
  rw [validateKind] at hgives
  obtain ⟨body, hbody, hgives⟩ := hgives.of_bind scope.definitions fun item => by
    split <;> exact .pure _
  rw [← hgives.of_ite_pure]
  have hiff : (∃ items, value = .array items) ↔ shape? (.array element) value = some true := by
    cases value <;> simp [shape?]
  have htarget : shape? (.array element) value = some true →
      Evaluates world env input (.data (.array value.values)) := by
    intro hright
    obtain ⟨items, rfl⟩ := hiff.mpr hright
    exact heval
  refine .loop ((Decides.isArray (hready.standard.extends henv _ _ rfl) heval).congr hiff)
    (by cases value <;> simp [shape?]) (hcollects.extends henv) hpath.evaluates htraces
      heval htarget
    fun hright => ?_
  obtain ⟨items, rfl⟩ := hiff.mpr hright
  have hitems : ∀ entry ∈ items.zipIdx, ∃ listed, scope.Listed world start entry.1 element.kind
      (steps ++ [.index entry.2]) (scope.expected element) listed ∧
        Lists world (.bindAll [bindingName depth "elem", bindingName depth "index"]
          [.data entry.1, .data (.number (Float.ofNat entry.2)), .data (.array items)] env) errors
            body listed := by
    intro entry hentry
    have hbound := (List.snd_lt_of_mem_zipIdx hentry).trans_le (Nat.add_zero _).le
    obtain ⟨hagrees, helem, hindex⟩ := itemAt_scope world env depth entry.1 entry.2 items
    exact helement body hbody _ _ _ _ (List.fst_mem_of_mem_zipIdx hentry)
      (henv.agrees hagrees) helem
      ((hpath.inside hagrees (Nat.le_succ depth)).indexed rfl hindex rfl)
      (htraces.item (hbound.trans hvalue.length_lt))
  obtain ⟨listeds, hlisteds⟩ := exists_forall₂ hitems
  exact ⟨listeds, List.forall₂_map_left_iff.mpr (hlisteds.imp fun _ _ => And.left),
    hlisteds.imp fun _ _ => And.right⟩

/-- The items of a tuple, after its length. -/
theorem validateTuple_lists (hready : scope.Ready final base) (hcollects : base.Collects errors)
    {elements : List Ty}
    (hgives : Gives final (scope.validateKind (.tuple elements) depth input path expected)
      condition)
    (hinput : Stable world env depth input value) (hpath : SpellsBelow world env depth path text)
    (htraces : Traces world start steps text) (henv : base.Extends env) (hvalue : value.WellFormed)
    (helements : ∀ conditions,
      Gives final (scope.validateElements elements depth input path 0) conditions →
      ∀ items, value = .array items → items.length = elements.length →
        scope.ValidatesEach world env errors start conditions steps
          (elementParts items elements 0)) :
    scope.Validates world env errors start condition value (.tuple elements) steps expected := by
  have heval := hinput.evaluates
  rw [validateKind] at hgives
  obtain ⟨conditions, hconditions, rfl⟩ := hgives.of_bind_pure
  have hshape : Decides world env (.conjunction [.isArray input,
      .equals (.natural elements.length) (.property input "length")])
        ((∃ items, value = .array items) ∧ value.values.length = elements.length ∧ True) := by
    refine DecidesAll.conjunction
      (.cons (.isArray (hready.standard.extends henv _ _ rfl) heval) fun harray => ?_)
    obtain ⟨items, rfl⟩ := harray
    exact .cons (.hasLength hvalue.length_lt heval elements.length) fun _ => .nil
  have hiff : (∃ items, value = .array items) ∧ value.values.length = elements.length ∧ True ↔
      shape? (.tuple elements) value = some true := by
    cases value <;> simp [shape?, Data.values]
  refine .combine (hshape.congr hiff) (by cases value <;> simp [shape?]) (hcollects.extends henv)
    hpath.evaluates htraces heval fun hright => ?_
  obtain ⟨⟨items, rfl⟩, hlength, -⟩ := hiff.mpr hright
  exact helements conditions hconditions items rfl hlength

/-- The loop over the keys of a record. -/
theorem validateRecord_lists (hready : scope.Ready final base) (hcollects : base.Collects errors)
    {type : Ty}
    (hgives : Gives final (scope.validateKind (.record type) depth input path expected) condition)
    (hinput : Stable world env depth input value) (hpath : SpellsBelow world env depth path text)
    (htraces : Traces world start steps text) (henv : base.Extends env)
    (hvalues : value.isObject = true → ∀ body,
      Gives final (scope.validate type (depth + 1)
        (.element input (.identifier (bindingName depth "key")))
        (indexed path (.standardJson (.identifier (bindingName depth "key"))))
        (scope.expected type)) body →
      ∀ inner key reached, base.Extends inner →
        Stable world inner (depth + 1) (.element input (.identifier (bindingName depth "key")))
          (world.get value key) →
        SpellsBelow world inner (depth + 1)
          (indexed path (.standardJson (.identifier (bindingName depth "key")))) reached →
        Traces world start (steps ++ [.key key]) reached →
        scope.Validates world inner errors start body (world.get value key) type.kind
          (steps ++ [.key key]) (scope.expected type)) :
    scope.Validates world env errors start condition value (.record type) steps expected := by
  have heval := hinput.evaluates
  rw [validateKind] at hgives
  obtain ⟨body, hbody, hgives⟩ := hgives.of_bind scope.definitions fun item => by
    split <;> exact .pure _
  rw [← hgives.of_ite_pure]
  have hiff : value.isObject = true ↔ shape? (.record type) value = some true := by simp [shape?]
  refine .loop ((Decides.isObject heval).congr hiff) (by simp [shape?]) (hcollects.extends henv)
    hpath.evaluates htraces heval
    (fun hright => .keys (hready.standard.extends henv _ _ rfl) heval (hiff.mpr hright))
    fun hright => ?_
  have hobject := hiff.mpr hright
  have hkeys : ∀ key ∈ value.keys, ∃ listed, scope.Listed world start (world.get value key)
      type.kind (steps ++ [.key key]) (scope.expected type) listed ∧
        Lists world (.bind (bindingName depth "key") (.data (.string key)) env) errors body
          listed := by
    intro key hkey
    obtain ⟨hagrees, hbound⟩ := key_scope world env depth key
    have hquoted := standardJson_stable hready.standard (henv.agrees hagrees) hbound
    have hstep := htraces.step (.key key)
    rw [ValueStep.text, String.append_assoc] at hstep
    exact hvalues hobject body hbody _ key _ (henv.agrees hagrees)
      ((hinput.inside hagrees (Nat.le_succ depth)).key hbound (Data.isPresent_of_isObject hobject))
      ((hpath.inside hagrees (Nat.le_succ depth)).indexed rfl hquoted rfl) hstep
  obtain ⟨listeds, hlisteds⟩ := exists_forall₂ hkeys
  refine ⟨listeds, List.forall₂_map_left_iff.mpr (hlisteds.imp fun _ _ => And.left), ?_⟩
  have hlists : List.Forall₂ (fun item listed => Lists world
      (.bind (bindingName depth "key") (.data item) env) errors body listed)
        (value.keys.map .string) listeds :=
    List.forall₂_map_left_iff.mpr (hlisteds.imp fun _ _ => And.right)
  rw [← List.zipIdx_map_fst 0 (value.keys.map Data.string)] at hlists
  exact List.forall₂_map_left_iff.mp hlists

end

/-! ## All types -/

mutual

/-- The validator of a type lists what the traversal of the value finds. -/
theorem validate_lists (hready : scope.Ready final base) (hcollects : base.Collects errors)
    (type : Ty) {depth : Nat} {input path : Expr} {expected text : String} {steps : List ValueStep}
    {env : Env} {value : Data} {condition : Expr}
    (hgives : Gives final (scope.validate type depth input path expected) condition)
    (hinput : Stable world env depth input value) (hpath : SpellsBelow world env depth path text)
    (htraces : Traces world start steps text) (henv : base.Extends env) (hvalue : value.WellFormed)
    (hhelpers : scope.HelpersList world final base errors start type.direct type.references value) :
    scope.Validates world env errors start condition value type.kind steps expected := by
  cases type with
  | mk kind _ =>
    rw [validate] at hgives
    rw [Ty.direct, Ty.references] at hhelpers
    exact validateKind_lists hready hcollects kind hgives hinput hpath htraces henv hvalue hhelpers

/-- The validator of a kind of type lists what the traversal of the value finds. -/
theorem validateKind_lists (hready : scope.Ready final base) (hcollects : base.Collects errors)
    (kind : TyKind) {depth : Nat} {input path : Expr} {expected text : String}
    {steps : List ValueStep} {env : Env} {value : Data} {condition : Expr}
    (hgives : Gives final (scope.validateKind kind depth input path expected) condition)
    (hinput : Stable world env depth input value) (hpath : SpellsBelow world env depth path text)
    (htraces : Traces world start steps text) (henv : base.Extends env) (hvalue : value.WellFormed)
    (hhelpers : scope.HelpersList world final base errors start kind.direct kind.references value) :
    scope.Validates world env errors start condition value kind steps expected := by
  have hreporter := hcollects.extends henv
  have heval := hinput.evaluates
  cases kind with
  | reference name =>
    rw [validateKind] at hgives
    obtain ⟨call, hcall, rfl⟩ := hgives.of_bind_pure
    exact callHelper_lists hready expected hcall heval hpath.evaluates htraces henv
      (hhelpers.same name (by simp [TyKind.direct])).2
  | array element =>
    refine validateArray_lists hready hcollects hgives hinput hpath htraces henv hvalue ?_
    intro body hbody inner item position reached hitem hinner helem hspells hreached
    exact validate_lists hready hcollects element hbody helem hspells hreached hinner
      (hvalue.values hitem) (hhelpers.part (world.rank_value value item hitem) (hvalue.values hitem)
        (List.Subset.refl _))
  | tuple elements =>
    refine validateTuple_lists hready hcollects hgives hinput hpath htraces henv hvalue ?_
    rintro conditions hconditions items rfl hlength
    exact validateElements_lists hready hcollects elements 0 hconditions hinput hpath htraces henv
      hvalue (by rw [Nat.zero_add]; exact hlength.symm)
      (hhelpers.mono (List.nil_subset _) (List.Subset.refl _))
  | object properties =>
    rw [validateKind] at hgives
    obtain ⟨conditions, hconditions, rfl⟩ := hgives.of_bind_pure
    have hiff : value.isObject = true ↔ shape? (.object properties) value = some true := by
      simp [shape?]
    refine .combine ((Decides.isObject heval).congr hiff) (by simp [shape?]) hreporter
      hpath.evaluates htraces heval fun hright => ?_
    exact validateProperties_lists hready hcollects properties hconditions hinput hpath htraces henv
      hvalue (hiff.mpr hright) (hhelpers.mono (List.nil_subset _) (List.Subset.refl _))
  | record type =>
    refine validateRecord_lists hready hcollects hgives hinput hpath htraces henv ?_
    intro hobject body hbody inner key reached hinner hentry hspells hreached
    have hwf : (world.get value key).WellFormed := World.get_wellFormed hvalue key
    exact validate_lists hready hcollects type hbody hentry hspells hreached hinner hwf
      (hhelpers.part (World.rank_get hobject key) hwf (List.Subset.refl _))
  | _ =>
    -- Everything else is checked as a whole.
    rw [validateKind] at hgives
    · obtain ⟨inner, hinner, hgives⟩ := hgives.of_bind scope.definitions fun inner => by
        split <;> exact .pure _
      have hdecides := checkKind_decides hready _ hinner hinput henv hvalue
        (hhelpers.imp fun _ _ => And.left)
      rw [← hgives.of_ite_pure]
      exact whole_lists expected rfl rfl hdecides hreporter heval hpath.evaluates htraces
    all_goals
      intros
      contradiction

/-- The validators of the elements of a tuple list what is found in the items from a position on. -/
theorem validateElements_lists (hready : scope.Ready final base)
    (hcollects : base.Collects errors) (elements : List Ty) (position : Nat) {depth : Nat}
    {input path : Expr} {text : String} {steps : List ValueStep} {env : Env} {items : List Data}
    {conditions : List Expr}
    (hgives : Gives final (scope.validateElements elements depth input path position) conditions)
    (hinput : Stable world env depth input (.array items))
    (hpath : SpellsBelow world env depth path text) (htraces : Traces world start steps text)
    (henv : base.Extends env) (hvalue : (Data.array items).WellFormed)
    (hlength : position + elements.length = items.length)
    (hhelpers : scope.HelpersList world final base errors start [] (Ty.referencesOf elements)
      (.array items)) :
    scope.ValidatesEach world env errors start conditions steps
      (elementParts (items.drop position) elements position) := by
  cases elements with
  | nil =>
    rw [validateElements] at hgives
    rw [← hgives.of_pure]
    refine ⟨[], ?_, .nil⟩
    rw [elementParts, List.zip_nil_right]
    exact .nil
  | cons element rest =>
    rw [validateElements] at hgives
    obtain ⟨item, hitem, hgives⟩ := hgives.of_bind scope.definitions fun _ =>
      .bind (validateElements_asking scope rest _ _ _ _) fun _ => .pure _
    obtain ⟨others, hothers, rfl⟩ := hgives.of_bind_pure
    rw [List.length_cons] at hlength
    have hposition : position < items.length := by omega
    have hmem := List.getElem_mem hposition
    have hinner := hinput.position position
    rw [World.item_ofNat hvalue.length_lt hposition] at hinner
    rw [Ty.referencesOf] at hhelpers
    obtain ⟨listed, hlisted, hlists⟩ := validate_lists hready hcollects element hitem hinner
      (hpath.literal _) (htraces.step (.index position)) henv (hvalue.values hmem)
      (hhelpers.part (World.rank_item hmem) (hvalue.values hmem) (List.subset_append_left _ _))
    obtain ⟨listeds, hlisteds, hrest⟩ := validateElements_lists hready hcollects rest (position + 1)
      hothers hinput hpath htraces henv hvalue (by omega)
      (hhelpers.mono (List.nil_subset _) (List.subset_append_right _ _))
    rw [List.drop_eq_getElem_cons hposition]
    exact ⟨listed :: listeds, .cons hlisted hlisteds, .consUnlessTrue hlists hrest⟩

/-- The validators of properties list what is found in those that are not left out. -/
theorem validateProperties_lists (hready : scope.Ready final base)
    (hcollects : base.Collects errors) (properties : List TyProperty) {depth : Nat}
    {input path : Expr} {text : String} {steps : List ValueStep} {env : Env} {value : Data}
    {conditions : List Expr}
    (hgives : Gives final (scope.validateProperties properties depth input path) conditions)
    (hinput : Stable world env depth input value) (hpath : SpellsBelow world env depth path text)
    (htraces : Traces world start steps text) (henv : base.Extends env) (hvalue : value.WellFormed)
    (hobject : value.isObject = true)
    (hhelpers : scope.HelpersList world final base errors start []
      (TyProperty.referencesOf properties)
      value) :
    scope.ValidatesEach world env errors start conditions steps
      (properties.filterMap (world.propertyPart? value)) := by
  cases properties with
  | nil =>
    rw [validateProperties] at hgives
    rw [← hgives.of_pure]
    exact ⟨[], .nil, .nil⟩
  | cons property rest =>
    obtain ⟨name, type, optional, description⟩ := property
    rw [validateProperties] at hgives
    obtain ⟨item, hitem, hgives⟩ := hgives.of_bind scope.definitions fun _ =>
      .bind (validateProperties_asking scope rest _ _ _) fun _ => .pure _
    obtain ⟨others, hothers, rfl⟩ := hgives.of_bind_pure
    have hmember := hinput.member (Data.isPresent_of_isObject hobject) name
    have hwf : (world.get value name).WellFormed := World.get_wellFormed hvalue name
    rw [TyProperty.referencesOf] at hhelpers
    have hstep := htraces.step (.ofName name)
    rw [ValueStep.text_ofName] at hstep
    obtain ⟨listed, hlisted, hlists⟩ := validate_lists hready hcollects type hitem hmember
      (hpath.literal _) hstep henv hwf
      (hhelpers.part (World.rank_get hobject name) hwf (List.subset_append_left _ _))
    obtain ⟨listeds, hlisteds, hrest⟩ :=
      validateProperties_lists hready hcollects rest hothers hinput
      hpath htraces henv hvalue hobject
      (hhelpers.mono (List.nil_subset _) (List.subset_append_right _ _))
    have hundefined :=
      Decides.isUndefined ((hready.standard.extends henv) _ _ rfl) hmember.evaluates
    by_cases hskipped : optional = true ∧ world.get value name = .undefined
    · obtain ⟨rfl, habsent⟩ := hskipped
      rw [List.filterMap_cons_none (World.propertyPart?_skipped rfl habsent)]
      refine ⟨listeds, hlisteds, ?_⟩
      split
      · exact hrest
      · have hnothing : Lists world env errors
            (.disjunction [.equals .undefined (.member input name), item]) [] :=
          .disjunction hundefined (fun _ => rfl) (absurd habsent)
        exact .cons hnothing hrest
    · have hpart : world.propertyPart? value (.mk name type optional description) = some _ :=
        World.propertyPart?_present hskipped
      rw [List.filterMap_cons_some hpart]
      refine ⟨listed :: listeds, .cons hlisted hlisteds, ?_⟩
      rw [List.flatten_cons]
      split
      · rename_i hliteral
        rw [Expr.isBoolean_eq.mp hliteral] at hlists
        rw [hlists.eq_nil]
        exact hrest
      · refine .cons ?_ hrest
        cases optional with
        | false => exact hlists
        | true =>
          exact .disjunction hundefined (fun habsent => absurd ⟨rfl, habsent⟩ hskipped)
            fun _ => hlists

end

/-- One call of a validating helper: its body lists what the traversal under the definition
finds. -/
theorem HelperLists.of_definition (hready : scope.Ready final base)
    (hcollects : base.Collects errors) {name : String} (hvalue : value.WellFormed)
    (hhelpers : ∀ definition, scope.definitions.get? name = some definition →
      scope.HelpersList world final base errors start definition.direct definition.references
        value) :
    scope.HelperLists world final base errors start name value := by
  intro index function hrequested hlookup steps path expected htraces
  obtain ⟨definition, params, body, hdefinition, hgives, hlookup'⟩ := hready.links _ hrequested
  obtain rfl : function = .closure params (.concise body) base :=
    Option.some.inj (hlookup.symm.trans hlookup')
  obtain ⟨condition, hcondition, hclosure⟩ := Gives.of_map hgives
  cases hclosure
  have hpath :=
    Env.lookup?_bind_self "path" (.data (.string path)) (.bind "input" (.data value) base)
  have hinput : Env.lookup? (.bind "path" (.data (.string path)) (.bind "input" (.data value) base))
      "input" = some (.data value) := by
    rw [Env.lookup?_bind_of_ne (by decide), Env.lookup?_bind_self]
  obtain ⟨listed, hlisted, hlists⟩ := validate_lists hready hcollects definition hcondition
    (.bound hinput (not_boundFrom_parameter (by simp [parameters])))
    (.bound hpath (not_boundFrom_parameter (by simp [parameters]))) htraces
    ((helperInput_extends (.data value)).bind (.inl (by simp [parameters])) _) hvalue
    (hhelpers definition hdefinition)
  exact ⟨listed, .reference hdefinition hlisted, fun heap => apply_closure (hlists heap).yields⟩

/-- The validator of a guarded type lists what the traversal of the value finds. -/
theorem validate_lists_of_guarded (hready : scope.Ready final base)
    (hcollects : base.Collects errors) {type : Ty} (hguarded : scope.definitions.Guarded type)
    {depth : Nat} {input path condition : Expr} {expected text : String} {env : Env}
    (hgives : Gives final (scope.validate type depth input path expected) condition)
    (hinput : Stable world env depth input value) (hpath : SpellsBelow world env depth path text)
    (henv : base.Extends env) (hvalue : value.WellFormed) :
    scope.Validates world env errors text condition value type.kind [] expected :=
  validate_lists hready hcollects type hgives hinput hpath .start henv hvalue
    (hguarded.helpersHold (fun _ _ _ hvalue hhelpers =>
      ⟨.of_definition hready hvalue fun definition hdefinition =>
          (hhelpers definition hdefinition).imp fun _ _ => And.left,
        .of_definition hready hcollects hvalue hhelpers⟩) hvalue)

/-- The validator of a guarded type tells whether the value matches it, and adds no mismatch exactly
when it does. -/
theorem validate_reports_of_guarded (hready : scope.Ready final base)
    (hcollects : base.Collects errors) {type : Ty} (hguarded : scope.definitions.Guarded type)
    {depth : Nat} {input path condition : Expr} {expected text : String} {env : Env}
    (hgives : Gives final (scope.validate type depth input path expected) condition)
    (hinput : Stable world env depth input value) (hpath : SpellsBelow world env depth path text)
    (henv : base.Extends env) (hvalue : value.WellFormed) :
    ∃ (result : Bool) (mismatches : List Data),
      (result = true ↔ Matches world scope.definitions value type.kind) ∧
      (mismatches = [] ↔ result = true) ∧
      ∀ heap, Tests world env heap condition result (heap.report errors mismatches) := by
  obtain ⟨listed, hlisted, hlists⟩ :=
    validate_lists_of_guarded hready hcollects hguarded hgives hinput hpath henv hvalue
  refine ⟨listed.isEmpty, listed, ?_, List.isEmpty_iff.symm, hlists⟩
  rw [List.isEmpty_iff, hlisted.nil_iff hvalue]

end Scope

end TypedRoutes
