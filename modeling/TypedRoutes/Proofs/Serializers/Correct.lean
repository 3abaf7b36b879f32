import TypedRoutes.Proofs.Checks.Correct
import TypedRoutes.Proofs.Serializers.Choices
import TypedRoutes.Proofs.Serializers.Inputs

/-!
# Serializers are correct

A generated serializer spells a JSON text of what of its input belongs to the type, for every value
that matches. By induction on the type, where the calls of helpers are known to do so; and from that
for the helpers of all names that a guarded type reaches.
-/

namespace TypedRoutes

namespace Runtime

/-- An object from outside whose two functions give JSON texts of their arguments. -/
structure Encodes (world : World) (object : Data) : Prop where
  present : object.isPresent = true
  string : ∃ function, world.get object "string" = .function (.host function) ∧
    ∀ text, ∃ json, world.call function object [.string text] = .ok (.string json) ∧
      JsonText json (.string text)
  number : ∃ function, world.get object "number" = .function (.host function) ∧
    ∀ value, value.isFinite = true → ∃ json,
      world.call function object [.number value] = .ok (.string json) ∧
        JsonText json (.number value)

end Runtime

namespace Scope

open Generate TypedRoutes.Runtime

variable (world : World) (scope : Scope) (final : Registry) (base : Env)

/-- The factory stands for such an object where its names are free, they are free where the helpers
are declared, and the helpers take none of them. -/
structure Serves : Prop where
  object : ∃ object, Encodes world object ∧ Evaluates world .empty scope.factory (.data object)
  free : ∀ name ∈ scope.factory.identifiers, base.lookup? name = none
  input : "input" ∉ scope.factory.identifiers
  spares : ∀ index name definition text, ⟨.serialize, index, name⟩ ∈ final.requested →
    scope.definitions.get? name = some definition →
    Gives final (scope.serialize definition 0 Scope.input) text → Spares scope.factory text

/-- What is known of the serializing helper of a name: every call of it with a value that matches
gives a JSON text. -/
structure HelperSerializes (name : String) (value : Data) : Prop where
  defined : (scope.definitions.get? name).isSome = true
  present : Matches world scope.definitions value (.reference name) → value ≠ .undefined
  gives : Matches world scope.definitions value (.reference name) → ∀ index function,
    ⟨.serialize, index, name⟩ ∈ final.requested →
    base.lookup? (HelperKind.serialize.helperName index) = some function →
    ∃ image text, Projects world scope.definitions value (.reference name) image ∧
      JsonText text image ∧ ∀ heap,
        (apply world function (.data .undefined) [.data value]).Yields heap
          (.data (.string text)) heap

/-- The helpers are correct that the serializer of a type calls. -/
abbrev HelpersSerialize (direct references : List String) (value : Data) : Prop :=
  HelpersHold world (fun name value => scope.HelperDecides world final base name value ∧
    scope.HelperSerializes world final base name value) direct references value

variable {world scope final base} {value : Data}

/-- Helpers of which this is known decide as well. -/
theorem HelpersSerialize.decide {direct references : List String}
    (h : scope.HelpersSerialize world final base direct references value) :
    scope.HelpersDecide world final base direct references value :=
  h.imp fun _ _ hboth => hboth.1

/-- The function for strings of the factory gives a JSON text of its argument. -/
theorem runtime_string {env : Env} {input : Expr} {text : String} {object : Data}
    (hencodes : Encodes world object)
    (hfactory : Evaluates world env scope.factory (.data object))
    (hinput : Evaluates world env input (.data (.string text))) :
    ∃ json, JsonText json (.string text) ∧
      Spells world env (.invoke (scope.runtime "string") [input]) json := by
  obtain ⟨function, hfunction, hcall⟩ := hencodes.string
  obtain ⟨json, hjson, htext⟩ := hcall text
  exact ⟨json, htext, .of_evaluates rfl (.host hfactory hencodes.present hfunction hinput hjson)⟩

/-- The function for numbers of the factory gives a JSON text of a finite argument. -/
theorem runtime_number {env : Env} {input : Expr} {number : Float} {object : Data}
    (hencodes : Encodes world object)
    (hfactory : Evaluates world env scope.factory (.data object))
    (hinput : Evaluates world env input (.data (.number number)))
    (hfinite : number.isFinite = true) :
    ∃ json, JsonText json (.number number) ∧
      Spells world env (.invoke (scope.runtime "number") [input]) json := by
  obtain ⟨function, hfunction, hcall⟩ := hencodes.number
  obtain ⟨json, hjson, htext⟩ := hcall number hfinite
  exact ⟨json, htext, .of_evaluates rfl (.host hfactory hencodes.present hfunction hinput hjson)⟩

/-- A value that matches a serializable type is not undefined. -/
theorem ne_undefined_of_matches {kind : TyKind} (hkind : kind.Serializable)
    (hmatches : Matches world scope.definitions value kind)
    (hhelpers : ∀ name ∈ kind.direct, scope.HelperSerializes world final base name value) :
    value ≠ .undefined := by
  induction hkind with
  | union each ih =>
    cases hmatches with
    | @union _ _ member mem one =>
      refine ih member mem one fun name hname => hhelpers name ?_
      rw [TyKind.direct, Ty.directOf_eq_flatMap]
      refine List.mem_flatMap.mpr ⟨member, mem, ?_⟩
      obtain ⟨kind, aliasName⟩ := member
      exact hname
  | reference name =>
    exact (hhelpers name (by simp [TyKind.direct])).present hmatches
  | _ =>
    rintro rfl
    cases hmatches
    try contradiction

/-- A property whose type does not admit absence has a serializable type. -/
theorem serializable_of_alternatives {type : Ty} (habsence : type.admitsAbsence = false)
    (halternatives : ∀ alternative ∈ type.alternatives,
      alternative.isUndefined = false → alternative.kind.Serializable) :
    type.kind.Serializable := by
  obtain ⟨kind, aliasName⟩ := type
  cases kind with
  | union members =>
    have hdefined : ∀ member ∈ members, member.isUndefined = false := by
      simpa [Ty.admitsAbsence, Ty.kind] using habsence
    exact .union fun member hmem => halternatives member hmem (hdefined member hmem)
  | undefined => cases habsence
  | void => cases habsence
  | _ => exact halternatives _ List.mem_cons_self rfl

/-- Only undefined matches one of the types that hold nothing else. -/
theorem not_matches_of_isUndefined {type : Ty} (hundefined : type.isUndefined = true)
    (hvalue : value ≠ .undefined) : ¬ Matches world scope.definitions value type.kind := by
  obtain ⟨kind, aliasName⟩ := type
  intro hmatches
  cases kind <;> cases hundefined <;> cases hmatches <;> exact hvalue rfl

/-- The call of a helper that serializes. -/
theorem callHelper_correct (hready : scope.Ready final base) {env : Env} {input : Expr}
    {name : String} {call : Option Expr}
    (hgives : Gives final (scope.callHelper .serialize name [input]) call)
    (hinput : Evaluates world env input (.data value)) (henv : base.Extends env)
    (hmatches : Matches world scope.definitions value (.reference name))
    (hhelper : scope.HelperSerializes world final base name value) :
    Serializes world scope.definitions env (call.getD (.standardJson input)) value
      (.reference name) := by
  rcases hgives.of_callHelper with ⟨hmissing, -⟩ | ⟨definition, index, -, hrequested, rfl⟩
  · have hdefined := hhelper.defined
    rw [hmissing] at hdefined
    cases hdefined
  · obtain ⟨_, params, body, -, -, hlookup⟩ := hready.links _ hrequested
    obtain ⟨image, text, hprojects, hjson, hcall⟩ :=
      hhelper.gives hmatches index _ hrequested hlookup
    have hname := (henv _ (HelperKind.not_local_helperName .serialize index)).trans hlookup
    refine ⟨image, text, hprojects, hjson, .of_evaluates rfl fun heap => ?_⟩
    exact yields_invoke (evalCallee_identifier (Evaluates.bound hname heap))
      (evalAll_cons (hinput heap) evalAll_nil) (hcall heap)

/-- Where a property may be absent, one of the entries tests it. -/
theorem mentions_entries (properties : List TyProperty) {depth : Nat} {input : Expr}
    {entries : List Expr} (hgives : Gives final
      (scope.serializeEntries properties depth input) entries)
    (habsent : properties.any TyProperty.mayBeAbsent = true) :
    input.identifiers ⊆ Expr.identifiersOf entries := by
  induction properties generalizing entries with
  | nil => cases habsent
  | cons property rest ih =>
    obtain ⟨name, type, optional, description⟩ := property
    rw [serializeEntries] at hgives
    obtain ⟨part, -, hgives⟩ := hgives.of_bind scope.definitions fun _ =>
      .bind (serializeEntries_asking scope rest _ _) fun _ => .pure _
    obtain ⟨others, hothers, rfl⟩ := hgives.of_bind_pure
    rw [Expr.identifiersOf]
    rcases Bool.or_eq_true_iff.mp habsent with hfirst | hrest
    · have hfirst : (optional || type.admitsAbsence) = true := hfirst
      rw [if_pos hfirst, Expr.identifiers]
      refine List.subset_append_of_subset_left _ (List.subset_append_of_subset_left _ ?_)
      simp [Expr.equals, Expr.identifiers]
    · exact List.subset_append_of_subset_right _ (ih hothers hrest)

/-! ## One kind of type

The serializer of one kind is right if those of its parts are. -/

section

variable {aliasName : Option String} {depth : Nat} {input expr : Expr} {env : Env}

/-- A string or a number is given to the factory, and a boolean value to the standard conversion. -/
theorem serializePrimitive_correct (hready : scope.Ready final base)
    (hserves : scope.Serves world final base) {kind : TyKind} (hprimitive : kind.isPrimitive = true)
    (hgives : Gives final (scope.serializeKind kind aliasName depth input) expr)
    (hinput : scope.Stands world base env depth input value) (hkind : kind.Serializable)
    (hmatches : Matches world scope.definitions value kind) :
    Serializes world scope.definitions env expr value kind := by
  obtain ⟨object, hencodes, hfactory⟩ := hserves.object
  have hhere := hfactory.elsewhere hinput.sees.free
  have heval := hinput.evaluates
  cases kind with
  | string =>
    rw [serializeKind] at hgives
    rw [← hgives.of_pure]
    cases hmatches with
    | string text =>
      obtain ⟨json, hjson, hspells⟩ := runtime_string hencodes hhere heval
      exact ⟨_, json, .string text, hjson, hspells⟩
  | number =>
    rw [serializeKind] at hgives
    rw [← hgives.of_pure]
    cases hmatches with
    | @number number finite =>
      obtain ⟨json, hjson, hspells⟩ := runtime_number hencodes hhere heval finite
      exact ⟨_, json, .number number, hjson, hspells⟩
  | boolean =>
    rw [serializeKind] at hgives
    rw [← hgives.of_pure]
    cases hmatches with
    | boolean flag =>
      have hfree := hready.standard.extends hinput.helpers
      have htext := Evaluates.booleanText (hfree _ _ rfl) heval
      exact ⟨_, _, .boolean flag, .boolean flag, .of_evaluates rfl htext⟩
  | bigInt => cases hkind
  | _ => cases hprimitive

/-- A literal is written as the text that its only value has. -/
theorem serializeLiteral_correct {kind : TyKind} (hliteral : kind.isLiteral = true)
    (hgives : Gives final (scope.serializeKind kind aliasName depth input) expr)
    (hkind : kind.Serializable) (hmatches : Matches world scope.definitions value kind) :
    Serializes world scope.definitions env expr value kind := by
  cases kind with
  | literalString text =>
    rw [serializeKind] at hgives
    rw [← hgives.of_pure]
    cases hmatches with
    | literalString => exact ⟨_, _, .literalString text, .string text, .string _⟩
  | literalNumber number =>
    rw [serializeKind] at hgives
    rw [← hgives.of_pure]
    cases hmatches with
    | @literalNumber _ given equal =>
      cases hkind with
      | literalNumber finite =>
        rw [if_pos finite]
        exact ⟨_, _, .literalNumber equal, (JsonText.number finite).number_congr equal, .string _⟩
  | literalBoolean flag =>
    rw [serializeKind] at hgives
    rw [← hgives.of_pure]
    cases hmatches with
    | literalBoolean => exact ⟨_, _, .literalBoolean flag, .boolean flag, .string _⟩
  | _ => cases hliteral

/-- The texts of the items of an array are joined. -/
theorem serializeArray_correct {element : Ty}
    (hgives : Gives final (scope.serializeKind (.array element) aliasName depth input) expr)
    (hinput : scope.Stands world base env depth input value) (hspares : Spares scope.factory expr)
    (hmatches : Matches world scope.definitions value (.array element))
    (helement : ∀ body,
      Gives final (scope.serialize element (depth + 1)
        (.identifier (bindingName depth "elem"))) body →
      ∀ env item, item ∈ value.values →
        scope.Stands world base env (depth + 1) (.identifier (bindingName depth "elem")) item →
        Spares scope.factory body → Matches world scope.definitions item element.kind →
          Serializes world scope.definitions env body item element.kind) :
    Serializes world scope.definitions env expr value (.array element) := by
  rw [serializeKind] at hgives
  obtain ⟨body, hbody, rfl⟩ := hgives.of_bind_pure
  cases hmatches with
  | @array items _ each =>
    have hclosure := hinput.closure hspares (List.Subset.refl _)
    have hitems : ∀ item ∈ items, Serializes world scope.definitions
        (.bind (bindingName depth "elem") (.data item) env) body item element.kind := by
      intro item hitem
      have hstands := hinput.parameter (by simp [binders]) hclosure (hinput.wellFormed.values hitem)
      exact helement body hbody _ item hitem hstands hclosure.lambda_body (each item hitem)
    obtain ⟨images, texts, hprojects, hjsons, hevals⟩ := Serializes.each hitems
    exact ⟨_, _, .array hprojects, .array hjsons,
      .bracketed "[" "]" (hinput.evaluates.map hevals) (mapM_joinText? texts)⟩

/-- The texts of the items of a tuple stand between brackets. -/
theorem serializeTuple_correct {elements : List Ty}
    (hgives : Gives final (scope.serializeKind (.tuple elements) aliasName depth input) expr)
    (hspares : Spares scope.factory expr)
    (hmatches : Matches world scope.definitions value (.tuple elements))
    (helements : ∀ parts, Gives final (scope.serializeElements elements depth input 0) parts →
      (∀ part ∈ parts, Spares scope.factory part) →
      ∀ items, value = .array items → items.length = elements.length →
        (∀ pair ∈ items.zip elements, Matches world scope.definitions pair.1 pair.2.kind) →
        ∃ images texts, ProjectsAll world scope.definitions (items.zip elements) images ∧
          List.Forall₂ JsonText texts images ∧
          Pieces world env (Expr.flatten .plus parts) (listed true texts)) :
    Serializes world scope.definitions env expr value (.tuple elements) := by
  rw [serializeKind] at hgives
  obtain ⟨parts, hparts, rfl⟩ := hgives.of_bind_pure
  cases hmatches with
  | @tuple items _ length each =>
    obtain ⟨images, texts, hprojects, hjsons, hpieces⟩ :=
      helements parts hparts (fun part hmem => hspares.concatenation (by simp [hmem])) items rfl
        length each
    rw [listed_true] at hpieces
    exact ⟨_, _, .tuple length hprojects, .array hjsons, .enclosed "[" "]" hpieces⟩

/-- The members of an object are joined at run time if one of them may be absent, and stand between
braces if not. -/
theorem serializeObject_correct (hready : scope.Ready final base) {properties : List TyProperty}
    (hgives : Gives final (scope.serializeKind (.object properties) aliasName depth input) expr)
    (hinput : scope.Stands world base env depth input value) (hspares : Spares scope.factory expr)
    (hentries : ∀ entries, Gives final (scope.serializeEntries properties depth input) entries →
      (∀ entry ∈ entries, Spares scope.factory entry) →
      ∃ outcomes texts images, entries.length = properties.length ∧
        List.Forall₂ (fun entry outcome => Evaluates world env entry (.data outcome)) entries
          outcomes ∧
        outcomes.filter (fun outcome => !outcome.isUndefined) = texts.map .string ∧
        MemberTexts world scope.definitions value properties texts images)
    (hproperties : (∀ property ∈ properties, property.mayBeAbsent = false) →
      ∀ parts, Gives final (scope.serializeProperties properties depth input true) parts →
      (∀ part ∈ parts, Spares scope.factory part) →
      ∃ texts images, MemberTexts world scope.definitions value properties texts images ∧
        Pieces world env (Expr.flatten .plus parts) (listed true texts)) :
    Serializes world scope.definitions env expr value (.object properties) := by
  rw [serializeKind] at hgives
  split at hgives
  · rename_i habsent
    obtain ⟨entries, hgiven, rfl⟩ := hgives.of_bind_pure
    have hmentions := mentions_entries properties hgiven habsent
    obtain ⟨outcomes, texts, images, hlength, hevals, hfilter, hmembers⟩ :=
      hentries entries hgiven (hinput.entries hspares hmentions)
    have hne : entries ≠ [] := by
      rintro rfl
      obtain rfl := List.length_eq_zero_iff.mp hlength.symm
      simp at habsent
    have hpresent := Evaluates.present hne (hready.standard.extends hinput.helpers) hevals
    rw [hfilter] at hpresent
    exact hmembers.object (.bracketed "\x7b" "\x7d" hpresent (mapM_joinText? texts))
  · rename_i hpresent
    obtain ⟨parts, hgiven, rfl⟩ := hgives.of_bind_pure
    obtain ⟨texts, images, hmembers, hpieces⟩ := hproperties (by simpa using hpresent) parts hgiven
      fun part hmem => hspares.concatenation (by simp [hmem])
    rw [listed_true] at hpieces
    exact hmembers.object (.enclosed "\x7b" "\x7d" hpieces)

/-- The members of a record are joined, one for every key. -/
theorem serializeRecord_correct (hready : scope.Ready final base)
    (hserves : scope.Serves world final base) {type : Ty}
    (hgives : Gives final (scope.serializeKind (.record type) aliasName depth input) expr)
    (hinput : scope.Stands world base env depth input value) (hspares : Spares scope.factory expr)
    (hmatches : Matches world scope.definitions value (.record type))
    (hvalues : ∀ body,
      Gives final (scope.serialize type (depth + 1)
        (.element input (.identifier (bindingName depth "key")))) body →
      ∀ env item, item ∈ value.values →
        scope.Stands world base env (depth + 1)
          (.element input (.identifier (bindingName depth "key"))) item →
        Spares scope.factory body → Matches world scope.definitions item type.kind →
          Serializes world scope.definitions env body item type.kind) :
    Serializes world scope.definitions env expr value (.record type) := by
  rw [serializeKind] at hgives
  obtain ⟨body, hbody, rfl⟩ := hgives.of_bind_pure
  cases hmatches with
  | record shape each =>
    obtain ⟨object, hencodes, hfactory⟩ := hserves.object
    have hclosure := hinput.closure hspares (by
      simp [Expr.invoke, Expr.identifiers, Expr.identifiersOf])
    have hkeys : ∀ key ∈ value.keys, ∃ image text,
        Projects world scope.definitions (world.get value key) type.kind image ∧
        MemberText text (key, image) ∧
        Evaluates world (.bind (bindingName depth "key") (.data (.string key)) env)
          (Expr.concatenation [.invoke (scope.runtime "string")
            [.identifier (bindingName depth "key")], .string ":", body])
          (.data (.string text)) := by
      intro key hmem
      have hname := hinput.parameter (by simp [binders]) hclosure (.string key)
      have hitem : world.get value key ∈ value.values := world.get_key_mem hinput.wellFormed hmem
      have hinner := hinput.key (by simp [binders]) shape hclosure key
      obtain ⟨json, hjson, hspells⟩ :=
        runtime_string hencodes (hfactory.elsewhere hname.sees.free) hname.evaluates
      obtain ⟨image, text, hprojects, htext, hpart⟩ := hvalues body hbody _ _ hitem hinner
        (hclosure.lambda_body.concatenation (by simp)) (each _ hitem)
      exact ⟨image, _, hprojects, ⟨json, text, rfl, hjson, htext⟩,
        (hspells.member hpart.pieces).evaluates⟩
    obtain ⟨images, texts, hprojects, hmembers, hevals⟩ := Serializes.eachKey hkeys
    rw [world.map_get_keys hinput.wellFormed] at hprojects
    have hfree := hready.standard.extends hinput.helpers
    exact ⟨_, _, .record hprojects, .object hmembers, .bracketed "\x7b" "\x7d"
      ((Evaluates.keys (hfree _ _ rfl) hinput.evaluates shape).map hevals) (mapM_joinText? texts)⟩

end

/-! ## Induction on the type -/

mutual

/-- The serializer of a type spells a JSON text of what of the value belongs to it. -/
theorem serialize_correct (hready : scope.Ready final base)
    (hserves : scope.Serves world final base)
    (type : Ty) {depth : Nat} {input : Expr} {env : Env} {value : Data} {expr : Expr}
    (hgives : Gives final (scope.serialize type depth input) expr)
    (hinput : scope.Stands world base env depth input value) (hspares : Spares scope.factory expr)
    (htype : type.kind.Serializable)
    (hmatches : Matches world scope.definitions value type.kind)
    (hhelpers : scope.HelpersSerialize world final base type.direct type.references value) :
    Serializes world scope.definitions env expr value type.kind := by
  cases type with
  | mk kind aliasName =>
    rw [serialize] at hgives
    rw [Ty.direct, Ty.references] at hhelpers
    exact serializeKind_correct hready hserves kind hgives hinput hspares htype hmatches hhelpers

/-- The serializer of a kind of type spells a JSON text of what of the value belongs to it. -/
theorem serializeKind_correct (hready : scope.Ready final base)
    (hserves : scope.Serves world final base)
    (kind : TyKind) {aliasName : Option String} {depth : Nat} {input : Expr} {env : Env}
    {value : Data} {expr : Expr}
    (hgives : Gives final (scope.serializeKind kind aliasName depth input) expr)
    (hinput : scope.Stands world base env depth input value) (hspares : Spares scope.factory expr)
    (hkind : kind.Serializable)
    (hmatches : Matches world scope.definitions value kind)
    (hhelpers : scope.HelpersSerialize world final base kind.direct kind.references value) :
    Serializes world scope.definitions env expr value kind := by
  cases kind with
  | string | number | boolean =>
    exact serializePrimitive_correct hready hserves rfl hgives hinput hkind hmatches
  | literalString _ | literalNumber _ | literalBoolean _ =>
    exact serializeLiteral_correct rfl hgives hkind hmatches
  | null =>
    rw [serializeKind] at hgives
    rw [← hgives.of_pure]
    cases hmatches with
    | null => exact ⟨_, _, .null, .null, .string "null"⟩
  | array element =>
    cases hkind with
    | array heach =>
      refine serializeArray_correct hgives hinput hspares hmatches ?_
      intro body hbody env item hitem hstands hspares hone
      exact serialize_correct hready hserves element hbody hstands hspares heach hone
        (hhelpers.part (world.rank_value value item hitem) hstands.wellFormed (List.Subset.refl _))
  | tuple elements =>
    cases hkind with
    | tuple heach =>
      refine serializeTuple_correct hgives hspares hmatches ?_
      rintro parts hparts hspares items rfl hlength hall
      exact serializeElements_correct hready hserves elements 0 hparts hinput hspares
        (by simpa using hlength.symm) heach hall
        (hhelpers.mono (List.nil_subset _) (List.Subset.refl _))
  | object properties =>
    cases hkind with
    | object halternatives =>
      cases hmatches with
      | object shape each =>
        have hparts := hhelpers.mono (List.nil_subset _) (List.Subset.refl _)
        refine serializeObject_correct hready hgives hinput hspares ?_ ?_
        · exact fun entries hgiven hspares => serializeEntries_correct hready hserves properties
            hgiven hinput hspares shape halternatives each hparts
        · exact fun hpresent parts hgiven hspares => serializeProperties_correct hready hserves
            properties true hgiven hinput hspares shape hpresent halternatives each hparts
  | record type =>
    cases hkind with
    | record heach =>
      refine serializeRecord_correct hready hserves hgives hinput hspares hmatches ?_
      intro body hbody env item hitem hstands hspares hone
      exact serialize_correct hready hserves type hbody hstands hspares heach hone
        (hhelpers.part (world.rank_value value item hitem) hstands.wellFormed (List.Subset.refl _))
  | reference name =>
    rw [serializeKind] at hgives
    obtain ⟨call, hcall, rfl⟩ := hgives.of_bind_pure
    exact callHelper_correct hready hcall hinput.evaluates hinput.helpers hmatches
      (hhelpers.same name (by simp [TyKind.direct])).2
  | union members =>
    rw [serializeKind] at hgives
    obtain ⟨branches, hbranches, rfl⟩ := hgives.of_bind_pure
    cases hkind with
    | union heach =>
      cases hmatches with
      | @union _ _ member mem one =>
        rw [TyKind.direct, TyKind.references] at hhelpers
        have hkept : members.filter (fun member => !(false && member.isUndefined)) = members := by
          simp
        have hall := serializeMembers_correct hready hserves members false hbranches hinput
          (by rwa [hkept]) hhelpers
        rw [hkept] at hall
        exact .choose hspares hall ⟨member, mem, one⟩
  | _ => cases hkind

/-- The texts of the items from a position on, with commas between them. -/
theorem serializeElements_correct (hready : scope.Ready final base)
    (hserves : scope.Serves world final base) (elements : List Ty) (position : Nat) {depth : Nat}
    {input : Expr} {env : Env} {items : List Data} {parts : List Expr}
    (hgives : Gives final (scope.serializeElements elements depth input position) parts)
    (hinput : scope.Stands world base env depth input (.array items))
    (hspares : ∀ part ∈ parts, Spares scope.factory part)
    (hlength : position + elements.length = items.length)
    (heach : ∀ element ∈ elements, element.kind.Serializable)
    (hmatches : ∀ pair ∈ (items.drop position).zip elements,
      Matches world scope.definitions pair.1 pair.2.kind)
    (hhelpers : scope.HelpersSerialize world final base [] (Ty.referencesOf elements)
      (.array items)) :
    ∃ images texts,
      ProjectsAll world scope.definitions ((items.drop position).zip elements) images ∧
      List.Forall₂ JsonText texts images ∧
      Pieces world env (Expr.flatten .plus parts) (listed (decide (position = 0)) texts) := by
  cases elements with
  | nil =>
    rw [serializeElements] at hgives
    rw [← hgives.of_pure, List.zip_nil_right]
    exact ⟨[], [], .nil, .nil, .nil⟩
  | cons element rest =>
    rw [serializeElements] at hgives
    obtain ⟨part, hpart, hgives⟩ := hgives.of_bind scope.definitions fun _ =>
      .bind (serializeElements_asking scope rest _ _ _) fun _ => .pure _
    obtain ⟨others, hothers, hparts⟩ := hgives.of_bind_pure
    rw [List.length_cons] at hlength
    have hposition : position < items.length := by omega
    have hmem := List.getElem_mem hposition
    have hitem := hinput.position hposition
    rw [Ty.referencesOf] at hhelpers
    rw [List.drop_eq_getElem_cons hposition, List.zip_cons_cons] at hmatches ⊢
    obtain ⟨hfirst, hrest⟩ := List.forall_mem_cons.mp hmatches
    obtain ⟨image, text, hprojects, hjson, hspells⟩ :=
      serialize_correct hready hserves element hpart hitem
        (hspares part (by rw [← hparts]; split <;> simp)) (heach element List.mem_cons_self) hfirst
        (hhelpers.part (World.rank_item hmem) hitem.wellFormed (List.subset_append_left _ _))
    obtain ⟨images, texts, hall, hjsons, hpieces⟩ :=
      serializeElements_correct hready hserves rest (position + 1) hothers hinput
        (fun other hother => hspares other (by rw [← hparts]; split <;> simp [hother]))
        (by omega) (fun other hother => heach other (List.mem_cons_of_mem _ hother)) hrest
        (hhelpers.mono (List.nil_subset _) (List.subset_append_right _ _))
    refine ⟨image :: images, text :: texts, .cons hprojects hall, .cons hjson hjsons, ?_⟩
    rw [decide_eq_false (Nat.succ_ne_zero position)] at hpieces
    have hwhole := hspells.pieces.flatten_cons hpieces
    by_cases hzero : position = 0
    · rw [if_pos hzero] at hparts
      rw [← hparts, decide_eq_true hzero, listed]
      simpa using hwhole
    · rw [if_neg hzero] at hparts
      rw [← hparts, decide_eq_false hzero, listed, String.append_assoc]
      exact hwhole.string_cons ","

/-- The members of properties that are all there. -/
theorem serializeProperties_correct (hready : scope.Ready final base)
    (hserves : scope.Serves world final base) (properties : List TyProperty) (first : Bool)
    {depth : Nat}
    {input : Expr} {env : Env} {value : Data} {parts : List Expr}
    (hgives : Gives final (scope.serializeProperties properties depth input first) parts)
    (hinput : scope.Stands world base env depth input value)
    (hspares : ∀ part ∈ parts, Spares scope.factory part)
    (hobject : value.isObject = true)
    (hpresent : ∀ property ∈ properties, property.mayBeAbsent = false)
    (halternatives : ∀ property ∈ properties, ∀ type ∈ property.type.alternatives,
      type.isUndefined = false → type.kind.Serializable)
    (hmatches : ∀ property ∈ properties,
      ¬ (property.optional = true ∧ world.get value property.name = .undefined) →
        Matches world scope.definitions (world.get value property.name) property.type.kind)
    (hhelpers : scope.HelpersSerialize world final base [] (TyProperty.referencesOf properties)
      value) :
    ∃ texts images, MemberTexts world scope.definitions value properties texts images ∧
      Pieces world env (Expr.flatten .plus parts) (listed first texts) := by
  cases properties with
  | nil =>
    rw [serializeProperties] at hgives
    rw [← hgives.of_pure]
    exact ⟨[], [], .nil, .nil⟩
  | cons property rest =>
    obtain ⟨name, type, optional, description⟩ := property
    rw [serializeProperties] at hgives
    obtain ⟨part, hpart, hgives⟩ := hgives.of_bind scope.definitions fun _ =>
      .bind (serializeProperties_asking scope rest _ _ _) fun _ => .pure _
    obtain ⟨others, hothers, rfl⟩ := hgives.of_bind_pure
    obtain ⟨hproperty, hrest⟩ := List.forall_mem_cons.mp hpresent
    obtain ⟨hoptional, habsence⟩ := Bool.or_eq_false_iff.mp hproperty
    obtain ⟨hfirst, hmore⟩ := List.forall_mem_cons.mp hmatches
    obtain ⟨hown, hothersOwn⟩ := List.forall_mem_cons.mp halternatives
    have htype : type.kind.Serializable := serializable_of_alternatives habsence hown
    have hvalueMatches : Matches world scope.definitions (world.get value name) type.kind :=
      hfirst fun h => Bool.false_ne_true (hoptional.symm.trans h.1)
    have hmember := hinput.member hobject name
    rw [TyProperty.referencesOf] at hhelpers
    have hrank : world.rank (world.get value name) < world.rank value :=
      World.rank_get hobject name
    have hinner := hhelpers.part hrank hmember.wellFormed (List.subset_append_left _ _)
    have hdefined : world.get value name ≠ .undefined :=
      ne_undefined_of_matches htype hvalueMatches fun name hname =>
        (hinner.same name (by cases type; exact hname)).2
    obtain ⟨image, text, hprojects, hjson, hspells⟩ :=
      serialize_correct hready hserves type hpart hmember (hspares part (by simp)) htype
        hvalueMatches hinner
    obtain ⟨texts, images, hmembers, hpieces⟩ :=
      serializeProperties_correct hready hserves rest false hothers hinput
        (fun other hother => hspares other (by simp [hother])) hobject hrest hothersOwn
        hmore (hhelpers.mono (List.nil_subset _) (List.subset_append_right _ _))
    refine ⟨_, _, hmembers.cons hdefined hprojects hjson, ?_⟩
    rw [listed]
    have hwhole : Pieces world env (Expr.flatten .plus
        (.string ((if first then "" else ",") ++ Json.quote name ++ ":") :: part :: others)) _ :=
      (hspells.pieces.flatten_cons hpieces).string_cons _
    simpa [String.append_assoc, TyProperty.name] using hwhole

/-- The entries of properties of which some may be absent: each gives its member or is undefined. -/
theorem serializeEntries_correct (hready : scope.Ready final base)
    (hserves : scope.Serves world final base) (properties : List TyProperty) {depth : Nat}
    {input : Expr} {env : Env} {value : Data} {entries : List Expr}
    (hgives : Gives final (scope.serializeEntries properties depth input) entries)
    (hinput : scope.Stands world base env depth input value)
    (hspares : ∀ entry ∈ entries, Spares scope.factory entry)
    (hobject : value.isObject = true)
    (halternatives : ∀ property ∈ properties, ∀ type ∈ property.type.alternatives,
      type.isUndefined = false → type.kind.Serializable)
    (hmatches : ∀ property ∈ properties,
      ¬ (property.optional = true ∧ world.get value property.name = .undefined) →
        Matches world scope.definitions (world.get value property.name) property.type.kind)
    (hhelpers : scope.HelpersSerialize world final base [] (TyProperty.referencesOf properties)
      value) :
    ∃ outcomes texts images, entries.length = properties.length ∧
      List.Forall₂ (fun entry outcome => Evaluates world env entry (.data outcome)) entries
        outcomes ∧
      outcomes.filter (fun outcome => !outcome.isUndefined) = texts.map .string ∧
      MemberTexts world scope.definitions value properties texts images := by
  cases properties with
  | nil =>
    rw [serializeEntries] at hgives
    rw [← hgives.of_pure]
    exact ⟨[], [], [], rfl, .nil, rfl, .nil⟩
  | cons property rest =>
    obtain ⟨name, type, optional, description⟩ := property
    rw [serializeEntries] at hgives
    obtain ⟨part, hpart, hgives⟩ := hgives.of_bind scope.definitions fun _ =>
      .bind (serializeEntries_asking scope rest _ _) fun _ => .pure _
    obtain ⟨others, hothers, rfl⟩ := hgives.of_bind_pure
    obtain ⟨hfirst, hmore⟩ := List.forall_mem_cons.mp hmatches
    obtain ⟨hown, hothersOwn⟩ := List.forall_mem_cons.mp halternatives
    have hmember := hinput.member hobject name
    have hfree := (hready.standard.extends hinput.helpers) _ _ (rfl : standard? "undefined" = _)
    have hcondition := Evaluates.isUndefined hfree hmember.evaluates
    rw [TyProperty.referencesOf] at hhelpers
    have hrank : world.rank (world.get value name) < world.rank value :=
      World.rank_get hobject name
    have hinner := hhelpers.part hrank hmember.wellFormed (List.subset_append_left _ _)
    obtain ⟨outcomes, texts, images, hlength, hevals, hfilter, hmembers⟩ :=
      serializeEntries_correct hready hserves rest hothers hinput
        (fun other hother => hspares other (List.mem_cons_of_mem _ hother)) hobject hothersOwn
        hmore (hhelpers.mono (List.nil_subset _) (List.subset_append_right _ _))
    have hspare : Spares scope.factory part := by
      have hentry := hspares _ List.mem_cons_self
      split at hentry
      · exact hentry.false_branch.concatenation (by simp)
      · exact hentry.concatenation (by simp)
    by_cases hundefined : world.get value name = .undefined
    · -- The entry is undefined as well, since a property that has to be there is not.
      have habsent : (optional || type.admitsAbsence) = true := by
        by_contra hpresent
        obtain ⟨hoptional, habsence⟩ := Bool.or_eq_false_iff.mp (Bool.not_eq_true _ ▸ hpresent)
        refine ne_undefined_of_matches (serializable_of_alternatives habsence hown)
          (hfirst fun h => Bool.false_ne_true (hoptional.symm.trans h.1)) (fun name hname =>
            (hinner.same name (by cases type; exact hname)).2) hundefined
      rw [hundefined] at hcondition
      have hentry : Evaluates world env (.conditional (.equals .undefined (.member input name))
          .undefined (Expr.concatenation [.string (Json.quote name ++ ":"), part]))
            (.data .undefined) := .conditional hcondition (.standard hfree rfl)
      refine ⟨.undefined :: outcomes, texts, images, congrArg Nat.succ hlength, .cons ?_ hevals,
        hfilter, hmembers.absent hundefined⟩
      rw [if_pos habsent]
      exact hentry
    · obtain ⟨image, text, hprojects, hjson, hspells⟩ :=
        serializeDefined_correct hready hserves type hpart hmember hspare hundefined hown
          (hfirst fun h => hundefined h.2) hinner
      have hentry := (Spells.labelled (Json.quote name ++ ":") hspells.pieces).evaluates
      refine ⟨.string (Json.quote name ++ ":" ++ text) :: outcomes, _, _,
        congrArg Nat.succ hlength, .cons ?_ hevals, ?_, hmembers.cons hundefined hprojects hjson⟩
      · split
        · have hflag : (world.get value name).isUndefined = false := by
            simpa [← Bool.not_eq_true, Data.isUndefined_iff] using hundefined
          rw [hflag] at hcondition
          exact .conditional hcondition hentry
        · exact hentry
      · rw [List.filter_cons_of_pos rfl, hfilter]
        rfl

/-- A value that is not undefined is serialized as its type without the undefined members. -/
theorem serializeDefined_correct (hready : scope.Ready final base)
    (hserves : scope.Serves world final base) (type : Ty) {depth : Nat} {input : Expr} {env : Env}
    {value : Data} {expr : Expr}
    (hgives : Gives final (scope.serializeDefined type depth input) expr)
    (hinput : scope.Stands world base env depth input value) (hspares : Spares scope.factory expr)
    (hdefined : value ≠ .undefined)
    (halternatives : ∀ alternative ∈ type.alternatives,
      alternative.isUndefined = false → alternative.kind.Serializable)
    (hmatches : Matches world scope.definitions value type.kind)
    (hhelpers : scope.HelpersSerialize world final base type.direct type.references value) :
    Serializes world scope.definitions env expr value type.kind := by
  obtain ⟨kind, aliasName⟩ := type
  rw [Ty.direct, Ty.references] at hhelpers
  cases kind with
  | union members =>
    rw [serializeDefined] at hgives
    rw [TyKind.direct, TyKind.references] at hhelpers
    obtain ⟨member, hmem, hone⟩ : ∃ member ∈ members,
        Matches world scope.definitions value member.kind := by
      cases hmatches with
      | union mem one => exact ⟨_, mem, one⟩
    have hother : ∀ member ∈ members, (!member.isUndefined) = false →
        ¬ Matches world scope.definitions value member.kind := fun member _ hmember =>
      not_matches_of_isUndefined (by simpa using hmember) hdefined
    have hkept : member ∈ members.filter fun member => !member.isUndefined := by
      refine List.mem_filter.mpr ⟨hmem, ?_⟩
      by_contra hnot
      exact hother member hmem (by simpa using hnot) hone
    split at hgives
    · rename_i hnone
      rw [hnone] at hkept
      cases hkept
    · rename_i only honly
      exact serializeOnly_correct hready hserves members honly hgives hinput hspares
        hdefined halternatives ⟨member, hmem, hone⟩ hhelpers
    · obtain ⟨branches, hbranches, rfl⟩ := hgives.of_bind_pure
      have hall := serializeMembers_correct hready hserves members true hbranches hinput
        (fun other hother => by
          obtain ⟨hmem, hkept⟩ := List.mem_filter.mp hother
          exact halternatives other hmem (by simpa using hkept)) hhelpers
      simp only [Bool.true_and] at hall
      obtain ⟨image, text, hprojects, hjson, hspells⟩ :=
        Serializes.choose hspares hall ⟨member, hkept, hone⟩
      exact ⟨image, text, hprojects.union_of_filter hother, hjson, hspells⟩
  | undefined =>
    cases hmatches
    exact absurd rfl hdefined
  | void =>
    cases hmatches
    exact absurd rfl hdefined
  | _ =>
    rw [serializeDefined] at hgives
    · exact serializeKind_correct hready hserves _ hgives hinput hspares
        (halternatives _ List.mem_cons_self rfl) hmatches hhelpers
    · intros
      contradiction

/-- A value that is not undefined is serialized as the only member that holds anything else. -/
theorem serializeOnly_correct (hready : scope.Ready final base)
    (hserves : scope.Serves world final base)
    (members : List Ty) {depth : Nat} {input : Expr} {env : Env} {value : Data} {expr : Expr}
    {only : Ty} (honly : members.filter (fun member => !member.isUndefined) = [only])
    (hgives : Gives final (scope.serializeOnly members depth input) expr)
    (hinput : scope.Stands world base env depth input value) (hspares : Spares scope.factory expr)
    (hdefined : value ≠ .undefined)
    (heach : ∀ member ∈ members, member.isUndefined = false → member.kind.Serializable)
    (hmatches : ∃ member ∈ members, Matches world scope.definitions value member.kind)
    (hhelpers : scope.HelpersSerialize world final base (Ty.directOf members)
      (Ty.referencesOf members) value) :
    Serializes world scope.definitions env expr value (.union members) := by
  cases members with
  | nil => cases honly
  | cons member rest =>
    rw [serializeOnly] at hgives
    rw [Ty.directOf, Ty.referencesOf] at hhelpers
    obtain ⟨hfirst, hothers⟩ := List.forall_mem_cons.mp heach
    obtain ⟨matched, hmem, hone⟩ := hmatches
    split at hgives
    · rename_i hundefined
      have hnot : ¬ Matches world scope.definitions value member.kind :=
        not_matches_of_isUndefined hundefined hdefined
      rw [List.filter_cons_of_neg (by simpa using hundefined)] at honly
      refine .skip hnot (serializeOnly_correct hready hserves rest honly hgives hinput
        hspares hdefined hothers ?_ (hhelpers.mono (List.subset_append_right _ _)
          (List.subset_append_right _ _)))
      rcases List.mem_cons.mp hmem with rfl | hmem
      · exact absurd hone hnot
      · exact ⟨matched, hmem, hone⟩
    · rename_i hkept
      have hkept : member.isUndefined = false := by simpa using hkept
      rw [List.filter_cons_of_pos (by simp [hkept]), List.cons.injEq, List.filter_eq_nil_iff]
        at honly
      have hmember : Matches world scope.definitions value member.kind := by
        rcases List.mem_cons.mp hmem with rfl | hmem
        · exact hone
        · have hundefined : matched.isUndefined = true := by simpa using honly.2 matched hmem
          exact absurd hone (not_matches_of_isUndefined hundefined hdefined)
      exact .first hmember (serialize_correct hready hserves member hgives hinput hspares
        (hfirst hkept) hmember (hhelpers.mono (List.subset_append_left _ _)
          (List.subset_append_left _ _)))

/-- Each member of a union that is kept has a check that decides and a serializer that is right. -/
theorem serializeMembers_correct (hready : scope.Ready final base)
    (hserves : scope.Serves world final base) (members : List Ty) (defined : Bool) {depth : Nat}
    {input : Expr} {env : Env} {value : Data} {branches : List (Expr × Expr)}
    (hgives : Gives final (scope.serializeMembers members defined depth input) branches)
    (hinput : scope.Stands world base env depth input value)
    (heach : ∀ member ∈ members.filter (fun member => !(defined && member.isUndefined)),
      member.kind.Serializable)
    (hhelpers : scope.HelpersSerialize world final base (Ty.directOf members)
      (Ty.referencesOf members) value) :
    List.Forall₂ (Branch world scope.definitions scope.factory env value fun member expr =>
      Serializes world scope.definitions env expr value member.kind)
      (members.filter fun member => !(defined && member.isUndefined)) branches := by
  cases members with
  | nil =>
    rw [serializeMembers] at hgives
    rw [← hgives.of_pure]
    exact .nil
  | cons member rest =>
    rw [serializeMembers] at hgives
    rw [Ty.directOf, Ty.referencesOf] at hhelpers
    have hrest := hhelpers.mono (List.subset_append_right _ _) (List.subset_append_right _ _)
    split at hgives
    · rename_i hskip
      rw [List.filter_cons_of_neg (by simpa using hskip)] at heach ⊢
      exact serializeMembers_correct hready hserves rest defined hgives hinput heach
        hrest
    · rename_i hkeep
      have hkept : (!(defined && member.isUndefined)) = true := by
        rw [Bool.not_eq_true] at hkeep
        rw [hkeep]
        rfl
      obtain ⟨condition, hcondition, hgives⟩ := hgives.of_bind scope.definitions fun _ =>
        .bind (serialize_asking scope member _ _) fun _ =>
          .bind (serializeMembers_asking scope rest _ _ _) fun _ => .pure _
      obtain ⟨part, hpart, hgives⟩ := hgives.of_bind scope.definitions fun _ =>
        .bind (serializeMembers_asking scope rest _ _ _) fun _ => .pure _
      obtain ⟨others, hothers, rfl⟩ := hgives.of_bind_pure
      rw [List.filter_cons_of_pos (p := fun member : Ty => !(defined && member.isUndefined)) hkept]
        at heach ⊢
      obtain ⟨hfirst, hmore⟩ := List.forall_mem_cons.mp heach
      have hinner := hhelpers.mono (List.subset_append_left _ _) (List.subset_append_left _ _)
      refine .cons ⟨?_, fun hspares hmatches => ?_⟩ (serializeMembers_correct hready hserves rest
        defined hothers hinput hmore hrest)
      · exact check_decides hready member hcondition hinput.stable hinput.helpers hinput.wellFormed
          (HelpersSerialize.decide hinner)
      · exact serialize_correct hready hserves member hpart hinput hspares hfirst
          hmatches hinner

end

/-- One call of a serializing helper: its body gives the text that the definition has. -/
theorem HelperSerializes.of_definition (hready : scope.Ready final base)
    (hserves : scope.Serves world final base) {name : String} {definition : Ty}
    (hvalue : value.WellFormed) (hdefinition : scope.definitions.get? name = some definition)
    (hkind : definition.kind.Serializable)
    (hhelpers : scope.HelpersSerialize world final base definition.direct definition.references
      value) :
    scope.HelperSerializes world final base name value where
  defined := by rw [hdefinition]; rfl
  present := by
    intro hmatches
    rw [Matches.reference_iff hdefinition] at hmatches
    have hinner : ∀ inner ∈ definition.kind.direct,
        scope.HelperSerializes world final base inner value := fun inner hinner =>
      (hhelpers.same inner (by cases definition; exact hinner)).2
    exact ne_undefined_of_matches hkind hmatches hinner
  gives := by
    intro hmatches index function hrequested hlookup
    rw [Matches.reference_iff hdefinition] at hmatches
    obtain ⟨found, params, body, hfound, hgives, hlookup'⟩ := hready.links _ hrequested
    obtain rfl : found = definition := Option.some.inj (hfound.symm.trans hdefinition)
    obtain rfl : function = .closure params (.concise body) base :=
      Option.some.inj (hlookup.symm.trans hlookup')
    obtain ⟨part, hpart, hclosure⟩ := Gives.of_map hgives
    cases hclosure
    obtain ⟨image, text, hprojects, hjson, hspells⟩ := serialize_correct hready hserves found hpart
      ⟨helperInput_stable value, helperInput_extends (.data value),
        .bind hserves.free hserves.input _, hvalue⟩
      (hserves.spares index name found body hrequested hdefinition hpart) hkind hmatches hhelpers
    exact ⟨image, text, .reference hdefinition hprojects, hjson,
      fun heap => apply_closure (hspells.evaluates heap)⟩

/-- The serializer of a guarded type whose definitions are serializable. -/
theorem serialize_correct_of_guarded (hready : scope.Ready final base)
    (hserves : scope.Serves world final base) {type : Ty}
    (hguarded : scope.definitions.Guarded type)
    (htype : scope.definitions.Serializes type) {depth : Nat} {input expr : Expr} {env : Env}
    (hgives : Gives final (scope.serialize type depth input) expr)
    (hinput : Stable world env depth input value) (henv : base.Extends env)
    (hsees : scope.Sees env input) (hspares : Spares scope.factory expr)
    (hvalue : value.WellFormed) (hmatches : Matches world scope.definitions value type.kind) :
    Serializes world scope.definitions env expr value type.kind := by
  refine serialize_correct hready hserves type hgives ⟨hinput, henv, hsees, hvalue⟩ hspares
    htype.kind hmatches
    (hguarded.helpersHold (fun name value hname hvalue hhelpers => ⟨?_, ?_⟩) hvalue)
  · exact .of_definition hready hvalue fun definition hdefinition =>
      HelpersSerialize.decide (hhelpers definition hdefinition)
  · obtain ⟨definition, hdefinition, hkind⟩ := htype.defined name hname
    exact .of_definition hready hserves hvalue hdefinition hkind (hhelpers definition hdefinition)

end Scope

end TypedRoutes
