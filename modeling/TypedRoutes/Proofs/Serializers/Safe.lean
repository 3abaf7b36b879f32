import TypedRoutes.Proofs.Serializers.Correct
import TypedRoutes.Proofs.Serializers.Written

/-!
# Serializers do not fail

On a value that matches its type, whatever type that is, a generated serializer gives a text or
undefined: it asks no absent value for a property and never comes to the call behind the members of
a union. By induction on the type, as for the texts that serializable types have.
-/

namespace TypedRoutes

namespace Runtime

/-- An object from outside whose two functions return a text for whatever they are given, next to a
standard serializer that returns a text or undefined. -/
structure Answers (world : World) (object : Data) (string number : String) : Prop where
  present : object.isPresent = true
  string_function : world.get object "string" = .function (.host string)
  number_function : world.get object "number" = .function (.host number)
  string_text : ∀ value, ∃ text, world.call string object [value] = .ok (.string text)
  number_text : ∀ value, ∃ text, world.call number object [value] = .ok (.string text)
  json : ∀ value, ∃ result, world.json value = .ok result ∧ result.isWritten = true

end Runtime

namespace Scope

open Generate TypedRoutes.Runtime

variable (world : World) (scope : Scope) (final : Registry) (base : Env)

/-- The factory stands for such an object where its names are free, they are free where the helpers
are declared, and the helpers take none of them. -/
structure Answered : Prop where
  object : ∃ object string number, Answers world object string number ∧
    Evaluates world .empty scope.factory (.data object)
  free : ∀ name ∈ scope.factory.identifiers, base.lookup? name = none
  input : "input" ∉ scope.factory.identifiers
  spares : ∀ index name definition text, ⟨.serialize, index, name⟩ ∈ final.requested →
    scope.definitions.get? name = some definition →
    Gives final (scope.serialize definition 0 Scope.input) text → Spares scope.factory text

/-- What is known of the serializing helper of a name: every call of it with a value that matches
gives a text or undefined. -/
def HelperWrites (name : String) (value : Data) : Prop :=
  Matches world scope.definitions value (.reference name) → ∀ index function,
    ⟨.serialize, index, name⟩ ∈ final.requested →
    base.lookup? (HelperKind.serialize.helperName index) = some function →
    ∃ result : Data, result.isWritten = true ∧ ∀ heap,
      (apply world function (.data .undefined) [.data value]).Yields heap (.data result) heap

/-- The helpers do not fail that the serializer of a type calls. -/
abbrev HelpersWrite (direct references : List String) (value : Data) : Prop :=
  HelpersHold world (fun name value => scope.HelperDecides world final base name value ∧
    scope.HelperWrites world final base name value) direct references value

variable {world scope final base} {value : Data} {env : Env} {input : Expr}

/-- Helpers of which this is known decide as well. -/
theorem HelpersWrite.decide {direct references : List String}
    (h : scope.HelpersWrite world final base direct references value) :
    scope.HelpersDecide world final base direct references value :=
  h.imp fun _ _ hboth => hboth.1

/-! ## Calls -/

/-- The function for strings of the factory writes whatever it is given. -/
theorem Answered.writes_string (h : scope.Answered world final base)
    (hfree : ∀ name ∈ scope.factory.identifiers, env.lookup? name = none)
    (hinput : Evaluates world env input (.data value)) :
    ∃ text, Spells world env (.invoke (scope.runtime "string") [input]) text := by
  obtain ⟨object, string, number, hanswers, hfactory⟩ := h.object
  obtain ⟨text, htext⟩ := hanswers.string_text value
  exact ⟨text, .of_evaluates rfl (.host (hfactory.elsewhere hfree) hanswers.present
    hanswers.string_function hinput htext)⟩

/-- The function for numbers of the factory writes whatever it is given. -/
theorem Answered.writes_number (h : scope.Answered world final base)
    (hfree : ∀ name ∈ scope.factory.identifiers, env.lookup? name = none)
    (hinput : Evaluates world env input (.data value)) :
    ∃ text, Spells world env (.invoke (scope.runtime "number") [input]) text := by
  obtain ⟨object, string, number, hanswers, hfactory⟩ := h.object
  obtain ⟨text, htext⟩ := hanswers.number_text value
  exact ⟨text, .of_evaluates rfl (.host (hfactory.elsewhere hfree) hanswers.present
    hanswers.number_function hinput htext)⟩

/-- The standard serializer gives a text or undefined. -/
theorem Answered.writes_json (h : scope.Answered world final base)
    (hfree : env.lookup? "JSON" = none) (hinput : Evaluates world env input (.data value)) :
    Writes world env (.standardJson input) := by
  obtain ⟨object, string, number, hanswers, -⟩ := h.object
  obtain ⟨result, hresult, hwritten⟩ : ∃ result, standardJson world value = .ok result ∧
      result.isWritten = true := by
    cases value with
    | string text => exact ⟨_, rfl, rfl⟩
    | _ => exact hanswers.json _
  exact .of_evaluates rfl hwritten (.standardJson hfree hinput hresult)

/-- The call of a helper that serializes; a name without definition is left to the standard
serializer. -/
theorem callHelper_writes (hready : scope.Ready final base)
    (hanswered : scope.Answered world final base) {name : String} {call : Option Expr}
    (hgives : Gives final (scope.callHelper .serialize name [input]) call)
    (hinput : Evaluates world env input (.data value)) (henv : base.Extends env)
    (hmatches : Matches world scope.definitions value (.reference name))
    (hhelper : scope.HelperWrites world final base name value) :
    Writes world env (call.getD (.standardJson input)) := by
  rcases hgives.of_callHelper with ⟨-, rfl⟩ | ⟨definition, index, -, hrequested, rfl⟩
  · exact hanswered.writes_json ((hready.standard.extends henv) _ _ rfl) hinput
  · obtain ⟨_, params, body, -, -, hlookup⟩ := hready.links _ hrequested
    obtain ⟨result, hwritten, hcall⟩ := hhelper hmatches index _ hrequested hlookup
    have hname := (henv _ (HelperKind.not_local_helperName .serialize index)).trans hlookup
    refine .of_evaluates rfl hwritten fun heap => ?_
    exact yields_invoke (evalCallee_identifier (Evaluates.bound hname heap))
      (evalAll_cons (hinput heap) evalAll_nil) (hcall heap)

/-! ## One kind of type

The serializer of one kind writes if those of its parts do. -/

section

variable {aliasName : Option String} {depth : Nat} {expr : Expr}

/-- A string, a number, a boolean value or a date is given to a function that writes. -/
theorem serializeScalar_writes (hready : scope.Ready final base)
    (hanswered : scope.Answered world final base) {kind : TyKind}
    (hkind : kind = .string ∨ kind = .number ∨ kind = .boolean ∨ kind = .date)
    (hgives : Gives final (scope.serializeKind kind aliasName depth input) expr)
    (hinput : scope.Stands world base env depth input value)
    (hmatches : Matches world scope.definitions value kind) : Writes world env expr := by
  have heval := hinput.evaluates
  rcases hkind with rfl | rfl | rfl | rfl
  · rw [serializeKind] at hgives
    rw [← hgives.of_pure]
    obtain ⟨text, htext⟩ := hanswered.writes_string hinput.sees.free heval
    exact htext.writes
  · rw [serializeKind] at hgives
    rw [← hgives.of_pure]
    obtain ⟨text, htext⟩ := hanswered.writes_number hinput.sees.free heval
    exact htext.writes
  · rw [serializeKind] at hgives
    rw [← hgives.of_pure]
    cases hmatches with
    | boolean flag =>
      have hfree := hready.standard.extends hinput.helpers
      exact .of_evaluates rfl rfl (Evaluates.booleanText (hfree _ _ rfl) heval)
  · rw [serializeKind] at hgives
    rw [← hgives.of_pure]
    cases hmatches with
    | date time =>
      obtain ⟨text, htext⟩ := hanswered.writes_string hinput.sees.free heval.toJSON
      exact htext.writes

/-- The results for the items of an array are joined. -/
theorem serializeArray_writes {element : Ty}
    (hgives : Gives final (scope.serializeKind (.array element) aliasName depth input) expr)
    (hinput : scope.Stands world base env depth input value) (hspares : Spares scope.factory expr)
    (hmatches : Matches world scope.definitions value (.array element))
    (helement : ∀ body,
      Gives final (scope.serialize element (depth + 1)
        (.identifier (bindingName depth "elem"))) body →
      ∀ env item, item ∈ value.values →
        scope.Stands world base env (depth + 1) (.identifier (bindingName depth "elem")) item →
        Spares scope.factory body → Matches world scope.definitions item element.kind →
          Writes world env body) :
    Writes world env expr := by
  rw [serializeKind] at hgives
  obtain ⟨body, hbody, rfl⟩ := hgives.of_bind_pure
  cases hmatches with
  | @array items _ each =>
    have hclosure := hinput.closure hspares (List.Subset.refl _)
    have hitems : ∀ item ∈ items,
        Writes world (.bind (bindingName depth "elem") (.data item) env) body := by
      intro item hitem
      have hstands := hinput.parameter (by simp [binders]) hclosure (hinput.wellFormed.values hitem)
      exact helement body hbody _ item hitem hstands hclosure.lambda_body (each item hitem)
    obtain ⟨images, hwritten, hevals⟩ := Writes.list hitems
    exact .bracketed "[" "]" (hinput.evaluates.map hevals) hwritten

/-- The members of an object are joined at run time if one of them may be absent, and stand between
braces if not. -/
theorem serializeObject_writes (hready : scope.Ready final base) {properties : List TyProperty}
    (hgives : Gives final (scope.serializeKind (.object properties) aliasName depth input) expr)
    (hinput : scope.Stands world base env depth input value) (hspares : Spares scope.factory expr)
    (hentries : ∀ entries, Gives final (scope.serializeEntries properties depth input) entries →
      (∀ entry ∈ entries, Spares scope.factory entry) → ∀ entry ∈ entries, Writes world env entry)
    (hproperties : (∀ property ∈ properties, property.mayBeAbsent = false) →
      ∀ parts, Gives final (scope.serializeProperties properties depth input true) parts →
      (∀ part ∈ parts, Spares scope.factory part) → ∀ part ∈ parts, Writes world env part) :
    Writes world env expr := by
  rw [serializeKind] at hgives
  split at hgives
  · rename_i habsent
    obtain ⟨entries, hgiven, rfl⟩ := hgives.of_bind_pure
    have hmentions := mentions_entries properties hgiven habsent
    have hwrites := hentries entries hgiven (hinput.entries hspares hmentions)
    have hne : entries ≠ [] := by
      rintro rfl
      obtain ⟨name, hname, -⟩ := hinput.sees.taken
      cases hmentions hname
    obtain ⟨outcomes, hwritten, hevals⟩ := Writes.list hwrites
    have hfree := hready.standard.extends hinput.helpers
    refine .bracketed "\x7b" "\x7d" (Evaluates.present hne hfree hevals) fun item hmem => ?_
    exact hwritten item (List.mem_of_mem_filter hmem)
  · rename_i hpresent
    obtain ⟨parts, hgiven, rfl⟩ := hgives.of_bind_pure
    exact .enclosed "\x7b" "\x7d" (hproperties (by simpa using hpresent) parts hgiven
      fun part hmem => hspares.concatenation (by simp [hmem]))

/-- The members of a record are joined, one for every key. -/
theorem serializeRecord_writes (hready : scope.Ready final base)
    (hanswered : scope.Answered world final base) {type : Ty}
    (hgives : Gives final (scope.serializeKind (.record type) aliasName depth input) expr)
    (hinput : scope.Stands world base env depth input value) (hspares : Spares scope.factory expr)
    (hmatches : Matches world scope.definitions value (.record type))
    (hvalues : ∀ body,
      Gives final (scope.serialize type (depth + 1)
        (.element input (.identifier (bindingName depth "key")))) body →
      ∀ env item, item ∈ value.values →
        scope.Stands world base env (depth + 1)
          (.element input (.identifier (bindingName depth "key"))) item →
        Spares scope.factory body → Matches world scope.definitions item type.kind →
          Writes world env body) :
    Writes world env expr := by
  rw [serializeKind] at hgives
  obtain ⟨body, hbody, rfl⟩ := hgives.of_bind_pure
  cases hmatches with
  | record shape each =>
    have hclosure := hinput.closure hspares (by
      simp [Expr.invoke, Expr.identifiers, Expr.identifiersOf])
    have hkeys : ∀ item ∈ value.keys.map Data.string,
        Writes world (.bind (bindingName depth "key") (.data item) env)
          (Expr.concatenation [.invoke (scope.runtime "string")
            [.identifier (bindingName depth "key")], .string ":", body]) := by
      intro item hitem
      obtain ⟨key, hmem, rfl⟩ := List.mem_map.mp hitem
      have hname := hinput.parameter (by simp [binders]) hclosure (.string key)
      have hvalue : world.get value key ∈ value.values := world.get_key_mem hinput.wellFormed hmem
      have hinner := hinput.key (by simp [binders]) shape hclosure key
      obtain ⟨text, htext⟩ := hanswered.writes_string hname.sees.free hname.evaluates
      have hpart : Writes world (.bind (bindingName depth "key") (.data (.string key)) env) body :=
        hvalues body hbody _ _ hvalue hinner (hclosure.lambda_body.concatenation (by simp))
          (each _ hvalue)
      exact hpart.member htext
    obtain ⟨images, hwritten, hevals⟩ := Writes.list hkeys
    have hfree := hready.standard.extends hinput.helpers
    exact .bracketed "\x7b" "\x7d"
      ((Evaluates.keys (hfree _ _ rfl) hinput.evaluates shape).map hevals) hwritten

end

/-! ## Induction on the type -/

mutual

/-- The serializer of a type gives a text or undefined for a value that matches. -/
theorem serialize_writes (hready : scope.Ready final base)
    (hanswered : scope.Answered world final base) (type : Ty) {depth : Nat} {input : Expr}
    {env : Env} {value : Data} {expr : Expr}
    (hgives : Gives final (scope.serialize type depth input) expr)
    (hinput : scope.Stands world base env depth input value) (hspares : Spares scope.factory expr)
    (hmatches : Matches world scope.definitions value type.kind)
    (hhelpers : scope.HelpersWrite world final base type.direct type.references value) :
    Writes world env expr := by
  cases type with
  | mk kind aliasName =>
    rw [serialize] at hgives
    rw [Ty.direct, Ty.references] at hhelpers
    exact serializeKind_writes hready hanswered kind hgives hinput hspares hmatches hhelpers

/-- The serializer of a kind of type gives a text or undefined for a value that matches. -/
theorem serializeKind_writes (hready : scope.Ready final base)
    (hanswered : scope.Answered world final base) (kind : TyKind) {aliasName : Option String}
    {depth : Nat} {input : Expr} {env : Env} {value : Data} {expr : Expr}
    (hgives : Gives final (scope.serializeKind kind aliasName depth input) expr)
    (hinput : scope.Stands world base env depth input value) (hspares : Spares scope.factory expr)
    (hmatches : Matches world scope.definitions value kind)
    (hhelpers : scope.HelpersWrite world final base kind.direct kind.references value) :
    Writes world env expr := by
  cases kind with
  | string | number | boolean | date =>
    exact serializeScalar_writes hready hanswered (by simp) hgives hinput hmatches
  | null | literalString _ | literalNumber _ | literalBoolean _ =>
    rw [serializeKind] at hgives
    rw [← hgives.of_pure]
    exact .string _
  | array element =>
    refine serializeArray_writes hgives hinput hspares hmatches ?_
    intro body hbody env item hitem hstands hspares hone
    exact serialize_writes hready hanswered element hbody hstands hspares hone
      (hhelpers.part (world.rank_value value item hitem) hstands.wellFormed (List.Subset.refl _))
  | tuple elements =>
    rw [serializeKind] at hgives
    obtain ⟨parts, hparts, rfl⟩ := hgives.of_bind_pure
    cases hmatches with
    | @tuple items _ length each =>
      rw [TyKind.references] at hhelpers
      have hwrites := serializeElements_writes hready hanswered elements 0 hparts hinput
        (fun part hmem => hspares.concatenation (by simp [hmem])) (by simpa using length.symm)
        (by simpa using each) (hhelpers.mono (List.nil_subset _) (List.Subset.refl _))
      exact .enclosed "[" "]" hwrites
  | object properties =>
    cases hmatches with
    | object shape each =>
      have hparts := hhelpers.mono (List.nil_subset _) (List.Subset.refl _)
      refine serializeObject_writes hready hgives hinput hspares ?_ ?_
      · exact fun entries hgiven hspares => serializeEntries_writes hready hanswered properties
          hgiven hinput hspares shape each hparts
      · exact fun hpresent parts hgiven hspares => serializeProperties_writes hready hanswered
          properties true hgiven hinput hspares shape hpresent each hparts
  | record type =>
    refine serializeRecord_writes hready hanswered hgives hinput hspares hmatches ?_
    intro body hbody env item hitem hstands hspares hone
    exact serialize_writes hready hanswered type hbody hstands hspares hone
      (hhelpers.part (world.rank_value value item hitem) hstands.wellFormed (List.Subset.refl _))
  | reference name =>
    rw [serializeKind] at hgives
    obtain ⟨call, hcall, rfl⟩ := hgives.of_bind_pure
    exact callHelper_writes hready hanswered hcall hinput.evaluates hinput.helpers hmatches
      (hhelpers.same name (by simp [TyKind.direct])).2
  | union members =>
    rw [serializeKind] at hgives
    obtain ⟨branches, hbranches, rfl⟩ := hgives.of_bind_pure
    rw [TyKind.direct, TyKind.references] at hhelpers
    have hall := serializeMembers_writes hready hanswered members false hbranches hinput hhelpers
    simp only [Bool.false_and, Bool.not_false, List.filter_true] at hall
    exact .choose hspares hall (Matches.union_iff.mp hmatches)
  | _ =>
    rw [serializeKind] at hgives
    rw [← hgives.of_pure]
    exact hanswered.writes_json ((hready.standard.extends hinput.helpers) _ _ rfl) hinput.evaluates

/-- The parts for the items from a position on, commas included. -/
theorem serializeElements_writes (hready : scope.Ready final base)
    (hanswered : scope.Answered world final base) (elements : List Ty) (position : Nat)
    {depth : Nat}
    {input : Expr} {env : Env} {items : List Data} {parts : List Expr}
    (hgives : Gives final (scope.serializeElements elements depth input position) parts)
    (hinput : scope.Stands world base env depth input (.array items))
    (hspares : ∀ part ∈ parts, Spares scope.factory part)
    (hlength : position + elements.length = items.length)
    (hmatches : ∀ pair ∈ (items.drop position).zip elements,
      Matches world scope.definitions pair.1 pair.2.kind)
    (hhelpers : scope.HelpersWrite world final base [] (Ty.referencesOf elements) (.array items)) :
    ∀ part ∈ parts, Writes world env part := by
  cases elements with
  | nil =>
    rw [serializeElements] at hgives
    rw [← hgives.of_pure]
    simp
  | cons element rest =>
    rw [serializeElements] at hgives
    obtain ⟨part, hpart, hgives⟩ := hgives.of_bind scope.definitions fun _ =>
      .bind (serializeElements_asking scope rest _ _ _) fun _ => .pure _
    obtain ⟨others, hothers, hparts⟩ := hgives.of_bind_pure
    rw [List.length_cons] at hlength
    have hposition : position < items.length := by omega
    have hmem := List.getElem_mem hposition
    have hitem := hinput.position hposition
    rw [Ty.referencesOf] at hhelpers
    rw [List.drop_eq_getElem_cons hposition, List.zip_cons_cons] at hmatches
    obtain ⟨hfirst, hrest⟩ := List.forall_mem_cons.mp hmatches
    have hwrites := serialize_writes hready hanswered element hpart hitem
      (hspares part (by rw [← hparts]; split <;> simp)) hfirst
      (hhelpers.part (World.rank_item hmem) hitem.wellFormed (List.subset_append_left _ _))
    have hall := serializeElements_writes hready hanswered rest (position + 1) hothers hinput
      (fun other hother => hspares other (by rw [← hparts]; split <;> simp [hother]))
      (by omega) hrest (hhelpers.mono (List.nil_subset _) (List.subset_append_right _ _))
    rw [← hparts]
    split
    · exact List.forall_mem_cons.mpr ⟨hwrites, hall⟩
    · exact List.forall_mem_cons.mpr ⟨.string ",", List.forall_mem_cons.mpr ⟨hwrites, hall⟩⟩

/-- The parts for properties that are all there. -/
theorem serializeProperties_writes (hready : scope.Ready final base)
    (hanswered : scope.Answered world final base) (properties : List TyProperty) (first : Bool)
    {depth : Nat} {input : Expr} {env : Env} {value : Data} {parts : List Expr}
    (hgives : Gives final (scope.serializeProperties properties depth input first) parts)
    (hinput : scope.Stands world base env depth input value)
    (hspares : ∀ part ∈ parts, Spares scope.factory part)
    (hobject : value.isObject = true)
    (hpresent : ∀ property ∈ properties, property.mayBeAbsent = false)
    (hmatches : ∀ property ∈ properties,
      ¬ (property.optional = true ∧ world.get value property.name = .undefined) →
        Matches world scope.definitions (world.get value property.name) property.type.kind)
    (hhelpers : scope.HelpersWrite world final base [] (TyProperty.referencesOf properties) value) :
    ∀ part ∈ parts, Writes world env part := by
  cases properties with
  | nil =>
    rw [serializeProperties] at hgives
    rw [← hgives.of_pure]
    simp
  | cons property rest =>
    obtain ⟨name, type, optional, description⟩ := property
    rw [serializeProperties] at hgives
    obtain ⟨part, hpart, hgives⟩ := hgives.of_bind scope.definitions fun _ =>
      .bind (serializeProperties_asking scope rest _ _ _) fun _ => .pure _
    obtain ⟨others, hothers, rfl⟩ := hgives.of_bind_pure
    obtain ⟨hproperty, hrest⟩ := List.forall_mem_cons.mp hpresent
    obtain ⟨hoptional, -⟩ := Bool.or_eq_false_iff.mp hproperty
    obtain ⟨hfirst, hmore⟩ := List.forall_mem_cons.mp hmatches
    have hmember := hinput.member hobject name
    rw [TyProperty.referencesOf] at hhelpers
    have hwrites := serialize_writes hready hanswered type hpart hmember (hspares part (by simp))
      (hfirst fun h => Bool.false_ne_true (hoptional.symm.trans h.1))
      (hhelpers.part (World.rank_get hobject name) hmember.wellFormed
        (List.subset_append_left _ _))
    have hall := serializeProperties_writes hready hanswered rest false hothers hinput
      (fun other hother => hspares other (by simp [hother])) hobject hrest hmore
      (hhelpers.mono (List.nil_subset _) (List.subset_append_right _ _))
    exact List.forall_mem_cons.mpr ⟨.string _, List.forall_mem_cons.mpr ⟨hwrites, hall⟩⟩

/-- The entries of properties of which some may be absent. -/
theorem serializeEntries_writes (hready : scope.Ready final base)
    (hanswered : scope.Answered world final base) (properties : List TyProperty) {depth : Nat}
    {input : Expr} {env : Env} {value : Data} {entries : List Expr}
    (hgives : Gives final (scope.serializeEntries properties depth input) entries)
    (hinput : scope.Stands world base env depth input value)
    (hspares : ∀ entry ∈ entries, Spares scope.factory entry)
    (hobject : value.isObject = true)
    (hmatches : ∀ property ∈ properties,
      ¬ (property.optional = true ∧ world.get value property.name = .undefined) →
        Matches world scope.definitions (world.get value property.name) property.type.kind)
    (hhelpers : scope.HelpersWrite world final base [] (TyProperty.referencesOf properties) value) :
    ∀ entry ∈ entries, Writes world env entry := by
  cases properties with
  | nil =>
    rw [serializeEntries] at hgives
    rw [← hgives.of_pure]
    simp
  | cons property rest =>
    obtain ⟨name, type, optional, description⟩ := property
    rw [serializeEntries] at hgives
    obtain ⟨part, hpart, hgives⟩ := hgives.of_bind scope.definitions fun _ =>
      .bind (serializeEntries_asking scope rest _ _) fun _ => .pure _
    obtain ⟨others, hothers, rfl⟩ := hgives.of_bind_pure
    obtain ⟨hfirst, hmore⟩ := List.forall_mem_cons.mp hmatches
    have hmember := hinput.member hobject name
    have hfree := (hready.standard.extends hinput.helpers) _ _ (rfl : standard? "undefined" = _)
    have hcondition := Evaluates.isUndefined hfree hmember.evaluates
    rw [TyProperty.referencesOf] at hhelpers
    have hinner := hhelpers.part (World.rank_get hobject name) hmember.wellFormed
      (List.subset_append_left _ _)
    have hall := serializeEntries_writes hready hanswered rest hothers hinput
      (fun other hother => hspares other (List.mem_cons_of_mem _ hother)) hobject hmore
      (hhelpers.mono (List.nil_subset _) (List.subset_append_right _ _))
    refine List.forall_mem_cons.mpr ⟨?_, hall⟩
    have hspare := hspares _ List.mem_cons_self
    -- Where the property may be absent, the entry is only asked for when the value is defined.
    have hentry (hspare : Spares scope.factory
          (Expr.concatenation [.string (Json.quote name ++ ":"), part]))
        (hmatch : Matches world scope.definitions (world.get value name) type.kind)
        (hkept : world.get value name = .undefined → type.admitsAbsence = false) :
        Writes world env (Expr.concatenation [.string (Json.quote name ++ ":"), part]) := by
      exact .labelled _ (serializeDefined_writes hready hanswered type hpart hmember
        (hspare.concatenation (by simp)) hkept hmatch hinner)
    split at hspare
    · rw [if_pos ‹_›]
      refine .conditional hcondition ?_
      cases hundefined : (world.get value name).isUndefined with
      | true => exact .of_evaluates rfl rfl (.standard hfree rfl)
      | false =>
        have hdefined : world.get value name ≠ .undefined := fun h => by
          rw [h] at hundefined
          cases hundefined
        exact hentry hspare.false_branch (hfirst fun h => hdefined h.2) fun h => absurd h hdefined
    · rename_i hpresent
      rw [if_neg hpresent]
      obtain ⟨hoptional, habsence⟩ := Bool.or_eq_false_iff.mp (Bool.not_eq_true _ ▸ hpresent)
      exact hentry hspare (hfirst fun h => Bool.false_ne_true (hoptional.symm.trans h.1))
        fun _ => habsence

/-- A value is written as its type without the undefined members; it may be undefined itself only if
the type does not admit absence. -/
theorem serializeDefined_writes (hready : scope.Ready final base)
    (hanswered : scope.Answered world final base) (type : Ty) {depth : Nat} {input : Expr}
    {env : Env} {value : Data} {expr : Expr}
    (hgives : Gives final (scope.serializeDefined type depth input) expr)
    (hinput : scope.Stands world base env depth input value) (hspares : Spares scope.factory expr)
    (hkept : value = .undefined → type.admitsAbsence = false)
    (hmatches : Matches world scope.definitions value type.kind)
    (hhelpers : scope.HelpersWrite world final base type.direct type.references value) :
    Writes world env expr := by
  obtain ⟨kind, aliasName⟩ := type
  rw [Ty.direct, Ty.references] at hhelpers
  cases kind with
  | union members =>
    rw [serializeDefined] at hgives
    rw [TyKind.direct, TyKind.references] at hhelpers
    obtain ⟨member, hmem, hone⟩ := Matches.union_iff.mp hmatches
    have hdefined : member.isUndefined = false := by
      by_contra hundefined
      rw [Bool.not_eq_false] at hundefined
      have hvalue : value = .undefined :=
        Classical.byContradiction fun h => not_matches_of_isUndefined hundefined h hone
      have habsence : members.any Ty.isUndefined = false := hkept hvalue
      exact List.any_eq_false.mp habsence member hmem hundefined
    have hmember : member ∈ members.filter fun member => !member.isUndefined :=
      List.mem_filter.mpr ⟨hmem, by rw [hdefined]; rfl⟩
    split at hgives
    · rename_i hnone
      rw [hnone] at hmember
      cases hmember
    · rename_i only honly
      rw [honly, List.mem_singleton] at hmember
      exact serializeOnly_writes hready hanswered members honly hgives hinput hspares
        (hmember ▸ hone) hhelpers
    · obtain ⟨branches, hbranches, rfl⟩ := hgives.of_bind_pure
      have hall := serializeMembers_writes hready hanswered members true hbranches hinput hhelpers
      simp only [Bool.true_and] at hall
      exact .choose hspares hall ⟨member, hmember, hone⟩
  | _ =>
    rw [serializeDefined] at hgives
    · exact serializeKind_writes hready hanswered _ hgives hinput hspares hmatches hhelpers
    · intros
      contradiction

/-- A value is written as the only member that holds anything but undefined. -/
theorem serializeOnly_writes (hready : scope.Ready final base)
    (hanswered : scope.Answered world final base) (members : List Ty) {depth : Nat} {input : Expr}
    {env : Env} {value : Data} {expr : Expr} {only : Ty}
    (honly : members.filter (fun member => !member.isUndefined) = [only])
    (hgives : Gives final (scope.serializeOnly members depth input) expr)
    (hinput : scope.Stands world base env depth input value) (hspares : Spares scope.factory expr)
    (hmatches : Matches world scope.definitions value only.kind)
    (hhelpers : scope.HelpersWrite world final base (Ty.directOf members) (Ty.referencesOf members)
      value) :
    Writes world env expr := by
  cases members with
  | nil => cases honly
  | cons member rest =>
    rw [serializeOnly] at hgives
    rw [Ty.directOf, Ty.referencesOf] at hhelpers
    split at hgives
    · rename_i hundefined
      rw [List.filter_cons_of_neg (by simpa using hundefined)] at honly
      exact serializeOnly_writes hready hanswered rest honly hgives hinput hspares
        hmatches (hhelpers.mono (List.subset_append_right _ _) (List.subset_append_right _ _))
    · rename_i hdefined
      rw [List.filter_cons_of_pos (by simpa using hdefined), List.cons.injEq] at honly
      obtain ⟨rfl, -⟩ := honly
      exact serialize_writes hready hanswered member hgives hinput hspares hmatches
        (hhelpers.mono (List.subset_append_left _ _) (List.subset_append_left _ _))

/-- Each member of a union that is kept has a check that decides and a serializer that writes. -/
theorem serializeMembers_writes (hready : scope.Ready final base)
    (hanswered : scope.Answered world final base) (members : List Ty) (defined : Bool) {depth : Nat}
    {input : Expr} {env : Env} {value : Data} {branches : List (Expr × Expr)}
    (hgives : Gives final (scope.serializeMembers members defined depth input) branches)
    (hinput : scope.Stands world base env depth input value)
    (hhelpers : scope.HelpersWrite world final base (Ty.directOf members) (Ty.referencesOf members)
      value) :
    List.Forall₂ (Branch world scope.definitions scope.factory env value fun _ expr =>
      Writes world env expr)
      (members.filter fun member => !(defined && member.isUndefined)) branches := by
  cases members with
  | nil =>
    rw [serializeMembers] at hgives
    rw [← hgives.of_pure]
    exact .nil
  | cons member rest =>
    rw [serializeMembers] at hgives
    rw [Ty.directOf, Ty.referencesOf] at hhelpers
    have hrest := hhelpers.mono (List.subset_append_right _ _) (List.subset_append_right _ _)
    split at hgives
    · rename_i hskip
      rw [List.filter_cons_of_neg (by simpa using hskip)]
      exact serializeMembers_writes hready hanswered rest defined hgives hinput hrest
    · rename_i hkeep
      have hkept : (!(defined && member.isUndefined)) = true := by
        rw [Bool.not_eq_true] at hkeep
        rw [hkeep]
        rfl
      obtain ⟨condition, hcondition, hgives⟩ := hgives.of_bind scope.definitions fun _ =>
        .bind (serialize_asking scope member _ _) fun _ =>
          .bind (serializeMembers_asking scope rest _ _ _) fun _ => .pure _
      obtain ⟨part, hpart, hgives⟩ := hgives.of_bind scope.definitions fun _ =>
        .bind (serializeMembers_asking scope rest _ _ _) fun _ => .pure _
      obtain ⟨others, hothers, rfl⟩ := hgives.of_bind_pure
      rw [List.filter_cons_of_pos (p := fun member : Ty => !(defined && member.isUndefined)) hkept]
      have hinner := hhelpers.mono (List.subset_append_left _ _) (List.subset_append_left _ _)
      refine .cons ⟨?_, fun hspares hmatches => ?_⟩ (serializeMembers_writes hready hanswered rest
        defined hothers hinput hrest)
      · exact check_decides hready member hcondition hinput.stable hinput.helpers hinput.wellFormed
          (HelpersWrite.decide hinner)
      · exact serialize_writes hready hanswered member hpart hinput hspares hmatches
          hinner

end

/-- One call of a serializing helper: its body gives what the serializer of the definition gives. -/
theorem HelperWrites.of_definition (hready : scope.Ready final base)
    (hanswered : scope.Answered world final base) {name : String} (hvalue : value.WellFormed)
    (hhelpers : ∀ definition, scope.definitions.get? name = some definition →
      scope.HelpersWrite world final base definition.direct definition.references value) :
    scope.HelperWrites world final base name value := by
  intro hmatches index function hrequested hlookup
  obtain ⟨definition, params, body, hdefinition, hgives, hlookup'⟩ := hready.links _ hrequested
  rw [Matches.reference_iff hdefinition] at hmatches
  obtain rfl : function = .closure params (.concise body) base :=
    Option.some.inj (hlookup.symm.trans hlookup')
  obtain ⟨part, hpart, hclosure⟩ := Gives.of_map hgives
  cases hclosure
  obtain ⟨result, hwritten, heval⟩ := (serialize_writes hready hanswered definition hpart
    ⟨helperInput_stable value, helperInput_extends (.data value),
      .bind hanswered.free hanswered.input _, hvalue⟩
    (hanswered.spares index name definition body hrequested hdefinition hpart) hmatches
    (hhelpers definition hdefinition)).gives
  exact ⟨result, hwritten, fun heap => apply_closure (heval heap)⟩

/-- The serializer of a guarded type. -/
theorem serialize_writes_of_guarded (hready : scope.Ready final base)
    (hanswered : scope.Answered world final base) {type : Ty}
    (hguarded : scope.definitions.Guarded type) {depth : Nat} {input expr : Expr} {env : Env}
    (hgives : Gives final (scope.serialize type depth input) expr)
    (hinput : Stable world env depth input value) (henv : base.Extends env)
    (hsees : scope.Sees env input) (hspares : Spares scope.factory expr)
    (hvalue : value.WellFormed) (hmatches : Matches world scope.definitions value type.kind) :
    Writes world env expr := by
  refine serialize_writes hready hanswered type hgives ⟨hinput, henv, hsees, hvalue⟩ hspares
    hmatches
    (hguarded.helpersHold (fun name value hname hvalue hhelpers => ⟨?_, ?_⟩) hvalue)
  · exact .of_definition hready hvalue fun definition hdefinition =>
      HelpersWrite.decide (hhelpers definition hdefinition)
  · exact .of_definition hready hanswered hvalue hhelpers

end Scope

end TypedRoutes
