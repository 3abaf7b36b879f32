import TypedRoutes.Proofs.Serializers.Correct

/-!
# Undefined parts of containers

Arrays, tuples and records whose parts are texts, numbers, truth values, null or undefined. Their
serializers do not look whether a part is undefined: nothing is written for it between the commas of
an array, and the word in a tuple and behind the key of a record. The text is a JSON text where no
part is undefined.
-/

namespace TypedRoutes

/-- The kinds put together from texts, numbers, truth values, null and undefined by unions. -/
inductive TyKind.Flat : TyKind → Prop where
  | string : Flat .string
  | number : Flat .number
  | boolean : Flat .boolean
  | null : Flat .null
  | undefined : Flat .undefined
  | void : Flat .void
  | union {members : List Ty} (each : ∀ member ∈ members, Flat member.kind) : Flat (.union members)

/-- The containers with parts of such kinds. -/
inductive TyKind.HoldsFlat : TyKind → Prop where
  | array {element : Ty} (each : element.kind.Flat) : HoldsFlat (.array element)
  | tuple {elements : List Ty} (each : ∀ element ∈ elements, element.kind.Flat) :
      HoldsFlat (.tuple elements)
  | record {value : Ty} (each : value.kind.Flat) : HoldsFlat (.record value)

/-- A type names what its kind names. -/
theorem Ty.references_eq_kind (type : Ty) : type.references = type.kind.references := by
  cases type
  rfl

theorem Ty.referencesOf_eq_nil {types : List Ty} (h : ∀ type ∈ types, type.kind.references = []) :
    Ty.referencesOf types = [] := by
  rw [Ty.referencesOf_eq_flatMap, List.flatMap_eq_nil_iff]
  intro type hmem
  rw [type.references_eq_kind]
  exact h type hmem

/-- A flat kind names no other type. -/
theorem TyKind.Flat.references {kind : TyKind} (h : kind.Flat) : kind.references = [] := by
  induction h with
  | union _ ih =>
    rw [TyKind.references]
    exact Ty.referencesOf_eq_nil ih
  | _ => rfl

/-- An array, a tuple or a record of flat types names no other type. -/
theorem TyKind.HoldsFlat.references {kind : TyKind} (h : kind.HoldsFlat) :
    kind.references = [] := by
  cases h with
  | array each =>
    rw [TyKind.references, Ty.references_eq_kind]
    exact each.references
  | tuple each =>
    rw [TyKind.references]
    exact Ty.referencesOf_eq_nil fun element hmem => (each element hmem).references
  | record each =>
    rw [TyKind.references, Ty.references_eq_kind]
    exact each.references

/-- A type that refers to nothing is guarded. -/
theorem TypeTable.guarded_of_references (definitions : TypeTable) {type : Ty}
    (h : type.kind.references = []) : definitions.Guarded type := by
  have hnone : ∀ name, ¬ definitions.Reaches type name := by
    intro name hname
    induction hname with
    | here mem =>
      rw [type.references_eq_kind, h] at mem
      cases mem
    | through _ _ _ ih => exact ih
  exact fun name hname => absurd hname (hnone name)

namespace Runtime

variable {world : World} {env : Env} {text : String} {value result : Data}
  {items results : List Data}

/-- What is written for a value that has a JSON text or is undefined. -/
inductive Encoded : Data → Data → Prop where
  | undefined : Encoded .undefined .undefined
  | text {text : String} {value : Data} (json : JsonText text value) : Encoded value (.string text)

/-- The text stands for the value: it is a JSON text of it, or the gap where the value is
undefined. -/
inductive Fills (gap : String) : Data → String → Prop where
  | undefined : Fills gap .undefined gap
  | text {text : String} {value : Data} (json : JsonText text value) : Fills gap value text

/-- A key in front of a colon and the text for a value. -/
def FillsMember (gap : String) (member : String × Data) (text : String) : Prop :=
  ∃ key more, text = key ++ ":" ++ more ∧ JsonText key (.string member.1) ∧
    Fills gap member.2 more

/-- The text of a container, with the gaps that undefined parts leave. -/
inductive GappedText : TyKind → Data → String → Prop where
  | array {element : Ty} {items : List Data} {texts : List String}
      (each : List.Forall₂ (Fills "") items texts) :
      GappedText (.array element) (.array items) ("[" ++ separated "," texts ++ "]")
  | tuple {elements : List Ty} {items : List Data} {texts : List String}
      (each : List.Forall₂ (Fills "undefined") items texts) :
      GappedText (.tuple elements) (.array items) ("[" ++ separated "," texts ++ "]")
  | record {type : Ty} {value : Data} {texts : List String}
      (each : List.Forall₂ (FillsMember "undefined") (value.keys.zip value.values) texts) :
      GappedText (.record type) value ("\x7b" ++ separated "," texts ++ "\x7d")

/-! ## Without undefined parts -/

/-- A text that is filled in for a value which is not undefined is JSON for it. -/
theorem Fills.jsonText {gap : String} (h : Fills gap value text) (hdefined : value ≠ .undefined) :
    JsonText text value := by
  cases h with
  | undefined => exact absurd rfl hdefined
  | text json => exact json

/-- A member that is filled in for a value which is not undefined is a member of a JSON object. -/
theorem FillsMember.memberText {gap : String} {member : String × Data}
    (h : FillsMember gap member text) (hdefined : member.2 ≠ .undefined) :
    MemberText text member := by
  obtain ⟨key, more, rfl, hkey, hmore⟩ := h
  exact ⟨key, more, rfl, hkey, hmore.jsonText hdefined⟩

/-- Where no part is undefined, the text is a JSON text: of the items in their order, or of the keys
of a record with what stands behind them. -/
theorem GappedText.jsonText {kind : TyKind} (h : GappedText kind value text)
    (hdefined : ∀ part ∈ value.values, part ≠ .undefined) :
    JsonText text (.array value.values) ∨
      JsonText text (.object (value.keys.zip value.values)) := by
  cases h with
  | @array _ items texts each | @tuple _ items texts each =>
    have hall : List.Forall₂ (flip JsonText) items texts :=
      ((List.forall₂_and_left _ _).mpr ⟨hdefined, each⟩).imp fun _ _ h => h.2.jsonText h.1
    exact .inl (.array hall.flip)
  | @record _ _ texts each =>
    have hmembers : ∀ member ∈ value.keys.zip value.values, member.2 ≠ .undefined :=
      fun member hmem => hdefined _ (List.of_mem_zip hmem).2
    have hall : List.Forall₂ (flip MemberText) (value.keys.zip value.values) texts :=
      ((List.forall₂_and_left _ _).mpr ⟨hmembers, each⟩).imp fun _ _ h => h.2.memberText h.1
    exact .inr (.object hall.flip)

/-! ## What flat values are put together from -/

/-- What an encoding evaluates to is written, in a concatenation, as the value is filled in with the
word. -/
theorem Encoded.fills (world : World) (h : Encoded value result) :
    ∃ text, result.text? world = some text ∧ Fills "undefined" value text := by
  cases h with
  | undefined => exact ⟨_, rfl, .undefined⟩
  | text json => exact ⟨_, rfl, .text json⟩

/-- What an encoding evaluates to is joined as the value is filled in with nothing. -/
theorem Encoded.joinText (world : World) (h : Encoded value result) :
    ∃ text, joinText? world result = some text ∧ Fills "" value text := by
  cases h with
  | undefined => exact ⟨_, rfl, .undefined⟩
  | text json => exact ⟨_, rfl, .text json⟩

theorem Encoded.joinTexts (world : World) (h : List.Forall₂ Encoded items results) :
    ∃ texts, results.mapM (joinText? world) = some texts ∧
      List.Forall₂ (Fills "") items texts := by
  induction h with
  | nil => exact ⟨[], rfl, .nil⟩
  | cons hfirst _ ih =>
    obtain ⟨text, htext, hfills⟩ := hfirst.joinText world
    obtain ⟨texts, htexts, hall⟩ := ih
    exact ⟨text :: texts, by simp [htext, htexts], .cons hfills hall⟩

/-- The expression is no concatenation, and evaluates to what is written for the value. -/
structure Encodings (world : World) (env : Env) (value : Data) (expr : Expr) : Prop where
  single : expr.operands .plus = [expr]
  gives : ∃ result, Encoded value result ∧ Evaluates world env expr (.data result)

namespace Encodings

variable {expr : Expr}

/-- The operands of an encoding write the value, piece by piece. -/
theorem pieces (h : Encodings world env value expr) :
    ∃ text, Fills "undefined" value text ∧ Pieces world env (expr.operands .plus) text := by
  obtain ⟨result, hencoded, heval⟩ := h.gives
  obtain ⟨text, htext, hfills⟩ := hencoded.fills world
  exact ⟨text, hfills, by rw [h.single]; exact .singleton heval htext⟩

end Encodings

/-- What spells the JSON text of a value that is its own image. -/
theorem Serializes.encodings {definitions : TypeTable} {kind : TyKind} {expr : Expr}
    (h : Serializes world definitions env expr value kind) (hshape : expr.operands .plus = [expr])
    (hsame : ∀ image, Projects world definitions value kind image → image = value) :
    Encodings world env value expr := by
  obtain ⟨image, text, hprojects, hjson, hspells⟩ := h
  obtain rfl := hsame image hprojects
  exact ⟨hshape, _, .text hjson, hspells.evaluates⟩

end Runtime

namespace Scope

open Generate TypedRoutes.Runtime

variable {world : World} {scope : Scope} {final : Registry} {base env : Env} {depth : Nat}
  {input expr : Expr} {value : Data}

/-- The members of a union that refer to nothing, each with what is known of its serializer. -/
theorem serializeMembers_flat (hready : scope.Ready final base) (gives : Ty → Expr → Prop)
    (members : List Ty) {branches : List (Expr × Expr)}
    (hgives : Gives final (scope.serializeMembers members false depth input) branches)
    (hinput : scope.Stands world base env depth input value)
    (hreferences : ∀ member ∈ members, member.kind.references = [])
    (hmembers : ∀ member ∈ members, ∀ part, Gives final (scope.serialize member depth input) part →
      Spares scope.factory part → Matches world scope.definitions value member.kind →
        gives member part) :
    List.Forall₂ (Branch world scope.definitions scope.factory env value gives) members
      branches := by
  induction members generalizing branches with
  | nil =>
    rw [serializeMembers] at hgives
    rw [← hgives.of_pure]
    exact .nil
  | cons member rest ih =>
    rw [serializeMembers, Bool.false_and, if_neg Bool.false_ne_true] at hgives
    obtain ⟨condition, hcondition, hgives⟩ := hgives.of_bind scope.definitions fun _ =>
      .bind (serialize_asking scope member _ _) fun _ =>
        .bind (serializeMembers_asking scope rest _ _ _) fun _ => .pure _
    obtain ⟨part, hpart, hgives⟩ := hgives.of_bind scope.definitions fun _ =>
      .bind (serializeMembers_asking scope rest _ _ _) fun _ => .pure _
    obtain ⟨others, hothers, rfl⟩ := hgives.of_bind_pure
    obtain ⟨hnone, hrest⟩ := List.forall_mem_cons.mp hreferences
    obtain ⟨hfirst, hmore⟩ := List.forall_mem_cons.mp hmembers
    refine .cons ⟨?_, hfirst part hpart⟩ (ih hothers hrest hmore)
    exact check_decides_of_guarded hready (scope.definitions.guarded_of_references hnone) hcondition
      hinput.stable hinput.helpers hinput.wellFormed

/-- The serializer of a flat kind, for a value that matches, undefined included. -/
theorem serializeKind_flat (hready : scope.Ready final base)
    (hserves : scope.Serves world final base) (hundefined : world.json .undefined = .ok .undefined)
    {kind : TyKind} (hflat : kind.Flat) {aliasName : Option String}
    (hgives : Gives final (scope.serializeKind kind aliasName depth input) expr)
    (hinput : scope.Stands world base env depth input value) (hspares : Spares scope.factory expr)
    (hmatches : Matches world scope.definitions value kind) : Encodings world env value expr := by
  have hjson := hready.standard.extends hinput.helpers "JSON" _ rfl
  induction hflat generalizing aliasName expr with
  | string | number | boolean | null =>
    have hshape : expr.operands .plus = [expr] := by
      rw [serializeKind] at hgives
      rw [← hgives.of_pure]
      rfl
    refine (serializeKind_correct hready hserves _ hgives hinput hspares (by constructor) hmatches
      ⟨by simp [TyKind.direct], by simp [TyKind.references]⟩).encodings hshape
        fun image hprojects => ?_
    cases hprojects
    rfl
  | undefined | void =>
    rw [serializeKind] at hgives
    rw [← hgives.of_pure]
    cases hmatches
    exact ⟨rfl, _, .undefined, .standardJson hjson hinput.evaluates hundefined⟩
  | @union members each ih =>
    rw [serializeKind] at hgives
    obtain ⟨branches, hbranches, rfl⟩ := hgives.of_bind_pure
    have hall := serializeMembers_flat hready (fun _ => Encodings world env value) members
      hbranches hinput (fun member hmem => (each member hmem).references)
      fun member hmem part hpart hspares hmember => by
        obtain ⟨kind, aliasName⟩ := member
        rw [serialize] at hpart
        exact ih _ hmem hpart hspares hmember
    refine Branch.choose (motive := fun _ => Encodings world env value) (fun _ _ _ _ h => h)
      (fun _ _ _ _ h => h) ?_ hspares hall (Matches.union_iff.mp hmatches)
    intro _ condition whenTrue whenFalse flag hcondition hchosen
    obtain ⟨result, hencoded, heval⟩ := hchosen.gives
    exact ⟨rfl, result, hencoded, .conditional hcondition heval⟩

/-- The serializer of a flat type gives an encoding of the value, which may be undefined. -/
theorem serialize_flat (hready : scope.Ready final base) (hserves : scope.Serves world final base)
    (hundefined : world.json .undefined = .ok .undefined) {type : Ty} (hflat : type.kind.Flat)
    (hgives : Gives final (scope.serialize type depth input) expr)
    (hinput : scope.Stands world base env depth input value) (hspares : Spares scope.factory expr)
    (hmatches : Matches world scope.definitions value type.kind) :
    Encodings world env value expr := by
  obtain ⟨kind, aliasName⟩ := type
  rw [serialize] at hgives
  exact serializeKind_flat hready hserves hundefined hflat hgives hinput hspares hmatches

/-- The parts of a tuple from a position on, with commas between them. -/
theorem serializeElements_flat (hready : scope.Ready final base)
    (hserves : scope.Serves world final base) (hundefined : world.json .undefined = .ok .undefined)
    (elements : List Ty) (position : Nat) {items : List Data} {parts : List Expr}
    (hgives : Gives final (scope.serializeElements elements depth input position) parts)
    (hinput : scope.Stands world base env depth input (.array items))
    (hspares : ∀ part ∈ parts, Spares scope.factory part)
    (hlength : position + elements.length = items.length)
    (hflat : ∀ element ∈ elements, element.kind.Flat)
    (hmatches : ∀ pair ∈ (items.drop position).zip elements,
      Matches world scope.definitions pair.1 pair.2.kind) :
    ∃ texts, List.Forall₂ (Fills "undefined") (items.drop position) texts ∧
      Pieces world env (Expr.flatten .plus parts) (listed (decide (position = 0)) texts) := by
  induction elements generalizing position parts with
  | nil =>
    rw [serializeElements] at hgives
    rw [← hgives.of_pure, List.drop_eq_nil_of_le (by rw [← hlength]; rfl)]
    exact ⟨[], .nil, .nil⟩
  | cons element rest ih =>
    rw [serializeElements] at hgives
    obtain ⟨part, hpart, hgives⟩ := hgives.of_bind scope.definitions fun _ =>
      .bind (serializeElements_asking scope rest _ _ _) fun _ => .pure _
    obtain ⟨others, hothers, hparts⟩ := hgives.of_bind_pure
    rw [List.length_cons] at hlength
    have hposition : position < items.length := by omega
    rw [List.drop_eq_getElem_cons hposition, List.zip_cons_cons] at hmatches
    rw [List.drop_eq_getElem_cons hposition]
    obtain ⟨hfirst, hrest⟩ := List.forall_mem_cons.mp hmatches
    obtain ⟨hown, hmore⟩ := List.forall_mem_cons.mp hflat
    obtain ⟨text, hfills, hpieces⟩ := (serialize_flat hready hserves hundefined hown hpart
      (hinput.position hposition) (hspares part (by rw [← hparts]; split <;> simp)) hfirst).pieces
    obtain ⟨texts, hall, htail⟩ := ih (position + 1) hothers
      (fun other hother => hspares other (by rw [← hparts]; split <;> simp [hother])) (by omega)
      hmore hrest
    refine ⟨text :: texts, .cons hfills hall, ?_⟩
    rw [decide_eq_false (Nat.succ_ne_zero position)] at htail
    have hwhole := hpieces.flatten_cons htail
    by_cases hzero : position = 0
    · rw [if_pos hzero] at hparts
      rw [← hparts, decide_eq_true hzero, listed]
      simpa using hwhole
    · rw [if_neg hzero] at hparts
      rw [← hparts, decide_eq_false hzero, listed, String.append_assoc]
      exact hwhole.string_cons ","

/-- The serializer of a container with flat parts, for a value that matches. -/
theorem serializeKind_gapped (hready : scope.Ready final base)
    (hserves : scope.Serves world final base) (hundefined : world.json .undefined = .ok .undefined)
    {kind : TyKind} (hkind : kind.HoldsFlat) {aliasName : Option String}
    (hgives : Gives final (scope.serializeKind kind aliasName depth input) expr)
    (hinput : scope.Stands world base env depth input value) (hspares : Spares scope.factory expr)
    (hmatches : Matches world scope.definitions value kind) :
    ∃ text, GappedText kind value text ∧ Spells world env expr text := by
  have hstandard := hready.standard.extends hinput.helpers
  cases hkind with
  | @array element each =>
    rw [serializeKind] at hgives
    obtain ⟨body, hbody, rfl⟩ := hgives.of_bind_pure
    cases hmatches with
    | @array items _ hitems =>
      have hclosure := hinput.closure hspares (List.Subset.refl _)
      have hgiven : ∀ item ∈ items, ∃ result, Encoded item result ∧
          Evaluates world (.bind (bindingName depth "elem") (.data item) env) body
            (.data result) := fun item hitem =>
        (serialize_flat hready hserves hundefined each hbody
          (hinput.parameter (by simp [binders]) hclosure (hinput.wellFormed.values hitem))
          hclosure.lambda_body (hitems item hitem)).gives
      obtain ⟨results, hresults⟩ := exists_forall₂ hgiven
      obtain ⟨texts, htexts, hfills⟩ := Encoded.joinTexts world (hresults.imp fun _ _ h => h.1)
      exact ⟨_, .array hfills, .bracketed "[" "]"
        (hinput.evaluates.map (hresults.imp fun _ _ h => h.2)) htexts⟩
  | @tuple elements each =>
    rw [serializeKind] at hgives
    obtain ⟨parts, hparts, rfl⟩ := hgives.of_bind_pure
    cases hmatches with
    | @tuple items _ hlength hitems =>
      obtain ⟨texts, hfills, hpieces⟩ := serializeElements_flat hready hserves hundefined elements 0
        hparts hinput (fun part hmem => hspares.concatenation (by simp [hmem]))
        (by simpa using hlength.symm) each (by simpa using hitems)
      rw [decide_eq_true rfl, listed_true] at hpieces
      exact ⟨_, .tuple hfills, .enclosed "[" "]" hpieces⟩
  | @record type each =>
    rw [serializeKind] at hgives
    obtain ⟨body, hbody, rfl⟩ := hgives.of_bind_pure
    cases hmatches with
    | record shape hitems =>
      obtain ⟨object, hencodes, hfactory⟩ := hserves.object
      have hclosure := hinput.closure hspares (by
        simp [Expr.invoke, Expr.identifiers, Expr.identifiersOf])
      have hgiven : ∀ key ∈ value.keys, ∃ text,
          FillsMember "undefined" (key, world.get value key) text ∧
          Evaluates world (.bind (bindingName depth "key") (.data (.string key)) env)
            (Expr.concatenation [.invoke (scope.runtime "string")
              [.identifier (bindingName depth "key")], .string ":", body])
            (.data (.string text)) := by
        intro key hmem
        have hname := hinput.parameter (by simp [binders]) hclosure (.string key)
        obtain ⟨json, hjson, hspells⟩ :=
          runtime_string hencodes (hfactory.elsewhere hname.sees.free) hname.evaluates
        obtain ⟨text, hfills, hpieces⟩ := (serialize_flat hready hserves hundefined each hbody
          (hinput.key (by simp [binders]) shape hclosure key)
          (hclosure.lambda_body.concatenation (by simp))
          (hitems _ (world.get_key_mem hinput.wellFormed hmem))).pieces
        exact ⟨_, ⟨json, text, rfl, hjson, hfills⟩, (hspells.member hpieces).evaluates⟩
      obtain ⟨texts, htexts⟩ := exists_forall₂ hgiven
      have hfills : List.Forall₂ (FillsMember "undefined") (value.keys.zip value.values) texts := by
        rw [← world.map_get_keys hinput.wellFormed, ← List.map_prod_left_eq_zip,
          List.forall₂_map_left_iff]
        exact htexts.imp fun _ _ h => h.1
      refine ⟨_, .record hfills, .bracketed "\x7b" "\x7d" ((Evaluates.keys (hstandard _ _ rfl)
        hinput.evaluates shape).map ?_) (mapM_joinText? texts)⟩
      rw [List.forall₂_map_left_iff, List.forall₂_map_right_iff]
      exact htexts.imp fun _ _ h => h.2

end Scope

end TypedRoutes
