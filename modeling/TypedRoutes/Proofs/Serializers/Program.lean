import TypedRoutes.Proofs.Modes.Closures
import TypedRoutes.Proofs.Serializers.Correct

/-!
# Serializers as programs

The closure of the mode without a check declares the helpers that its serializer needs and returns
the text. For a value that the check of the type accepts it ends with a JSON text of what of the
value belongs to the type.
-/

namespace TypedRoutes

namespace Scope

open Generate TypedRoutes.Runtime

variable {scope : Scope} {final : Registry} {generated : List (Helper × Expr)} {base : Env}
  {world : World} {type : Ty} {value : Data}

/-- The helpers of one registry make a type's serializer one expression. -/
theorem serialize_unique (hsound : Registry.Sound scope.definitions final) {depth : Nat}
    {text text' : Expr} (hgives : Gives final (scope.serialize type depth input) text)
    (hgives' : Gives final (scope.serialize type depth input) text') : text = text' := by
  have hlinks : final.LinkedBy Eq final := by
    intro kind i j name hfirst hsecond
    have hindex : i = j := (hsound.index_eq _ hfirst).trans (hsound.index_eq _ hsecond).symm
    rw [hindex]
  have hinput : Alike scope.factory Eq [] input input := .linked rfl
  exact (serialize_alike scope hlinks type depth hinput _ _ hgives hgives').eq_of_links id

/-- What the helpers of a program spare, the serializer of each of them spares. -/
theorem Drained.serializer_spares (hdrained : scope.Drained 0 final generated)
    (hspares : ∀ part ∈ blockParts (helperStatements generated), Spares scope.factory part)
    (index : Nat) (name : String) (definition : Ty) (text : Expr)
    (hrequested : ⟨.serialize, index, name⟩ ∈ final.requested)
    (hdefinition : scope.definitions.get? name = some definition)
    (hgives : Gives final (scope.serialize definition 0 input) text) :
    Spares scope.factory text := by
  rw [hdrained.requested] at hrequested
  obtain ⟨⟨helper, closure⟩, hentry, rfl⟩ := List.mem_map.mp hrequested
  obtain ⟨found, hfound, hclosure⟩ := hdrained.gives _ hentry
  obtain rfl : found = definition := Option.some.inj (hfound.symm.trans hdefinition)
  obtain ⟨same, hsame, rfl⟩ := Gives.of_map hclosure
  obtain rfl : same = text := serialize_unique hdrained.sound hsame hgives
  have hmem : Expr.lambda ["input"] same ∈ blockParts (helperStatements generated) :=
    mem_blockParts.mpr ⟨_, mem_helperStatements.mpr ⟨_, hentry, rfl⟩, by
      simp [declareHelper, Stmt.parts]⟩
  exact (hspares _ hmem).lambda_body

/-- The factory does not mention the name of the input. -/
theorem Hosts.input_not_mem (hhosts : scope.Hosts value final base) :
    "input" ∉ scope.factory.identifiers := by
  intro hmentioned
  have hfree := hhosts.free _ hmentioned
  rw [hhosts.input] at hfree
  cases hfree

/-- What a closure takes from the factory it takes from an object that is in place. -/
theorem Hosts.serves (hhosts : scope.Hosts value final base)
    (hdrained : scope.Drained 0 final generated)
    (hspares : ∀ part ∈ blockParts (helperStatements generated), Spares scope.factory part)
    {object : Data} (hobject : Encodes world object)
    (hfactory : Evaluates world .empty scope.factory (.data object)) :
    scope.Serves world final base where
  object := ⟨object, hobject, hfactory⟩
  free := hhosts.free
  input := hhosts.input_not_mem
  spares := hdrained.serializer_spares hspares

theorem Hosts.sees (hhosts : scope.Hosts value final base) : scope.Sees base Scope.input where
  free := hhosts.free
  taken := ⟨"input", by simp [Scope.input, Expr.identifiers], by rw [hhosts.input]; rfl⟩

/-- A value that the check of a guarded type accepts matches the type. -/
theorem matches_of_accepts (world : World) (scope : Scope) (type : Ty) (value : Data)
    (hguarded : scope.definitions.Guarded type) (hvalue : value.WellFormed) {heap after : Heap}
    (haccepts : (exec world (.input value) (scope.checkProgram type)).Yields heap
      (some (.data (.boolean true))) after) :
    Matches world scope.definitions value type.kind := by
  classical
  have hresult := decide_eq_true_iff (p := Matches world scope.definitions value type.kind)
  have hchecked := checkProgram_yields world scope type value hguarded hvalue hresult heap
  obtain ⟨hsame, -⟩ := hchecked.unique haccepts
  simp only [Option.some.injEq, Value.data.injEq, Data.boolean.injEq] at hsame
  exact hresult.mp hsame

variable (scope) in
/-- The closure of the mode without a check gives what the serializer of its type gives behind the
helpers. Neither takes a name from the factory. -/
theorem serializer_call (world : World) (type : Ty) (value : Data)
    (hfactory : Spares scope.factory
      (scope.artifactLiteral .stringify type)) :
    ∃ final base generated text, scope.Hosts value final base ∧
      scope.Drained 0 final generated ∧
      (∀ part ∈ blockParts (helperStatements generated), Spares scope.factory part) ∧
      Gives final (scope.serialize type 0 input) text ∧ Spares scope.factory text ∧
      (scope.literalCall world .stringify type value).Joins
        (eval world base text) := by
  obtain ⟨final, base, generated, statements, hhosts, hdrained, hspares, -, hgives, hjoins⟩ :=
    scope.plain_call world (by decide) type value hfactory
  obtain ⟨text, htext, -, rfl⟩ := gives_stringify hgives
  rw [blockParts_append] at hspares
  refine ⟨final, base, generated, text, hhosts, hdrained,
    fun part hmem => hspares part (List.mem_append_left _ hmem), htext, ?_,
    hjoins.trans (returned_joins text)⟩
  exact hspares text (List.mem_append_right _ (by simp [blockParts, Stmt.parts]))

end Scope

open TypedRoutes.Runtime

/-- Take a guarded type whose definitions are serializable, a value that its check accepts, and a
factory that stands for an object whose two functions give JSON texts, none of its names being bound
by the artifact. The closure of the artifact ends on the value, with a JSON text of what of the
value belongs to the type. -/
theorem stringify_correct (world : World) (definitions : TypeTable) (factory : Expr) (type : Ty)
    (value object : Data) (hguarded : definitions.Guarded type)
    (htype : definitions.Serializes type)
    (hvalue : value.WellFormed) {heap after : Heap}
    (haccepts : (exec world (.input value)
      (Scope.checkProgram (.mk factory definitions) type)).Yields
      heap (some (.data (.boolean true))) after)
    (hobject : Encodes world object) (hfactory : Evaluates world .empty factory (.data object))
    (hnames : ∀ name ∈ factory.identifiers,
      ¬ Binds factory name (artifact definitions factory .stringify type)) :
    ∃ image text, Projects world definitions value type.kind image ∧ JsonText text image ∧
      ∀ heap, (modeCall world definitions factory .stringify type value).Yields heap
        (.data (.string text)) heap := by
  let scope : Scope := .mk factory definitions
  obtain ⟨final, base, generated, text, hhosts, hdrained, hspares, htext, hreturned, hjoins⟩ :=
    scope.serializer_call world type value hnames
  have hmatches : Matches world definitions value type.kind :=
    scope.matches_of_accepts world type value hguarded hvalue haccepts
  obtain ⟨image, json, hprojects, hjson, hspells⟩ :=
    Scope.serialize_correct_of_guarded hhosts.ready
      (hhosts.serves hdrained hspares hobject hfactory) hguarded htype htext
      (.bound hhosts.input (not_boundFrom_parameter (by simp [parameters]))) (.refl base)
      hhosts.sees hreturned hvalue hmatches
  exact ⟨image, json, hprojects, hjson, fun heap => hjoins.yields (hspells.evaluates heap)⟩

/-- An object whose two functions write strings and numbers as JSON. -/
def encoder : Data :=
  .object [("string", .function (.host "quote")), ("number", .function (.host "numeral"))]

/-- Surroundings in which that object has a name. -/
def encodingWorld : World :=
  .isolated (fun name => if name = "core" then some encoder else none) fun function _ arguments =>
    match function, arguments with
    | "quote", [.string text] => .ok (.string (Json.quote text))
    | "numeral", [.number value] => .ok (.string (numberLiteral value))
    | _, _ => .error .typeError

theorem encodes_encoder : Encodes encodingWorld encoder where
  present := rfl
  string := ⟨"quote", rfl, fun text => ⟨_, rfl, .string text⟩⟩
  number := ⟨"numeral", rfl, fun _ hfinite => ⟨_, rfl, .number hfinite⟩⟩

theorem evaluates_encoder :
    Evaluates encodingWorld .empty (.identifier "core") (.data encoder) := by
  refine fun heap => .step ?_
  simp only [eval, Runtime.readName]
  exact .pure _ heap

theorem serializes_listDefinitions :
    Scope.listDefinitions.Serializes (TyKind.reference "Node").type where
  kind := .reference "Node"
  defined := by
    obtain ⟨definition, hdefinition, hreferences, hkind⟩ : ∃ definition,
        Scope.listDefinitions.get? "Node" = some definition ∧ definition.references = ["Node"] ∧
          definition.kind.Serializable := by
      refine ⟨_, rfl, rfl, .object fun property hproperty type htype _ => ?_⟩
      simp only [List.mem_cons, List.not_mem_nil, or_false] at hproperty
      rcases hproperty with rfl | rfl
      · cases List.mem_singleton.mp htype
        exact .number
      · change type ∈ [_, _] at htype
        rcases List.mem_pair.mp htype with rfl | rfl
        · exact .null
        · exact .reference "Node"
    intro name hname
    have hnode : name = "Node" := by
      induction hname with
      | here mem => exact List.mem_singleton.mp mem
      | through _ defined mem ih =>
        subst ih
        cases hdefinition.symm.trans defined
        rw [hreferences] at mem
        exact List.mem_singleton.mp mem
    exact ⟨definition, hnode ▸ hdefinition, hkind⟩

theorem matches_node (world : World) {value : Float} (hvalue : value.isFinite = true) :
    Matches world Scope.listDefinitions (.object [("value", .number value), ("next", .null)])
      (.reference "Node") := by
  refine .reference rfl (.object rfl fun property hproperty _ => ?_)
  simp only [List.mem_cons, List.not_mem_nil, or_false] at hproperty
  rcases hproperty with rfl | rfl
  · exact .number hvalue
  · exact .union List.mem_cons_self .null

/-- A list of one number is written, by the helper that it comes back to. -/
theorem stringify_correct_list :
    Scope.listDefinitions.Guarded (TyKind.reference "Node").type ∧
      Scope.listDefinitions.Serializes (TyKind.reference "Node").type ∧
      (Data.object [("value", .number 1), ("next", .null)]).WellFormed ∧
      (exec encodingWorld (.input (.object [("value", .number 1), ("next", .null)]))
        (Scope.checkProgram (.mk (.identifier "core") Scope.listDefinitions)
          (TyKind.reference "Node").type)).Yields [] (some (.data (.boolean true))) [] ∧
      Encodes encodingWorld encoder ∧
      Evaluates encodingWorld .empty (.identifier "core") (.data encoder) ∧
      (∀ name ∈ (Expr.identifier "core").identifiers,
        ¬ Binds (.identifier "core") name (artifact Scope.listDefinitions (.identifier "core")
          .stringify (TyKind.reference "Node").type)) ∧
      ∃ image text, Projects encodingWorld Scope.listDefinitions
          (.object [("value", .number 1), ("next", .null)]) (.reference "Node") image ∧
        JsonText text image ∧ ∀ heap,
          (modeCall encodingWorld Scope.listDefinitions (.identifier "core") .stringify
            (TyKind.reference "Node").type
            (.object [("value", .number 1), ("next", .null)])).Yields heap (.data (.string text))
              heap := by
  have hvalue := Scope.wellFormed_node (.number 1)
  have haccepts :=
    Scope.checkProgram_yields encodingWorld (.mk (.identifier "core") Scope.listDefinitions)
    (TyKind.reference "Node").type _ Scope.listDefinitions_guarded hvalue
    (iff_of_true rfl (matches_node encodingWorld rfl)) []
  exact ⟨Scope.listDefinitions_guarded, serializes_listDefinitions, hvalue, haccepts,
    encodes_encoder,
    evaluates_encoder, not_binds_core, stringify_correct encodingWorld Scope.listDefinitions
      (.identifier "core") (TyKind.reference "Node").type _ encoder Scope.listDefinitions_guarded
      serializes_listDefinitions hvalue haccepts encodes_encoder evaluates_encoder not_binds_core⟩

end TypedRoutes
