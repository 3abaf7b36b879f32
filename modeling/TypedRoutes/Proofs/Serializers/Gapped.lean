import TypedRoutes.Proofs.Serializers.Gaps
import TypedRoutes.Proofs.Serializers.Program

/-!
# Containers with undefined parts as programs

The closure of the mode without a check ends on every container of flat parts that the check of its
type accepts, with a text in which undefined parts leave gaps. Such a text need not be JSON.
-/

namespace TypedRoutes

open TypedRoutes.Runtime

variable {world : World} {definitions : TypeTable} {factory : Expr} {type : Ty}
  {value object : Data}

/-- A container of flat parts that matches its type is serialized, gaps included. -/
theorem stringify_gapped (htype : type.kind.HoldsFlat) (hvalue : value.WellFormed)
    (hmatches : Matches world definitions value type.kind) (hobject : Encodes world object)
    (hfactory : Evaluates world .empty factory (.data object))
    (hundefined : world.json .undefined = .ok .undefined)
    (hnames : ∀ name ∈ factory.identifiers,
      ¬ Binds factory name (artifact definitions factory .stringify type)) :
    ∃ text, GappedText type.kind value text ∧
      ∀ heap, (modeCall world definitions factory .stringify type value).Yields heap
        (.data (.string text)) heap := by
  let scope : Scope := .mk factory definitions
  obtain ⟨final, base, generated, expr, hhosts, hdrained, hspares, hgives, hreturned, hjoins⟩ :=
    scope.serializer_call world type value hnames
  have hinput : scope.Stands world base base 0 Scope.input value :=
    ⟨.bound hhosts.input (not_boundFrom_parameter (by simp [parameters])), .refl base, hhosts.sees,
      hvalue⟩
  obtain ⟨kind, aliasName⟩ := type
  rw [Scope.serialize] at hgives
  obtain ⟨text, hgapped, hspells⟩ := Scope.serializeKind_gapped hhosts.ready
    (hhosts.serves hdrained hspares hobject hfactory) hundefined htype hgives hinput hreturned
    hmatches
  exact ⟨text, hgapped, fun heap => hjoins.yields (hspells.evaluates heap)⟩

/-- Take an array, tuple or record type with parts that are texts, numbers, truth values, null or
undefined, a value that its check accepts, a factory that stands for an object whose two functions
give JSON texts, none of its names being bound by the artifact, and a standard serializer that gives
undefined for undefined. The closure of the artifact ends on the value, with the text of its parts
in which nothing stands for an undefined item of an array, and the word for an undefined part of a
tuple or record. -/
theorem stringify_gaps (world : World) (definitions : TypeTable) (factory : Expr) (type : Ty)
    (value object : Data) (htype : type.kind.HoldsFlat) (hvalue : value.WellFormed)
    {heap after : Heap}
    (haccepts : (exec world (.input value)
      (Scope.checkProgram (.mk factory definitions) type)).Yields
      heap (some (.data (.boolean true))) after)
    (hobject : Encodes world object) (hfactory : Evaluates world .empty factory (.data object))
    (hundefined : world.json .undefined = .ok .undefined)
    (hnames : ∀ name ∈ factory.identifiers,
      ¬ Binds factory name (artifact definitions factory .stringify type)) :
    ∃ text, GappedText type.kind value text ∧
      ∀ heap, (modeCall world definitions factory .stringify type value).Yields heap
        (.data (.string text)) heap := by
  have hguarded := definitions.guarded_of_references htype.references
  have hmatches : Matches world definitions value type.kind :=
    Scope.matches_of_accepts world (.mk factory definitions) type value hguarded hvalue haccepts
  exact stringify_gapped htype hvalue hmatches hobject hfactory hundefined hnames

/-- A tuple of one part, which is undefined. -/
def undefinedTuple : Ty := (TyKind.tuple [TyKind.undefined.type]).type

theorem undefinedTuple_holdsFlat : undefinedTuple.kind.HoldsFlat :=
  .tuple fun element hmem => by
    rw [List.mem_singleton.mp hmem]
    exact .undefined

theorem wellFormed_undefinedItem : (Data.array [.undefined]).WellFormed := by
  refine .array (by decide) fun item hmem => ?_
  rw [List.mem_singleton.mp hmem]
  exact .undefined

theorem matches_undefinedTuple (world : World) (definitions : TypeTable) :
    Matches world definitions (.array [.undefined]) undefinedTuple.kind :=
  .tuple rfl fun pair hmem => by
    rw [List.mem_singleton.mp hmem]
    exact .undefined

theorem undefinedTuple_accepted (heap : Heap) :
    (exec encodingWorld (.input (.array [.undefined]))
      (Scope.checkProgram (.mk (.identifier "core") .empty) undefinedTuple)).Yields heap
        (some (.data (.boolean true))) heap :=
  Scope.checkProgram_yields encodingWorld (.mk (.identifier "core") .empty) undefinedTuple _
    (TypeTable.guarded_of_references _ undefinedTuple_holdsFlat.references) wellFormed_undefinedItem
    (iff_of_true rfl (matches_undefinedTuple _ _)) heap

/-- The tuple is serialized. -/
theorem stringify_gaps_undefined :
    undefinedTuple.kind.HoldsFlat ∧ (Data.array [.undefined]).WellFormed ∧
      (exec encodingWorld (.input (.array [.undefined]))
        (Scope.checkProgram (.mk (.identifier "core") .empty) undefinedTuple)).Yields []
          (some (.data (.boolean true))) [] ∧
      Encodes encodingWorld encoder ∧
      Evaluates encodingWorld .empty (.identifier "core") (.data encoder) ∧
      encodingWorld.json .undefined = .ok .undefined ∧
      (∀ name ∈ (Expr.identifier "core").identifiers,
        ¬ Binds (.identifier "core") name (artifact .empty (.identifier "core") .stringify
          undefinedTuple)) ∧
      ∃ text, GappedText undefinedTuple.kind (.array [.undefined]) text ∧
        ∀ heap, (modeCall encodingWorld .empty (.identifier "core") .stringify undefinedTuple
          (.array [.undefined])).Yields heap (.data (.string text)) heap :=
  ⟨undefinedTuple_holdsFlat, wellFormed_undefinedItem, undefinedTuple_accepted [], encodes_encoder,
    evaluates_encoder, rfl, not_binds_core, stringify_gaps encodingWorld .empty (.identifier "core")
      undefinedTuple _ encoder undefinedTuple_holdsFlat wellFormed_undefinedItem
      (undefinedTuple_accepted []) encodes_encoder evaluates_encoder rfl not_binds_core⟩

/-- The text with a gap breaks off at the gap. -/
theorem not_jsonText_undefinedTuple (image : Data) : ¬ JsonText "[undefined]" image := by
  rintro ⟨document, hread, hholds⟩
  have hbroken : (Json.Draft.read "[undefined]").1.isBroken = true := by cbv
  rw [hread] at hbroken
  cases hholds <;> cases hbroken

/-- Its text is the word in brackets, which is no JSON text. -/
theorem stringify_gaps_broken :
    ¬ ∀ (world : World) (definitions : TypeTable) (factory : Expr) (type : Ty)
        (value object : Data),
      type.kind.HoldsFlat → value.WellFormed →
      (∀ heap, (exec world (.input value)
        (Scope.checkProgram (.mk factory definitions) type)).Yields
        heap (some (.data (.boolean true))) heap) →
      Encodes world object → Evaluates world .empty factory (.data object) →
      world.json .undefined = .ok .undefined →
      (∀ name ∈ factory.identifiers,
        ¬ Binds factory name (artifact definitions factory .stringify type)) →
      ∃ image text, JsonText text image ∧
        ∀ heap, (modeCall world definitions factory .stringify type value).Yields heap
          (.data (.string text)) heap := by
  intro hclaim
  obtain ⟨image, text, hjson, hyields⟩ := hclaim encodingWorld .empty (.identifier "core")
    undefinedTuple (.array [.undefined]) encoder undefinedTuple_holdsFlat wellFormed_undefinedItem
    undefinedTuple_accepted encodes_encoder evaluates_encoder rfl not_binds_core
  obtain ⟨given, hgapped, hgiven⟩ := stringify_gapped undefinedTuple_holdsFlat
    wellFormed_undefinedItem (matches_undefinedTuple encodingWorld .empty) encodes_encoder
    evaluates_encoder rfl not_binds_core
  obtain ⟨hsame, -⟩ := (hyields []).unique (hgiven [])
  cases hsame
  cases hgapped with
  | tuple each =>
    obtain ⟨first, rest, hfills, hrest, rfl⟩ := List.forall₂_cons_left_iff.mp each
    rw [List.forall₂_nil_left_iff.mp hrest] at hjson
    cases hfills with
    | undefined => exact not_jsonText_undefinedTuple image hjson
    | text json =>
      obtain ⟨document, -, hholds⟩ := json
      cases hholds

end TypedRoutes
