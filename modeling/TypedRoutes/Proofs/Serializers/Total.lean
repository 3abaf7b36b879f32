import TypedRoutes.Proofs.Runtime.Calls
import TypedRoutes.Proofs.Serializers.Program
import TypedRoutes.Proofs.Serializers.Safe

/-!
# Checked values are always serialized

The closure of the mode without a check ends on every value that the check of its type accepts,
whatever the type is. It calls none but two functions of the factory: it ends the same way where all
calls of another one fail, be it the one that stands behind the members of a union.
-/

namespace TypedRoutes

namespace Runtime

/-- The object answers where a function fails that is none of its two. -/
theorem Answers.refusing {world : World} {object : Data} {string number refused : String}
    (h : Answers world object string number) (hstring : refused ≠ string)
    (hnumber : refused ≠ number) : Answers (world.refusing refused) object string number where
  present := h.present
  string_function := h.string_function
  number_function := h.number_function
  string_text argument := by
    rw [World.call_refusing hstring.symm]
    exact h.string_text argument
  number_text argument := by
    rw [World.call_refusing hnumber.symm]
    exact h.number_text argument
  json := h.json

end Runtime

namespace Scope

open Generate TypedRoutes.Runtime

variable {scope : Scope} {final : Registry} {generated : List (Helper × Expr)} {base : Env}
  {world : World} {value object : Data} {string number : String}

theorem Hosts.answered (hhosts : scope.Hosts value final base)
    (hdrained : scope.Drained 0 final generated)
    (hspares : ∀ part ∈ blockParts (helperStatements generated), Spares scope.factory part)
    (hobject : Answers world object string number)
    (hfactory : Evaluates world .empty scope.factory (.data object)) :
    scope.Answered world final base where
  object := ⟨object, string, number, hobject, hfactory⟩
  free := hhosts.free
  input := hhosts.input_not_mem
  spares := hdrained.serializer_spares hspares

end Scope

open TypedRoutes.Runtime

variable {world : World} {definitions : TypeTable} {factory : Expr} {type : Ty}
  {value object : Data} {string number refused : String}

/-- A value that matches a guarded type is serialized, to a text or to undefined. -/
theorem stringify_ends (hguarded : definitions.Guarded type) (hvalue : value.WellFormed)
    (hmatches : Matches world definitions value type.kind)
    (hobject : Answers world object string number)
    (hfactory : Evaluates world .empty factory (.data object))
    (hnames : ∀ name ∈ factory.identifiers,
      ¬ Binds factory name (artifact definitions factory .stringify type)) :
    ∃ result : Data, result.isWritten = true ∧
      ∀ heap, (modeCall world definitions factory .stringify type value).Yields heap (.data result)
        heap := by
  let scope : Scope := .mk factory definitions
  obtain ⟨final, base, generated, text, hhosts, hdrained, hspares, htext, hreturned, hjoins⟩ :=
    scope.serializer_call world type value hnames
  obtain ⟨result, hwritten, heval⟩ := (Scope.serialize_writes_of_guarded hhosts.ready
    (hhosts.answered hdrained hspares hobject hfactory) hguarded htext
    (.bound hhosts.input (not_boundFrom_parameter (by simp [parameters]))) (.refl base)
    hhosts.sees hreturned hvalue hmatches).gives
  exact ⟨result, hwritten, fun heap => hjoins.yields (heval heap)⟩

/-! ## Where another function fails -/

/-- A check calls no function from outside, so it accepts the same values where one of them
fails. -/
theorem matches_refusing (refused : String) (hguarded : definitions.Guarded type)
    (hvalue : value.WellFormed) {heap after : Heap}
    (haccepts : (exec world (.input value)
      (Scope.checkProgram (.mk factory definitions) type)).Yields
      heap (some (.data (.boolean true))) after) :
    Matches (world.refusing refused) definitions value type.kind := by
  classical
  have hresult :=
    decide_eq_true_iff (p := Matches (world.refusing refused) definitions value type.kind)
  have hchecked := Scope.checkProgram_yields (world.refusing refused) (.mk factory definitions) type
    value hguarded hvalue hresult heap
  obtain ⟨hsame, -⟩ :=
    (hchecked.within fun fuel => (world.callsWithin_refusing refused fuel).exec _ _).unique haccepts
  simp only [Option.some.injEq, Value.data.injEq, Data.boolean.injEq] at hsame
  exact hresult.mp hsame

/-- What the closure of an artifact gives where a function fails it gives where it does not. -/
theorem modeCall_within (world : World) (refused : String) (mode : Mode) (fuel : Nat) :
    (modeCall (world.refusing refused) definitions factory mode type value fuel).Within
      (modeCall world definitions factory mode type value fuel) := by
  have hcalls := world.callsWithin_refusing refused fuel
  refine (hcalls.eval _ _).bind fun closure => ?_
  cases closure with
  | record members =>
    dsimp only
    split
    · exact hcalls.apply _ _ _
    · exact .refl _
  | _ => exact .refl _

/-- Take a guarded type, whatever its kind, a value that its check accepts, and a factory that
stands for an object whose two functions return, none of its names being bound by the artifact. The
closure of the artifact ends on the value with a text or undefined: it fails nowhere, and asks no
absent value for a property. No other function from outside is called: where every call of it fails,
the closure ends with the same result. -/
theorem stringify_total (world : World) (definitions : TypeTable) (factory : Expr) (type : Ty)
    (value object : Data) (string number : String) (hguarded : definitions.Guarded type)
    (hvalue : value.WellFormed) {heap after : Heap}
    (haccepts : (exec world (.input value)
      (Scope.checkProgram (.mk factory definitions) type)).Yields
      heap (some (.data (.boolean true))) after)
    (hobject : Answers world object string number)
    (hfactory : Evaluates world .empty factory (.data object))
    (hnames : ∀ name ∈ factory.identifiers,
      ¬ Binds factory name (artifact definitions factory .stringify type)) :
    ∃ result : Data, result.isWritten = true ∧
      (∀ heap, (modeCall world definitions factory .stringify type value).Yields heap (.data result)
        heap) ∧
      ∀ refused, refused ≠ string → refused ≠ number →
        Evaluates (world.refusing refused) .empty factory (.data object) →
        ∀ heap, (modeCall (world.refusing refused) definitions factory .stringify type value).Yields
          heap (.data result) heap := by
  have hmatches : Matches world definitions value type.kind :=
    Scope.matches_of_accepts world (.mk factory definitions) type value hguarded hvalue haccepts
  obtain ⟨result, hwritten, hends⟩ :=
    stringify_ends hguarded hvalue hmatches hobject hfactory hnames
  refine ⟨result, hwritten, hends, fun refused hstring hnumber hfactory heap => ?_⟩
  obtain ⟨given, -, hgiven⟩ := stringify_ends hguarded hvalue
    (matches_refusing refused hguarded hvalue haccepts) (hobject.refusing hstring hnumber) hfactory
    hnames
  have hsame := (hgiven heap).within fun fuel => modeCall_within world refused .stringify fuel
  obtain ⟨heq, -⟩ := hsame.unique (hends heap)
  cases heq
  exact hgiven heap

/-- An object whose two functions answer whatever they are given, while the third one fails. -/
def answerer : Data :=
  .object [("string", .function (.host "quote")), ("number", .function (.host "numeral")),
    ("throws", .function (.host "refuse"))]

/-- Surroundings in which that object has a name. -/
def answeringWorld : World :=
  .isolated (fun name => if name = "core" then some answerer else none) fun function _ arguments =>
    match function, arguments with
    | "quote", [.string text] => .ok (.string (Json.quote text))
    | "numeral", [.number value] => .ok (.string (numberLiteral value))
    | "refuse", _ => .error (.thrown .undefined)
    | _, _ => .ok (.string "null")

theorem answers_answerer : Answers answeringWorld answerer "quote" "numeral" where
  present := rfl
  string_function := rfl
  number_function := rfl
  string_text value := by cases value <;> exact ⟨_, rfl⟩
  number_text value := by cases value <;> exact ⟨_, rfl⟩
  json _ := ⟨.undefined, rfl, rfl⟩

theorem evaluates_answerer :
    Evaluates answeringWorld .empty (.identifier "core") (.data answerer) := by
  refine fun heap => .step ?_
  simp only [eval, Runtime.readName]
  exact .pure _ heap

/-- A list of one number is serialized, whatever becomes of the function that throws. -/
theorem stringify_total_list :
    Scope.listDefinitions.Guarded (TyKind.reference "Node").type ∧
      (Data.object [("value", .number 1), ("next", .null)]).WellFormed ∧
      (exec answeringWorld (.input (.object [("value", .number 1), ("next", .null)]))
        (Scope.checkProgram (.mk (.identifier "core") Scope.listDefinitions)
          (TyKind.reference "Node").type)).Yields [] (some (.data (.boolean true))) [] ∧
      Answers answeringWorld answerer "quote" "numeral" ∧
      Evaluates answeringWorld .empty (.identifier "core") (.data answerer) ∧
      (∀ name ∈ (Expr.identifier "core").identifiers,
        ¬ Binds (.identifier "core") name (artifact Scope.listDefinitions (.identifier "core")
          .stringify (TyKind.reference "Node").type)) ∧
      ∃ result : Data, result.isWritten = true ∧
        (∀ heap, (modeCall answeringWorld Scope.listDefinitions (.identifier "core") .stringify
          (TyKind.reference "Node").type (.object [("value", .number 1), ("next", .null)])).Yields
            heap (.data result) heap) ∧
        ∀ refused, refused ≠ "quote" → refused ≠ "numeral" →
          Evaluates (answeringWorld.refusing refused) .empty (.identifier "core")
            (.data answerer) →
          ∀ heap, (modeCall (answeringWorld.refusing refused) Scope.listDefinitions
            (.identifier "core") .stringify (TyKind.reference "Node").type
            (.object [("value", .number 1), ("next", .null)])).Yields heap (.data result) heap := by
  have hvalue := Scope.wellFormed_node (.number 1)
  have haccepts := Scope.checkProgram_yields answeringWorld
    (.mk (.identifier "core") Scope.listDefinitions) (TyKind.reference "Node").type _
    Scope.listDefinitions_guarded hvalue (iff_of_true rfl (matches_node answeringWorld rfl)) []
  exact ⟨Scope.listDefinitions_guarded, hvalue, haccepts, answers_answerer, evaluates_answerer,
    not_binds_core, stringify_total answeringWorld Scope.listDefinitions (.identifier "core")
      (TyKind.reference "Node").type _ answerer "quote" "numeral" Scope.listDefinitions_guarded
      hvalue haccepts answers_answerer evaluates_answerer not_binds_core⟩

end TypedRoutes
