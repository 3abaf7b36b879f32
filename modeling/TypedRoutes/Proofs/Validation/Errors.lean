import TypedRoutes.Proofs.Modes.Agreement

/-!
# The errors of validators

The program of a validator ends on every value with a list that holds exactly what the traversal of
the value finds, and the path of each entry leads to the value in the entry. The mode that reports
gives this list along with the result.
-/

namespace TypedRoutes

open TypedRoutes.Runtime

namespace Runtime

/-- Surroundings that write numbers as literals write positions in digits. -/
theorem World.isolated_writesPositions (global? : String → Option Data)
    (call : String → Data → List Data → Except Failure Data) :
    (World.isolated global? call).WritesPositions :=
  fun _ hbound => Json.numberLiteral_ofNat (hbound.trans (by decide))

/-- The path of a mismatch is read as its steps, and followed from the value that was traversed it
leads to the value of the mismatch. -/
structure Mismatch.Leads (world : World) (value : Data) (mismatch : Mismatch) (path : String) :
    Prop where
  entry : mismatch.entry = .object [("path", .string path),
    ("expected", .string mismatch.expected), ("value", mismatch.value)]
  read : readPath? path = some mismatch.steps
  follow : followPath? world mismatch.steps value = some mismatch.value

end Runtime

namespace Scope

variable {world : World} {scope : Scope} {value : Data} {kind : TyKind} {expected : String}
  {found : List Mismatch}

theorem Finds.leads (h : scope.Finds world value kind [] expected found) {mismatch : Mismatch}
    (hmem : mismatch ∈ found) : ∃ path, mismatch.Leads world value path := by
  obtain ⟨further, hsteps, hreadable, hfollow⟩ := h.reaches hmem
  obtain rfl : mismatch.steps = further := hsteps
  exact ⟨pathFrom "$input" mismatch.steps, rfl, readPath?_pathFrom hreadable, hfollow⟩

/-- What is listed under the name of the input, where positions are written in digits. -/
theorem Listed.eq_map_entry {listed : List Data} (hnumbers : world.WritesPositions)
    (h : scope.Listed world "$input" value kind [] expected listed) :
    ∃ found, scope.Finds world value kind [] expected found ∧
    listed = found.map Mismatch.entry := by
  obtain ⟨found, hfinds, hdescribes⟩ := h
  exact ⟨found, hfinds, Runtime.eq_map_entry hnumbers hdescribes⟩

/-- The validator of a guarded type ends on every value and lists exactly what the traversal of the
value finds, in that order. Every path in the list leads to the value that is listed with it. -/
theorem validateProgram_lists (world : World) (scope : Scope) (type : Ty) (value : Data)
    (expected : String) (hguarded : scope.definitions.Guarded type) (hvalue : value.WellFormed)
    (hnumbers : world.WritesPositions) (heap : Heap) :
    ∃ found : List Mismatch, scope.Finds world value type.kind [] expected found ∧
      (exec world (.input value) (scope.validateProgram type (.string "$input") expected)).Yields
        heap (some (.data (.boolean found.isEmpty))) (heap ++ [found.map Mismatch.entry]) ∧
      ∀ mismatch ∈ found, ∃ path, mismatch.Leads world value path := by
  obtain ⟨condition, generated, final, hrun, hgives, hdrained⟩ :=
    withHelpers_drained scope 0 (validate_asking scope type 0 input (.string "$input") expected)
  have hprogram : scope.validateProgram type (.string "$input") expected =
      .const "errors" (.array []) :: (reporterDeclaration :: helperStatements generated ++
        [.returns condition]) := by
    rw [validateProgram, hrun]
    rfl
  obtain ⟨base, hready, hcollects, -, hlookup, hexec⟩ :=
    hdrained.exec_behind_reporter world (Env.input_standard value) heap.length
  have hinput : base.lookup? "input" = some (.data value) := by
    refine (hlookup "input" ?_ (by decide) (by decide)).trans (Env.lookup?_bind_self _ _ _)
    exact not_mem_declaredNames (not_helper_of_parameter (by simp [parameters]))
  obtain ⟨listed, hlisted, hlists⟩ := validate_lists_of_guarded hready hcollects hguarded hgives
    (.bound hinput (not_boundFrom_parameter (by simp [parameters])))
    (fun _ _ => .string "$input") (.refl base) hvalue
  obtain ⟨found, hfinds, rfl⟩ := hlisted.eq_map_entry hnumbers
  refine ⟨found, hfinds, ?_, fun mismatch hmem => hfinds.leads hmem⟩
  have hreturns := exec_returns (hlists (heap ++ [[]])).yields []
  rw [report_last, List.isEmpty_map] at hreturns
  rw [hprogram]
  exact exec_declareList "errors" ((hexec _ _ rfl).yields hreturns)

/-- One node of the list of numbers: its value is no number, and nothing else is wrong with it. -/
theorem finds_node : Finds World.bare (.mk (.identifier "factory") listDefinitions)
    (.object [("value", .string "one"), ("next", .null)]) (.reference "Node") [] "Node"
    [⟨[.property "value"], "number", .string "one"⟩] := by
  have hnumber : ¬ Matches World.bare listDefinitions (.string "one") .number := by
    intro hmatches
    cases hmatches
  have hnext : Matches World.bare listDefinitions .null
      (.union [TyKind.null.type, (TyKind.reference "Node").type]) :=
    .union List.mem_cons_self .null
  refine .reference rfl ?_
  change Finds _ _ _ _ _ _ (List.flatten [[_], []])
  refine .parts rfl rfl fun pair hpair => ?_
  rcases List.mem_cons.mp hpair with rfl | hpair
  · exact .rejected rfl rfl hnumber
  · obtain rfl := List.mem_singleton.mp hpair
    exact .accepted rfl rfl hnext

/-- The text is listed under its path, with what was expected in its place. -/
theorem validateProgram_lists_node :
    listDefinitions.Guarded (TyKind.reference "Node").type ∧
      (Data.object [("value", .string "one"), ("next", .null)]).WellFormed ∧
      World.bare.WritesPositions ∧
      (exec World.bare (.input (.object [("value", .string "one"), ("next", .null)]))
        (validateProgram (.mk (.identifier "factory") listDefinitions)
          (TyKind.reference "Node").type
          (.string "$input") "Node")).Yields [] (some (.data (.boolean false)))
            [[.object [("path", .string "$input.value"), ("expected", .string "number"),
              ("value", .string "one")]]] := by
  have hvalue := wellFormed_node (.string "one")
  have hnumbers : World.bare.WritesPositions := World.isolated_writesPositions _ _
  obtain ⟨found, hfinds, hyields, -⟩ := validateProgram_lists World.bare
    (.mk (.identifier "factory") listDefinitions) (TyKind.reference "Node").type _ "Node"
    listDefinitions_guarded hvalue hnumbers []
  obtain rfl := hfinds.unique finds_node
  exact ⟨listDefinitions_guarded, hvalue, hnumbers, hyields⟩

end Scope

/-- Where something is wrong with a value, the mode that reports gives null with the list of all
that the traversal finds. -/
theorem modeCall_lists (world : World) (definitions : TypeTable) (factory : Expr) (type : Ty)
    (value : Data) (hguarded : definitions.Guarded type) (hvalue : value.WellFormed)
    (hnumbers : world.WritesPositions)
    (hfactory : ∀ name ∈ factory.identifiers,
      ¬ Binds factory name (artifact definitions factory .validate type)) (heap : Heap) :
    ∃ found, (Scope.mk factory definitions).Finds world value type.kind []
        ((Scope.mk factory definitions).expected type) found ∧
      (found ≠ [] → (modeCall world definitions factory .validate type value).Yields heap
        (report false .null heap.length) (heap ++ [found.map Mismatch.entry])) := by
  obtain ⟨final, base, success, text, hhosts, hcollects, herrors, -, hsuccess, -, hcall⟩ :=
    (Scope.mk factory definitions).validate_call world type value hfactory heap
  obtain ⟨listed, hlisted, hlists⟩ :=
    Scope.validate_lists_of_guarded hhosts.ready hcollects hguarded
    hsuccess (.bound hhosts.input (not_boundFrom_parameter (by simp [parameters])))
    (fun _ _ => .string "$input") (.refl base) hvalue
  obtain ⟨found, hfinds, rfl⟩ := hlisted.eq_map_entry hnumbers
  refine ⟨found, hfinds, fun hne => ?_⟩
  have htested := (hlists (heap ++ [[]])).yields
  rw [Scope.report_last, List.isEmpty_map, List.isEmpty_eq_false_iff.mpr hne] at htested
  exact hcall (Scope.ofStmt?_eq_none htested) _ _ (Scope.validate_yields htested herrors
    (Evaluates.null _) (Scope.ofStmt?_eq_none htested))

end TypedRoutes
