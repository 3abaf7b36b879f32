import TypedRoutes.Proofs.Checks.Program
import TypedRoutes.Proofs.Generation.Scoping
import TypedRoutes.Proofs.Validation.Correct

/-!
# Validators as programs

The program that a validator amounts to: the list of mismatches and the function that adds to it are
declared, then the helpers, then the validator is evaluated. It agrees with the program of the
check.
-/

namespace TypedRoutes

namespace Runtime

variable {world : World} {env : Env} {heap after : Heap}

/-- An empty array literal makes a list that can grow. -/
theorem exec_declareList (name : String) {rest : List Stmt} {result : Option Value}
    (h : (exec world (.bind name (.cell heap.length) env) rest).Yields (heap ++ [[]])
      result after) :
    (exec world env (.const name (.array []) :: rest)).Yields heap result after := by
  have hlist : (eval world env (.array [])).Yields heap (.cell heap.length) (heap ++ [[]]) := by
    refine .step ?_
    simp only [eval]
    refine evalAll_nil.bind ?_
    exact .of_run rfl
  refine .step ?_
  simp only [exec, leadingFunctions, Declared.ofStmt?]
  exact hlist.bind h

/-- The names a program sees that is also given a path. -/
def Env.inputAt (value : Data) (path : String) : Env :=
  .bind "path" (.data (.string path)) (.input value)

end Runtime

namespace Scope

open TypedRoutes.Runtime

/-- The declarations that a report needs, those of the helpers that a validator calls, and the
validator. -/
def validateProgram (scope : Scope) (type : Ty) (path : Expr) (expected : String) : List Stmt :=
  let generated :=
    ((scope.withHelpers 0 (scope.validate type 0 input path expected)).run .empty).1
  reportDeclarations ++ generated.2 ++ [.returns generated.1]

/-- The collecting function as it is declared. -/
def reporterDeclaration : Stmt :=
  .const reporter (.lambdaBlock ["path", "expected", "value"] reportStatements)

/-- Behind the declarations that a report needs and those of the helpers, a validator can be
evaluated. -/
theorem Drained.exec_behind_reporter {scope : Scope} {final : Registry}
    {generated : List (Helper × Expr)} (h : scope.Drained 0 final generated) (world : World)
    {outer : Env} (hstandard : outer.StandardFree) (errors : Nat) :
    ∃ base : Env, scope.Ready final base ∧ base.Collects errors ∧
      base.lookup? "errors" = some (.cell errors) ∧
      (∀ name, name ∉ declaredNames (helperStatements generated) → name ≠ "errors" →
        name ≠ reporter → base.lookup? name = outer.lookup? name) ∧
      ∀ stmt rest, Declared.ofStmt? stmt = none →
        (exec world (.bind "errors" (.cell errors) outer)
          (reporterDeclaration :: helperStatements generated ++ stmt :: rest)).Joins
          (exec world base (stmt :: rest)) := by
  have hstandard' : (Env.bind "errors" (.cell errors) outer).StandardFree := by
    intro name found hfound
    have herrors : "errors" ≠ name := by
      rintro rfl
      cases hfound
    rw [Env.lookup?_bind_of_ne herrors]
    exact hstandard name found hfound
  have hfront : ∀ stmt ∈ [reporterDeclaration], ∃ function, Declared.ofStmt? stmt = some function ∧
      standard? function.name = none ∧
      ∀ kind index, function.name ≠ HelperKind.helperName kind index := by
    intro stmt hstmt
    cases List.mem_singleton.mp hstmt
    exact ⟨_, rfl, rfl, reporter_ne_helperName⟩
  obtain ⟨base, hready, hlookup, hexec⟩ := h.exec_ready world hstandard' hfront
  have houter (name : String) (hname : name ∉ declaredNames (helperStatements generated))
      (hne : name ≠ reporter) : base.lookup? name =
        (Env.bind "errors" (.cell errors) outer).lookup? name := by
    rw [hlookup name hname]
    have hnone : Declared.find? ([reporterDeclaration].filterMap Declared.ofStmt?) name = none := by
      simp [Declared.find?, reporterDeclaration, Declared.ofStmt?, Expr.lambdaBlock, hne.symm]
    rw [hnone]
  have herrors : base.lookup? "errors" = some (.cell errors) := by
    refine (houter "errors" (not_mem_declaredNames fun kind index hname => ?_) (by decide)).trans
      (Env.lookup?_bind_self _ _ _)
    have hhead := kind.head?_helperName index
    rw [← hname] at hhead
    simp at hhead
  refine ⟨base, hready, ⟨base, herrors, ?_⟩, herrors, fun name hname hne hreporter => ?_, hexec⟩
  · exact hlookup reporter (not_mem_declaredNames reporter_ne_helperName)
  · rw [houter name hname hreporter, Env.lookup?_bind_of_ne hne.symm]

/-- The same for a program that is also given a path. -/
theorem Drained.exec_collecting {scope : Scope} {final : Registry}
    {generated : List (Helper × Expr)} (h : scope.Drained 0 final generated) (world : World)
    (value : Data) (given : String) (errors : Nat) :
    ∃ base : Env, scope.Ready final base ∧ base.Collects errors ∧
      base.lookup? "input" = some (.data value) ∧
      base.lookup? "path" = some (.data (.string given)) ∧
      ∀ stmt rest heap result after, Declared.ofStmt? stmt = none →
        (exec world base (stmt :: rest)).Yields heap result after →
        (exec world (.bind "errors" (.cell errors) (.inputAt value given))
          (reporterDeclaration :: helperStatements generated ++ stmt :: rest)).Yields heap result
            after := by
  have hstandard : (Env.inputAt value given).StandardFree := by
    intro name found hfound
    have hpath : "path" ≠ name := fun heq =>
      not_local_of_standard hfound (heq ▸ .inl (by simp [parameters]))
    rw [Env.inputAt, Env.lookup?_bind_of_ne hpath]
    exact Env.input_standard value name found hfound
  obtain ⟨base, hready, hcollects, -, hlookup, hexec⟩ :=
    h.exec_behind_reporter world hstandard errors
  have hgiven (name : String) (hname : name ∈ parameters) (herrors : name ≠ "errors")
      (hreporter : name ≠ reporter) : base.lookup? name = (Env.inputAt value given).lookup? name :=
    hlookup name (not_mem_declaredNames (not_helper_of_parameter hname)) herrors hreporter
  refine ⟨base, hready, hcollects, ?_, ?_, fun stmt rest _ _ _ hstmt hyields =>
    (hexec stmt rest hstmt).yields hyields⟩
  · exact hgiven "input" (by simp [parameters]) (by decide) (by decide)
  · exact hgiven "path" (by simp [parameters]) (by decide) (by decide)

/-- The validator of a guarded type ends on every value and fails on none, gives what the check
gives, and lists a mismatch exactly when that is false. The path may be put together from literals
and from the path that a helper is called with. -/
theorem validateProgram_agrees (world : World) (scope : Scope) (type : Ty) (value : Data)
    (path : Expr) (given text expected : String) (hguarded : scope.definitions.Guarded type)
    (hvalue : value.WellFormed)
    (hpath : ∀ env : Env, env.lookup? "path" = some (.data (.string given)) →
      Spells world env path text) :
    ∃ (result : Bool) (mismatches : List Data), (mismatches = [] ↔ result = true) ∧
      (exec world (.input value) (scope.checkProgram type)).Yields []
        (some (.data (.boolean result))) [] ∧
      (exec world (.inputAt value given) (scope.validateProgram type path expected)).Yields []
        (some (.data (.boolean result))) [mismatches] := by
  obtain ⟨condition, generated, final, hrun, hgives, hdrained⟩ :=
    withHelpers_drained scope 0 (validate_asking scope type 0 input path expected)
  have hprogram : scope.validateProgram type path expected =
      .const "errors" (.array []) :: (reporterDeclaration :: helperStatements generated ++
        [.returns condition]) := by
    rw [validateProgram, hrun]
    rfl
  obtain ⟨base, hready, hcollects, hinput, hgiven, hexec⟩ :=
    hdrained.exec_collecting world value given 0
  have hspells : SpellsBelow world base 0 path text := fun inner hi =>
    hpath inner ((hi "path" (not_boundFrom_parameter (by simp [parameters]))).trans hgiven)
  obtain ⟨result, mismatches, hresult, hmismatches, htests⟩ :=
    validate_reports_of_guarded hready hcollects hguarded hgives
      (.bound hinput (not_boundFrom_parameter (by simp [parameters]))) hspells (.refl base) hvalue
  refine ⟨result, mismatches, hmismatches,
    checkProgram_yields world scope type value hguarded hvalue hresult [], ?_⟩
  rw [hprogram]
  exact exec_declareList "errors" (hexec _ _ _ _ _ rfl (exec_returns (htests [[]]).yields []))

/-- A text in a list of numbers is reported: check and validator run through the same helpers. -/
theorem validateProgram_agrees_list :
    listDefinitions.Guarded (TyKind.reference "Node").type ∧
      (Data.object [("value", .string "one"), ("next", .null)]).WellFormed ∧
      (∀ env : Env, env.lookup? "path" = some (.data (.string "")) →
        Spells World.bare env (.string "$input") "$input") ∧
      ∃ (result : Bool) (mismatches : List Data), (mismatches = [] ↔ result = true) ∧
        (exec World.bare (.input (.object [("value", .string "one"), ("next", .null)]))
          (checkProgram (.mk (.identifier "factory") listDefinitions)
            (TyKind.reference "Node").type)).Yields [] (some (.data (.boolean result))) [] ∧
        (exec World.bare (.inputAt (.object [("value", .string "one"), ("next", .null)]) "")
          (validateProgram (.mk (.identifier "factory") listDefinitions)
            (TyKind.reference "Node").type
            (.string "$input") "Node")).Yields [] (some (.data (.boolean result)))
              [mismatches] := by
  have hvalue := wellFormed_node (.string "one")
  have hpath (env : Env) (_ : env.lookup? "path" = some (.data (.string ""))) :
      Spells World.bare env (.string "$input") "$input" := .string "$input"
  exact ⟨listDefinitions_guarded, hvalue, hpath, validateProgram_agrees World.bare
    (.mk (.identifier "factory") listDefinitions) (TyKind.reference "Node").type _
      (.string "$input") ""
    "$input" "Node" listDefinitions_guarded hvalue hpath⟩

end Scope

end TypedRoutes
