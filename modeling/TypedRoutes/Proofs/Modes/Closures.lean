import TypedRoutes.Proofs.Generation.Binding
import TypedRoutes.Proofs.Generation.Closed
import TypedRoutes.Proofs.Validation.Program

/-!
# Closures of artifacts

What happens when the closure of an artifact is called, mode by mode: its helpers are declared, then
the statements of its body run. The helpers of two closures are numbered on their own.
-/

namespace TypedRoutes

open TypedRoutes.Runtime

/-- The artifact for a mode is evaluated, and its closure is called with a value. -/
def Scope.literalCall (scope : Scope) (world : World) (mode : Mode) (type : Ty) (value : Data) :
    Process Value := fun fuel => do
  match ← eval world .empty (scope.artifactLiteral mode type) fuel with
  | .record members =>
    match members.lookup mode.name with
    | some function => apply world function (.record members) [.data value] fuel
    | none => Run.stuck
  | _ => Run.stuck

/-- The call of the closure of an artifact in which types are written as usual. -/
def modeCall (world : World) (definitions : TypeTable) (factory : Expr) (mode : Mode) (type : Ty)
    (value : Data) : Process Value :=
  (Scope.mk factory definitions).literalCall world mode type value

/-- What a block returns; without anything returned the result is undefined. -/
def returned (process : Process (Option Value)) : Process Value := fun fuel =>
  process fuel >>= fun result => pure (result.getD (.data .undefined))

theorem Scope.literalCall_joins (scope : Scope) (world : World) {mode : Mode} {type : Ty}
    {block : List Stmt} (h : scope.artifactLiteral mode type =
      .objectOf [("type", .string mode.name), (mode.name, .lambdaBlock ["input"] block)])
    (value : Data) :
    (scope.literalCall world mode type value).Joins
      (returned (exec world (.input value) block)) := by
  set function : Value := .closure ["input"] (.block block) .empty
  set members : List (String × Value) := [("type", .data (.string mode.name)),
    (mode.name, function)]
  have hcall (fuel : Nat) : apply world function (.record members) [.data value] (fuel + 1) =
      returned (exec world (.input value) block) fuel := by
    rw [apply]
    rfl
  have hlookup : members.lookup mode.name = some function := by cases mode <;> rfl
  have hrecord (fuel : Nat) : eval world .empty (scope.artifactLiteral mode type) (fuel + 4) =
      pure (.record members) := by
    rw [h]
    simp only [Expr.objectOf, Expr.lambdaBlock, List.map_cons, List.map_nil, eval, evalEntries,
      pure_bind]
    rfl
  refine ⟨4, 3, fun fuel => ?_⟩
  simp only [literalCall, hrecord, pure_bind, hlookup]
  exact hcall (fuel + 3)

theorem returned_joins {world : World} {env : Env} (expr : Expr) :
    (returned (exec world env [.returns expr])).Joins (eval world env expr) := by
  have hreturned : (exec world env [.returns expr]).Joins
      fun fuel => eval world env expr fuel >>= fun value => pure (some value) :=
    exec_returns_joins expr []
  have hreturns := hreturned.bind fun result => pure (result.getD (.data .undefined))
  have hlaws : (fun fuel => (eval world env expr fuel >>= fun value => pure (some value)) >>=
      fun result => pure (result.getD (.data .undefined))) = eval world env expr := by
    funext fuel
    simp only [bind_assoc, pure_bind, Option.getD_some, bind_pure]
  rw [hlaws] at hreturns
  exact hreturns

namespace Scope

open Generate

/-- Names in which generated code can be evaluated: they give the input and hide nothing from the
factory. -/
structure Hosts (scope : Scope) (value : Data) (final : Registry) (base : Env) : Prop where
  ready : scope.Ready final base
  input : base.lookup? "input" = some (.data value)
  free : ∀ name ∈ scope.factory.identifiers, base.lookup? name = none

variable {scope : Scope} {final : Registry} {generated : List (Helper × Expr)}

theorem Drained.hosts (h : scope.Drained 0 final generated) (world : World) (value : Data)
    (hfactory : ∀ name ∈ scope.factory.identifiers,
      name ≠ "input" ∧ name ∉ declaredNames (helperStatements generated)) :
    ∃ base, scope.Hosts value final base ∧ ∀ stmt rest, Declared.ofStmt? stmt = none →
      (exec world (.input value) (helperStatements generated ++ stmt :: rest)).Joins
        (exec world base (stmt :: rest)) := by
  obtain ⟨base, hready, hlookup, hexec⟩ :=
    h.exec_ready world (Env.input_standard value) (by simp : ∀ stmt ∈ [], _)
  refine ⟨base, ⟨hready, ?_, fun name hname => ?_⟩, hexec⟩
  · refine (hlookup "input" ?_).trans (Env.lookup?_bind_self _ _ _)
    exact not_mem_declaredNames (not_helper_of_parameter (by simp [parameters]))
  · obtain ⟨hinput, hhelper⟩ := hfactory name hname
    exact (hlookup name hhelper).trans (Env.lookup?_bind_of_ne hinput.symm _ _)

variable (scope) in
/-- The closure of a mode that does not report does what the statements of its body do behind its
helpers. Neither takes a name from the factory. -/
theorem plain_call (world : World) {mode : Mode} (hmode : mode ≠ .validate) (type : Ty)
    (value : Data) (hfactory : Spares scope.factory
      (scope.artifactLiteral mode type)) :
    ∃ final base generated statements, scope.Hosts value final base ∧
      scope.Drained 0 final generated ∧
      (∀ part ∈ blockParts (helperStatements generated ++ statements),
        Spares scope.factory part) ∧
      (∀ helper ∈ final.requested, helper.kind ≠ .validate) ∧
      Gives final (scope.body mode type) ([], statements) ∧
      (scope.literalCall world mode type value).Joins
        (returned (exec world base statements)) := by
  obtain ⟨declarations, statements, generated, final, hclosure, -, hgives, hdrained, hkinds⟩ :=
    scope.closure_run mode type
  have hshape : declarations = [] ∧ ∃ stmt rest, statements = stmt :: rest ∧
      Declared.ofStmt? stmt = none := by
    cases mode with
    | stringify =>
      obtain ⟨text, -, rfl, rfl⟩ := gives_stringify hgives
      exact ⟨rfl, _, _, rfl, rfl⟩
    | is =>
      obtain ⟨condition, text, -, -, rfl, rfl⟩ := gives_is hgives
      exact ⟨rfl, _, _, rfl, rfl⟩
    | assert =>
      obtain ⟨condition, text, -, -, rfl, rfl⟩ := gives_assert hgives
      refine ⟨rfl, ?_⟩
      split
      · exact ⟨_, _, rfl, rfl⟩
      · exact ⟨_, _, rfl, rfl⟩
    | validate => exact absurd rfl hmode
  obtain ⟨rfl, stmt, rest, rfl, hstmt⟩ := hshape
  have hartifact : scope.artifactLiteral mode type = .objectOf
      [("type", .string mode.name), (mode.name, .lambdaBlock ["input"]
        (helperStatements generated ++ stmt :: rest))] := by
    rw [artifactLiteral, hclosure, List.nil_append]
  have hfree (name : String) (hname : name ∈ scope.factory.identifiers) :=
    mt (binds_artifactLiteral_iff scope hartifact).mpr (hfactory name hname)
  obtain ⟨base, hhosts, hexec⟩ := hdrained.hosts world value fun name hname => by
    obtain ⟨hinput, hdeclared, -⟩ := not_or.mp (hfree name hname) |>.imp_right not_or.mp
    rw [declaredNames_append, List.mem_append, not_or] at hdeclared
    exact ⟨hinput, hdeclared.1⟩
  refine ⟨final, base, generated, _, hhosts, hdrained, fun part hmem name hname hbinds => ?_,
    hkinds hmode, hgives,
    (scope.literalCall_joins world hartifact value).trans ((hexec stmt rest hstmt).bind _)⟩
  exact hfree name hname (.inr (.inr ⟨part, hmem, hbinds⟩))

variable (scope) in
/-- The closure of the mode that reports makes a list, and declares what adds to it in front of its
helpers. -/
theorem validate_call (world : World) (type : Ty) (value : Data)
    (hfactory : ∀ name ∈ scope.factory.identifiers,
      ¬ Binds scope.factory name (scope.artifactLiteral .validate type))
    (heap : Heap) :
    ∃ final base success text, scope.Hosts value final base ∧ base.Collects heap.length ∧
      base.lookup? "errors" = some (.cell heap.length) ∧ "success" ∉ scope.factory.identifiers ∧
      Gives final (scope.validate type 0 input (.string "$input") (scope.expected type)) success ∧
      Gives final (scope.serialize type 0 input) text ∧
      (Declared.ofStmt? (.const "success" success) = none → ∀ result after,
        (exec world base [.const "success" success, .returns (reportResult text)]).Yields
          (heap ++ [[]]) (some result) after →
        (scope.literalCall world .validate type value).Yields heap result
          after) := by
  obtain ⟨declarations, statements, generated, final, hclosure, -, hgives, hdrained, -⟩ :=
    scope.closure_run .validate type
  obtain ⟨success, text, hsuccess, htext, rfl, rfl⟩ := gives_validate hgives
  have hartifact : scope.artifactLiteral .validate type = .objectOf
      [("type", .string Mode.validate.name), (Mode.validate.name, .lambdaBlock ["input"]
        (reportDeclarations ++ helperStatements generated ++
          [.const "success" success, .returns (reportResult text)]))] := by
    rw [artifactLiteral, hclosure]
  -- the closure binds its parameter and what it declares, and the factory names none of them
  have hfree (name : String) (hname : name ∈ scope.factory.identifiers) :
      name ≠ "input" ∧ name ∉ declaredNames (helperStatements generated) ∧ name ≠ "errors" ∧
        name ≠ reporter ∧ name ≠ "success" := by
    have hbound := mt (binds_artifactLiteral_iff scope hartifact).mpr (hfactory name hname)
    obtain ⟨hinput, hdeclared, -⟩ := not_or.mp hbound |>.imp_right not_or.mp
    rw [declaredNames_append, declaredNames_append, List.mem_append, List.mem_append, not_or,
      not_or] at hdeclared
    obtain ⟨⟨hreport, hhelpers⟩, hstatements⟩ := hdeclared
    simp only [declaredNames, reportDeclarations, Stmt.declared?, List.filterMap_cons,
      List.filterMap_nil, List.mem_cons, List.not_mem_nil, or_false, not_or] at hreport hstatements
    exact ⟨hinput, hhelpers, hreport.1, hreport.2, hstatements⟩
  obtain ⟨base, hready, hcollects, herrors, hlookup, hexec⟩ :=
    hdrained.exec_behind_reporter world (Env.input_standard value) heap.length
  have hinput : base.lookup? "input" = some (.data value) := by
    refine (hlookup "input" ?_ (by decide) (by decide)).trans (Env.lookup?_bind_self _ _ _)
    exact not_mem_declaredNames (not_helper_of_parameter (by simp [parameters]))
  have hunbound (name : String) (hname : name ∈ scope.factory.identifiers) :
      base.lookup? name = none := by
    obtain ⟨hne, hhelpers, herrors, hreporter, -⟩ := hfree name hname
    rw [hlookup name hhelpers herrors hreporter]
    exact Env.lookup?_bind_of_ne hne.symm _ _
  refine ⟨final, base, success, text, ⟨hready, hinput, hunbound⟩, hcollects, herrors,
    fun hname => (hfree _ hname).2.2.2.2 rfl, hsuccess, htext, fun hstmt result after hyields => ?_⟩
  refine (scope.literalCall_joins world hartifact value).yields ?_
  have hblock : (exec world (.input value) (.const "errors" (.array []) ::
      (reporterDeclaration :: helperStatements generated ++
        [.const "success" success, .returns (reportResult text)]))).Yields heap (some result)
          after :=
    exec_declareList "errors" ((hexec _ _ hstmt).yields hyields)
  exact hblock.bind (.pure _ after)

end Scope

end TypedRoutes
