import TypedRoutes.Proofs.Generation.Drain
import TypedRoutes.Proofs.Generation.Scoping
import TypedRoutes.Proofs.Runtime.Calculus

/-!
# Linking

The declarations of helpers, carried out in front of other statements, leave names in which every
helper that generated code calls stands for the closure generated for it.
-/

namespace TypedRoutes

namespace Runtime

/-- Functions in front of a block are declared side by side. -/
theorem leadingFunctions_append {front : List Stmt}
    (hfront : ∀ stmt ∈ front, (Declared.ofStmt? stmt).isSome = true) {stmt : Stmt}
    (hstmt : Declared.ofStmt? stmt = none) (rest : List Stmt) :
    leadingFunctions (front ++ stmt :: rest) =
      (front.filterMap Declared.ofStmt?, stmt :: rest) := by
  induction front with
  | nil => simp [leadingFunctions, hstmt]
  | cons first front ih =>
    obtain ⟨function, hfirst⟩ := Option.isSome_iff_exists.mp (hfront first List.mem_cons_self)
    have hrest := ih fun other hother => hfront other (List.mem_cons_of_mem _ hother)
    simp [leadingFunctions, hfirst, hrest]

/-- The names after functions were declared side by side. -/
def Env.declaring (declared : List Declared) (outer : Env) : Env :=
  if declared.isEmpty then outer else .functions declared outer

theorem Env.lookup?_declaring (declared : List Declared) (outer : Env) (name : String) :
    (Env.declaring declared outer).lookup? name =
      match Declared.find? declared name with
      | some function =>
        some (.closure function.params function.body (Env.declaring declared outer))
      | none => outer.lookup? name := by
  cases declared with
  | nil => rfl
  | cons function more =>
    simp only [declaring, List.isEmpty_cons, Bool.false_eq_true, if_false]
    exact Env.lookup?.eq_def (.functions _ outer) name

/-- Declaring functions takes one step. -/
theorem exec_declaring_succ (world : World) (outer : Env) {first : Stmt} {front : List Stmt}
    (hfront : ∀ stmt ∈ first :: front, (Declared.ofStmt? stmt).isSome = true) {stmt : Stmt}
    (hstmt : Declared.ofStmt? stmt = none) (rest : List Stmt) (fuel : Nat) :
    exec world outer (first :: front ++ stmt :: rest) (fuel + 1) =
      exec world (.declaring ((first :: front).filterMap Declared.ofStmt?) outer) (stmt :: rest)
        fuel := by
  have hleading := leadingFunctions_append hfront hstmt rest
  obtain ⟨function, hfirst⟩ := Option.isSome_iff_exists.mp (hfront first List.mem_cons_self)
  rw [List.filterMap_cons_some hfirst] at hleading ⊢
  rw [exec, hleading]
  rfl

theorem exec_declaring_joins (world : World) (outer : Env) {front : List Stmt}
    (hfront : ∀ stmt ∈ front, (Declared.ofStmt? stmt).isSome = true) {stmt : Stmt}
    (hstmt : Declared.ofStmt? stmt = none) (rest : List Stmt) :
    (exec world outer (front ++ stmt :: rest)).Joins
      (exec world (.declaring (front.filterMap Declared.ofStmt?) outer) (stmt :: rest)) := by
  cases front with
  | nil => exact .refl _
  | cons first front => exact .of_succ (exec_declaring_succ world outer hfront hstmt rest)

end Runtime

namespace Scope

open Generate TypedRoutes.Runtime

variable {scope : Scope} {final : Registry} {generated : List (Helper × Expr)}

/-- Every helper that was asked for is in place under its name, and sees the others. -/
def Links (scope : Scope) (final : Registry) (base : Env) : Prop :=
  ∀ helper ∈ final.requested, ∃ definition params body,
    scope.definitions.get? helper.typeName = some definition ∧
    Gives final (scope.helperClosure 0 helper definition) (.lambda params body) ∧
    base.lookup? (helper.kind.helperName helper.index) = some (.closure params (.concise body) base)

/-- The closure of a helper is an arrow with an expression behind it. -/
theorem lambda_of_helperClosure {depth : Nat} {helper : Helper} {definition : Ty} {closure : Expr}
    (h : Gives final (scope.helperClosure depth helper definition) closure) :
    ∃ params body, closure = .lambda params body := by
  rw [helperClosure] at h
  cases hkind : helper.kind <;>
    · rw [hkind] at h
      obtain ⟨body, -, rfl⟩ := h.of_map
      exact ⟨_, body, rfl⟩

/-- The declarations of the helpers, in their order. -/
def helperStatements (generated : List (Helper × Expr)) : List Stmt :=
  (generated.mergeSort declaredBefore).map declareHelper

theorem mem_helperStatements {stmt : Stmt} :
    stmt ∈ helperStatements generated ↔ ∃ entry ∈ generated, declareHelper entry = stmt := by
  simp [helperStatements]

theorem Drained.isSome_ofStmt? (h : scope.Drained 0 final generated) {stmt : Stmt}
    (hstmt : stmt ∈ helperStatements generated) : (Declared.ofStmt? stmt).isSome = true := by
  obtain ⟨⟨helper, closure⟩, hentry, rfl⟩ := mem_helperStatements.mp hstmt
  obtain ⟨definition, -, hgives⟩ := h.gives _ hentry
  obtain ⟨params, body, rfl⟩ := lambda_of_helperClosure hgives
  rfl

/-- The functions that the helpers are declared as. -/
theorem Drained.mem_declared (h : scope.Drained 0 final generated) {function : Declared} :
    function ∈ (helperStatements generated).filterMap Declared.ofStmt? ↔
      ∃ helper params body, (helper, Expr.lambda params body) ∈ generated ∧
        function = ⟨helper.kind.helperName helper.index, params, .concise body⟩ := by
  rw [List.mem_filterMap]
  constructor
  · rintro ⟨stmt, hstmt, hfunction⟩
    obtain ⟨⟨helper, closure⟩, hentry, rfl⟩ := mem_helperStatements.mp hstmt
    obtain ⟨definition, -, hgives⟩ := h.gives _ hentry
    obtain ⟨params, body, rfl⟩ := lambda_of_helperClosure hgives
    exact ⟨helper, params, body, hentry, (Option.some.inj hfunction).symm⟩
  · rintro ⟨helper, params, body, hentry, rfl⟩
    exact ⟨declareHelper (helper, .lambda params body), mem_helperStatements.mpr ⟨_, hentry, rfl⟩,
      rfl⟩

/-- A helper is found under its name. -/
theorem Drained.find?_helper (h : scope.Drained 0 final generated) {helper : Helper}
    {params : List String} {body : Expr} (hentry : (helper, Expr.lambda params body) ∈ generated) :
    Declared.find? ((helperStatements generated).filterMap Declared.ofStmt?)
        (helper.kind.helperName helper.index) =
      some ⟨helper.kind.helperName helper.index, params, .concise body⟩ := by
  have hmem := h.mem_declared.mpr ⟨helper, params, body, hentry, rfl⟩
  rw [Declared.find?]
  cases hfound : List.find? _ _ with
  | none =>
    have hnone := List.find?_eq_none.mp hfound _ hmem
    simp at hnone
  | some function =>
    have hname := List.find?_some hfound
    obtain ⟨other, params', body', hother, rfl⟩ :=
      h.mem_declared.mp (List.mem_of_find?_eq_some hfound)
    have hrequested : ∀ entry ∈ generated, entry.1 ∈ final.requested := by
      intro entry hentry
      rw [h.requested]
      exact List.mem_map_of_mem hentry
    obtain ⟨hkind, hindex⟩ := HelperKind.helperName_inj.mp (beq_iff_eq.mp hname)
    obtain rfl : other = helper :=
      h.sound.helper_ext (hrequested _ hother) (hrequested _ hentry) hkind hindex
    have hnodup : (generated.map Prod.fst).Nodup := h.requested ▸ h.sound.requested_nodup
    have hsame := List.inj_on_of_nodup_map hnodup hother hentry rfl
    simp only [Prod.mk.injEq, true_and, Expr.lambda, Expr.arrow.injEq, Body.concise.injEq] at hsame
    rw [hsame.1, hsame.2]

/-- A name that no helper can have is not declared. -/
theorem not_mem_declaredNames {generated : List (Helper × Expr)} {name : String}
    (hname : ∀ kind index, name ≠ HelperKind.helperName kind index) :
    name ∉ declaredNames (helperStatements generated) := by
  intro hmem
  obtain ⟨stmt, hstmt, hdeclared⟩ := List.mem_filterMap.mp hmem
  obtain ⟨entry, -, rfl⟩ := mem_helperStatements.mp hstmt
  exact hname _ _ (Option.some.inj hdeclared).symm

/-- Carrying out functions and then the declarations of helpers: the names that the statements
behind them see. -/
theorem Drained.exec_helpers (h : scope.Drained 0 final generated) (world : World) (outer : Env)
    {front : List Stmt}
    (hfront : ∀ stmt ∈ front, ∃ function, Declared.ofStmt? stmt = some function ∧
      ∀ kind index, function.name ≠ HelperKind.helperName kind index) :
    ∃ base : Env, scope.Links final base ∧
      (∀ name, name ∉ declaredNames (helperStatements generated) →
        base.lookup? name =
          match Declared.find? (front.filterMap Declared.ofStmt?) name with
          | some function => some (.closure function.params function.body base)
          | none => outer.lookup? name) ∧
      ∀ stmt rest, Declared.ofStmt? stmt = none →
        (exec world outer (front ++ helperStatements generated ++ stmt :: rest)).Joins
          (exec world base (stmt :: rest)) := by
  have hall : ∀ stmt ∈ front ++ helperStatements generated,
      (Declared.ofStmt? stmt).isSome = true := by
    intro stmt hstmt
    rcases List.mem_append.mp hstmt with hmem | hmem
    · obtain ⟨function, hfunction, -⟩ := hfront stmt hmem
      rw [hfunction]
      rfl
    · exact h.isSome_ofStmt? hmem
  have hfront' : ∀ function ∈ front.filterMap Declared.ofStmt?, ∀ kind index,
      function.name ≠ HelperKind.helperName kind index := by
    intro function hfunction
    obtain ⟨stmt, hstmt, hsome⟩ := List.mem_filterMap.mp hfunction
    obtain ⟨_, hsome', hname⟩ := hfront stmt hstmt
    rw [hsome] at hsome'
    cases hsome'
    exact hname
  refine ⟨.declaring ((front ++ helperStatements generated).filterMap Declared.ofStmt?) outer,
    ?_, ?_, fun stmt rest hstmt => exec_declaring_joins world outer hall hstmt rest⟩
  · intro helper hhelper
    rw [h.requested] at hhelper
    obtain ⟨⟨named, closure⟩, hentry, hnamed⟩ := List.mem_map.mp hhelper
    obtain rfl : named = helper := hnamed
    obtain ⟨definition, hdefinition, hgives⟩ := h.gives _ hentry
    obtain ⟨params, body, rfl⟩ := lambda_of_helperClosure hgives
    refine ⟨definition, params, body, hdefinition, hgives, ?_⟩
    -- no function in front is called like a helper, so that the helper itself is found
    have hnone : Declared.find? (front.filterMap Declared.ofStmt?)
        (named.kind.helperName named.index) = none := by
      refine List.find?_eq_none.mpr fun function hfunction => ?_
      simpa using hfront' function hfunction _ _
    have hfind := h.find?_helper hentry
    rw [Env.lookup?_declaring, List.filterMap_append]
    rw [Declared.find?] at hnone hfind ⊢
    rw [List.find?_append, hnone, Option.none_or, hfind]
  · intro name hname
    have hnone : Declared.find? ((helperStatements generated).filterMap Declared.ofStmt?) name =
        none := by
      refine List.find?_eq_none.mpr fun function hfunction hequal => hname ?_
      obtain ⟨helper, params, body, hentry, rfl⟩ := h.mem_declared.mp hfunction
      rw [← beq_iff_eq.mp hequal]
      exact List.mem_filterMap.mpr ⟨_, mem_helperStatements.mpr ⟨_, hentry, rfl⟩, rfl⟩
    rw [Env.lookup?_declaring, List.filterMap_append]
    rw [Declared.find?] at hnone
    simp only [Declared.find?, List.find?_append, hnone, Option.or_none]

end Scope

end TypedRoutes
