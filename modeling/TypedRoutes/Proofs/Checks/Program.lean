import TypedRoutes.Proofs.Checks.Correct
import TypedRoutes.Proofs.Runtime.Divergence
import TypedRoutes.Proofs.Runtime.Isolated

/-!
# Checks as programs

The program that a check amounts to: the helpers it needs are declared, then its condition is
evaluated. For a guarded type it ends, with true exactly for the values that match.
-/

namespace TypedRoutes

namespace Runtime

/-- The names a program sees whose only input is a value. -/
def Env.input (value : Data) : Env := .bind "input" (.data value) .empty

theorem Env.input_standard (value : Data) : (Env.input value).StandardFree := by
  intro name found hstandard
  refine lookup?_bind_of_ne ?_ _ _
  rintro rfl
  exact not_local_of_standard hstandard (.inl (by simp [parameters]))

end Runtime

namespace Scope

open TypedRoutes.Runtime

theorem not_helper_of_parameter {name : String} (h : name ∈ parameters) (kind : HelperKind)
    (index : Nat) : name ≠ kind.helperName index := by
  rintro rfl
  exact HelperKind.not_local_helperName kind index (.inl h)

/-- Behind the declarations of functions and helpers, generated code can be evaluated. -/
theorem Drained.exec_ready {scope : Scope} {final : Registry} {generated : List (Helper × Expr)}
    (h : scope.Drained 0 final generated) (world : World) {outer : Env}
    (hstandard : outer.StandardFree) {front : List Stmt}
    (hfront : ∀ stmt ∈ front, ∃ function, Declared.ofStmt? stmt = some function ∧
      standard? function.name = none ∧
      ∀ kind index, function.name ≠ HelperKind.helperName kind index) :
    ∃ base : Env, scope.Ready final base ∧
      (∀ name, name ∉ declaredNames (helperStatements generated) →
        base.lookup? name =
          match Declared.find? (front.filterMap Declared.ofStmt?) name with
          | some function => some (.closure function.params function.body base)
          | none => outer.lookup? name) ∧
      ∀ stmt rest, Declared.ofStmt? stmt = none →
        (exec world outer (front ++ helperStatements generated ++ stmt :: rest)).Joins
          (exec world base (stmt :: rest)) := by
  obtain ⟨base, hlinks, hlookup, hexec⟩ := h.exec_helpers world outer fun stmt hstmt => by
    obtain ⟨function, hfunction, -, hname⟩ := hfront stmt hstmt
    exact ⟨function, hfunction, hname⟩
  refine ⟨base, ⟨hlinks, fun name value hvalue => ?_⟩, hlookup, hexec⟩
  have hnone : Declared.find? (front.filterMap Declared.ofStmt?) name = none := by
    refine List.find?_eq_none.mpr fun function hfunction hname => ?_
    obtain ⟨stmt, hstmt, hsome⟩ := List.mem_filterMap.mp hfunction
    obtain ⟨found, hfound, hfree, -⟩ := hfront stmt hstmt
    cases hsome.symm.trans hfound
    rw [beq_iff_eq.mp hname, hvalue] at hfree
    cases hfree
  rw [hlookup name (not_mem_declaredNames fun kind index hname => ?_), hnone]
  · exact hstandard name value hvalue
  · rw [hname, HelperKind.standard?_helperName] at hvalue
    cases hvalue

/-- The declarations of the helpers that a check calls, and the check. -/
def checkProgram (scope : Scope) (type : Ty) : List Stmt :=
  let generated := ((scope.withHelpers 0 (scope.check type 0 input)).run .empty).1
  generated.2 ++ [.returns generated.1]

/-- The check of a guarded type gives the flag that tells whether the value matches. -/
theorem checkProgram_yields (world : World) (scope : Scope) (type : Ty) (value : Data)
    (hguarded : scope.definitions.Guarded type) (hvalue : value.WellFormed) {result : Bool}
    (hresult : result = true ↔ Matches world scope.definitions value type.kind) (heap : Heap) :
    (exec world (.input value) (scope.checkProgram type)).Yields heap
      (some (.data (.boolean result))) heap := by
  obtain ⟨condition, generated, final, hrun, hgives, hdrained⟩ :=
    withHelpers_drained scope 0 (check_asking scope type 0 input)
  obtain ⟨base, hready, hlookup, hexec⟩ :=
    hdrained.exec_ready world (Env.input_standard value) (by simp : ∀ stmt ∈ [], _)
  have hinput : base.lookup? "input" = some (.data value) := by
    refine (hlookup "input" ?_).trans (Env.lookup?_bind_self _ _ _)
    exact not_mem_declaredNames (not_helper_of_parameter (by simp [parameters]))
  obtain ⟨decided, hdecided, htests⟩ := check_decides_of_guarded hready hguarded hgives
    (.bound hinput (not_boundFrom_parameter (by simp [parameters]))) (.refl base) hvalue
  obtain rfl : decided = result := Bool.eq_iff_iff.mpr (hdecided.trans hresult.symm)
  have hprogram : scope.checkProgram type = helperStatements generated ++ [.returns condition] := by
    rw [checkProgram, hrun]
    rfl
  rw [hprogram]
  exact (hexec _ _ rfl).yields (exec_returns (htests heap).yields [])

/-- The check of a guarded type ends on every value and fails on none: it reads no property of an
absent value. It gives true if the value matches the type, and false otherwise. -/
theorem checkProgram_correct (world : World) (scope : Scope) (type : Ty) (value : Data)
    (hguarded : scope.definitions.Guarded type) (hvalue : value.WellFormed) :
    ∃ result : Bool, (result = true ↔ Matches world scope.definitions value type.kind) ∧
      ∀ heap, (exec world (.input value) (scope.checkProgram type)).Yields heap
        (some (.data (.boolean result))) heap := by
  classical
  have hresult := decide_eq_true_iff (p := Matches world scope.definitions value type.kind)
  exact ⟨_, hresult, checkProgram_yields world scope type value hguarded hvalue hresult⟩

/-- A list of numbers: a node holds one and leads to the next node, or to null. -/
def listDefinitions : TypeTable :=
  .ofList [("Node", (TyKind.object [.mk "value" TyKind.number.type false none,
    .mk "next" (TyKind.union [TyKind.null.type, (TyKind.reference "Node").type]).type false
      none]).type)]

theorem listDefinitions_guarded : listDefinitions.Guarded (TyKind.reference "Node").type := by
  have hleads : ∀ inner outer, ¬ listDefinitions.Leads inner outer := by
    rintro inner outer ⟨definition, hdefinition, hmem⟩
    obtain ⟨front, rest, hentries, -⟩ := List.lookup_eq_some_iff.mp hdefinition
    have hentry : (outer, definition) ∈ listDefinitions.entries := by simp [hentries]
    rw [listDefinitions, KeyMap.ofList, List.foldl_cons, List.foldl_nil] at hentry
    cases List.mem_singleton.mp hentry
    cases hmem
  intro name _ hcycle
  obtain ⟨inner, -, hlast⟩ := (Relation.TransGen.tail'_iff).mp hcycle
  exact hleads inner name hlast

/-- The last node of a list. -/
theorem wellFormed_node {value : Data} (hvalue : value.WellFormed) :
    (Data.object [("value", value), ("next", .null)]).WellFormed := by
  refine .object (by simp) fun member hmember => ?_
  simp only [List.mem_cons, List.not_mem_nil, or_false] at hmember
  rcases hmember with rfl | rfl
  · exact hvalue
  · exact .null

/-- A list of one number is checked, recursion through the helper included. -/
theorem checkProgram_correct_list :
    listDefinitions.Guarded (TyKind.reference "Node").type ∧
      (Data.object [("value", .number 1), ("next", .null)]).WellFormed ∧
      ∃ result : Bool, (result = true ↔ Matches World.bare listDefinitions
          (.object [("value", .number 1), ("next", .null)]) (.reference "Node")) ∧
        ∀ heap, (exec World.bare (.input (.object [("value", .number 1), ("next", .null)]))
          (checkProgram (.mk (.identifier "factory") listDefinitions)
            (TyKind.reference "Node").type)).Yields heap (some (.data (.boolean result))) heap := by
  have hvalue := wellFormed_node (.number 1)
  exact ⟨listDefinitions_guarded, hvalue, checkProgram_correct World.bare
    (.mk (.identifier "factory") listDefinitions) (TyKind.reference "Node").type _
    listDefinitions_guarded hvalue⟩

/-- A definition that is nothing but a reference to itself. -/
def circularDefinitions : TypeTable := .ofList [("A", (TyKind.reference "A").type)]

/-- Where a definition comes back to itself on the same value, its helper calls itself: the check
ends on no value. -/
theorem checkProgram_endless :
    ¬ ∀ (world : World) (scope : Scope) (type : Ty) (value : Data), value.WellFormed →
      ∃ result : Bool, (result = true ↔ Matches world scope.definitions value type.kind) ∧
        ∀ heap, (exec world (.input value) (scope.checkProgram type)).Yields heap
          (some (.data (.boolean result))) heap := by
  intro hclaim
  obtain ⟨result, -, hyields⟩ := hclaim World.bare (.mk (.identifier "factory") circularDefinitions)
    (TyKind.reference "A").type .null .null
  have hprogram : checkProgram (.mk (.identifier "factory") circularDefinitions)
      (TyKind.reference "A").type =
      [.const "$io0" (.lambda ["input"] (.invoke (.identifier "$io0") [.identifier "input"])),
        .returns (.invoke (.identifier "$io0") [.identifier "input"])] := by
    cbv
  refine Process.not_yields (fun fuel => ?_) (hyields [])
  rw [hprogram]
  cases fuel with
  | zero =>
    rw [exec_zero]
    exact .stuck
  | succ fuel =>
    have hstep : exec World.bare (.input .null) ([.const "$io0" (.lambda ["input"]
        (.invoke (.identifier "$io0") [.identifier "input"]))] ++
          [.returns (.invoke (.identifier "$io0") [.identifier "input"])]) (fuel + 1) = _ :=
      exec_declaring_succ World.bare (.input .null) (by decide) rfl [] fuel
    rw [List.cons_append, List.nil_append] at hstep
    rw [hstep]
    cases fuel with
    | zero =>
      rw [exec_zero]
      exact .stuck
    | succ fuel =>
      simp only [exec, leadingFunctions, Declared.ofStmt?]
      exact (selfCall_endless rfl (by decide) fuel _ rfl rfl).bind

end Scope

end TypedRoutes
