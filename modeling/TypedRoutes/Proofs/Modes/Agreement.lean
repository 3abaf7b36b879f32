import TypedRoutes.Proofs.Modes.Linked

/-!
# The modes agree

One type, one factory, one value, four artifacts. Where the check accepts the value, every mode
gives what the mode without a check gives; where it rejects, each mode says so in its own way. The
helpers of the four closures are numbered apart, so their serializers are compared by renaming.
-/

namespace TypedRoutes

open TypedRoutes.Runtime

/-- What the mode that reports gives; the mismatches are listed under the address. -/
def report (success : Bool) (data : Data) (errors : Nat) : Value :=
  .record [("success", .data (.boolean success)), ("data", .data data), ("errors", .cell errors)]

namespace Scope

open Generate

variable {world : World} {scope : Scope} {final final' : Registry} {base base' : Env} {value : Data}
  {type : Ty} {lead lead' after : Heap}

/-! ## The same serializer -/

theorem Hosts.serialize_yields (h : scope.Hosts value final base)
    (h' : scope.Hosts value final' base')
    (hkinds : ∀ helper ∈ final.requested, helper.kind ≠ .validate) {text text' : Expr}
    (hgives : Gives final (scope.serialize type 0 Scope.input) text)
    (hgives' : Gives final' (scope.serialize type 0 Scope.input) text') {result : Data}
    (hyields : (eval world base text).Yields lead (.data result) after) :
    ∃ grown, after = lead ++ grown ∧
      (eval world base' text').Yields lead' (.data result) (lead' ++ grown) :=
  yields_renamed (h.linked h' hkinds lead lead') .base (serialize_renames hkinds hgives hgives')
    hyields

/-- Behind the flag that the mode that reports declares. -/
theorem Hosts.serialize_yields_behind (h : scope.Hosts value final base)
    (h' : scope.Hosts value final' base')
    (hkinds : ∀ helper ∈ final.requested, helper.kind ≠ .validate) {text text' : Expr}
    (hgives : Gives final (scope.serialize type 0 Scope.input) text)
    (hgives' : Gives final' (scope.serialize type 0 Scope.input) text')
    (hname : "success" ∉ scope.factory.identifiers) (flag : Value) {result : Data}
    (hyields : (eval world base text).Yields lead (.data result) after) :
    ∃ grown, after = lead ++ grown ∧
      (eval world (.bind "success" flag base') text').Yields lead' (.data result)
        (lead' ++ grown) := by
  have hfresh (a : String) : ¬ scope.naming final final' a "success" := by
    rintro (⟨kind, i, j, name, -, -, -, -, hhelper⟩ | ⟨rfl, hinput | hstandard | hfactory⟩)
    · exact not_helperName_of_head (by simp) ⟨kind, j, hhelper⟩
    · simp at hinput
    · simp [standardNames] at hstandard
    · exact hname hfactory
  exact yields_renamed (h.linked h' hkinds lead lead') (.beside hfresh flag .base)
    (serialize_renames hkinds hgives hgives') hyields

/-! ## The same error -/

/-- Where nothing but the input is bound, code without helpers can be evaluated. -/
theorem Hosts.at_input (h : scope.Hosts value final base) :
    scope.Hosts value .empty (.input value) where
  ready := ⟨fun _ hhelper => (nomatch hhelper), Env.input_standard value⟩
  input := Env.lookup?_bind_self _ _ _
  free name hname := by
    refine Env.lookup?_bind_of_ne ?_ _ _
    rintro rfl
    cases (h.free _ hname).symm.trans h.input

theorem guardError_renames (scope : Scope) (type : Ty) (final : Registry) :
    Expr.Renames (scope.naming .empty final) (scope.guardError type) (scope.guardError type) := by
  refine Expr.renames_self _ fun name hname => .inr ⟨rfl, ?_⟩
  simp only [guardError, runtime, Expr.invoke, Expr.objectOf, Expr.identifiers, Expr.identifiersOf,
    Entry.identifiersOf, input, List.map_cons, List.map_nil, List.append_nil, List.nil_append,
    List.mem_append, List.mem_singleton] at hname
  exact hname.elim (fun hfactory => .inr (.inr hfactory)) .inl

theorem Hosts.throws_guardError (h : scope.Hosts value final base) {heap : Heap} :
    (∀ error after, (eval world (.input value) (scope.guardError type)).Yields heap (.data error)
        after → (exec world base [.throws (scope.guardError type)]).Fails heap (.thrown error)) ∧
      ∀ failure, (eval world (.input value) (scope.guardError type)).Fails heap failure →
        (exec world base [.throws (scope.guardError type)]).Fails heap failure := by
  have hlinked := h.at_input.linked h (fun _ hhelper => nomatch hhelper) heap heap
  have hrenames := guardError_renames scope type final
  refine ⟨fun error after hyields => ?_, fun failure hfails => ?_⟩
  · obtain ⟨grown, -, herror⟩ := yields_renamed hlinked .base hrenames hyields
    exact exec_throws herror []
  · exact exec_throws_fails (fails_renamed hlinked .base hrenames hfails) []

/-! ## What each mode does -/

/-- Only a test that holds is folded to the literal. -/
theorem eq_true_of_isBoolean {env : Env} {condition : Expr} {result : Bool}
    (htests : ∀ heap, Tests world env heap condition result heap)
    (h : condition.isBoolean true = true) : result = true := by
  cases condition with
  | boolean literal =>
    rw [Expr.isBoolean, beq_iff_eq] at h
    rw [(htests []).of_boolean.1, h]
  | _ => cases h

/-- The mode that gives null on a mismatch. -/
theorem is_yields {condition text : Expr} {flag : Bool} {given : Data}
    (htests : ∀ heap, Tests world base heap condition flag heap)
    (hgiven : (eval world base (if flag then text else .null)).Yields lead (.data given) after) :
    (eval world base (if condition.isBoolean true then text
      else .conditional condition text .null)).Yields lead (.data given) after := by
  split
  · next hliteral =>
    rw [eq_true_of_isBoolean htests hliteral] at hgiven
    exact hgiven
  · exact yields_conditional (htests lead).yields hgiven

/-- The mode that throws on a mismatch, where there is none. -/
theorem assert_yields {condition text : Expr} {throwing : List Stmt} {given : Data}
    (htests : ∀ heap, Tests world base heap condition true heap)
    (hgiven : (eval world base text).Yields lead (.data given) after) :
    (returned (exec world base ((if condition.isBoolean true then []
      else [Stmt.branch (.negation condition) throwing []]) ++ [.returns text]))).Yields lead
        (.data given) after := by
  have hreturns := exec_returns hgiven []
  split
  · exact hreturns.bind (.pure _ after)
  · refine (exec_branch_next (yields_not (htests lead).yields) ?_ hreturns).bind (.pure _ after)
    exact exec_nil

/-- The mode that throws on a mismatch, where there is one. -/
theorem assert_fails {condition text : Expr} {throwing : List Stmt} {failure : Failure}
    (htests : ∀ heap, Tests world base heap condition false heap)
    (hfails : (exec world base throwing).Fails lead failure) :
    (returned (exec world base ((if condition.isBoolean true then []
      else [Stmt.branch (.negation condition) throwing []]) ++ [.returns text]))).Fails lead
        failure := by
  split
  · next hliteral => exact absurd (eq_true_of_isBoolean htests hliteral) Bool.false_ne_true
  · exact (exec_branch_fails (yields_not (htests lead).yields) hfails).bind _

/-- The mode that reports: the flag, what is given with it, and the list of mismatches. -/
theorem validate_yields {success text : Expr} {flag : Bool} {given : Data} {errors : Nat}
    {tested : Heap} (hyields : (eval world base success).Yields lead (.data (.boolean flag)) tested)
    (herrors : base.lookup? "errors" = some (.cell errors))
    (hgiven : (eval world (.bind "success" (.data (.boolean flag)) base)
      (if flag then text else .null)).Yields tested (.data given) after)
    (hfunction : Declared.ofStmt? (.const "success" success) = none) :
    (exec world base [.const "success" success, .returns (reportResult text)]).Yields lead
      (some (report flag given errors)) after := by
  have hflag : Evaluates world (.bind "success" (.data (.boolean flag)) base)
      (.identifier "success") (.data (.boolean flag)) :=
    .bound (Env.lookup?_bind_self _ _ _)
  have hlist : Evaluates world (.bind "success" (.data (.boolean flag)) base)
      (.identifier "errors") (.cell errors) :=
    .bound ((Env.lookup?_bind_of_ne (by decide) _ _).trans herrors)
  refine exec_const hfunction hyields (exec_returns ?_ [])
  have hentries : (evalEntries world (.bind "success" (.data (.boolean flag)) base)
      [.mk "success" (.identifier "success"),
        .mk "data" (.conditional (.identifier "success") text .null),
        .mk "errors" (.identifier "errors")]).Yields tested
      [("success", .data (.boolean flag)), ("data", .data given), ("errors", .cell errors)]
        after :=
    evalEntries_cons (hflag tested) (evalEntries_cons (yields_conditional (hflag tested) hgiven)
      (evalEntries_cons (hlist after) evalEntries_nil))
  exact yields_object hentries

/-- Mismatches are added to the list that was made last. -/
theorem report_last (heap : Heap) (mismatches : List Data) :
    (heap ++ [[]]).report heap.length mismatches = heap ++ [mismatches] :=
  modify_append_right heap [[]] 0 (· ++ mismatches)

/-- A test declares no function. -/
theorem ofStmt?_eq_none {name : String} {expr : Expr} {flag : Bool}
    (h : (eval world base expr).Yields lead (.data (.boolean flag)) after) :
    Declared.ofStmt? (.const name expr) = none := by
  cases expr with
  | arrow params body =>
    obtain ⟨hvalue, -⟩ := h.unique (Evaluates.closure params body lead)
    cases hvalue
  | _ => rfl

/-! ## What the modes give

From here on there is the closure of the mode without a check, with its names and its serializer,
and the answer of the check. -/

section

variable {accepted : Bool} {text : Expr} (hguarded : scope.definitions.Guarded type)
  (hvalue : value.WellFormed)
  (hresult : accepted = true ↔ Matches world scope.definitions value type.kind)
  (hhosts : scope.Hosts value final base)
  (hkinds : ∀ helper ∈ final.requested, helper.kind ≠ .validate)
  (hgives : Gives final (scope.serialize type 0 Scope.input) text)

include hguarded hvalue hresult

theorem Hosts.tests (h : scope.Hosts value final' base') {condition : Expr}
    (hcondition : Gives final' (scope.check type 0 Scope.input) condition) :
    ∀ heap, Tests world base' heap condition accepted heap := by
  have hinput : Stable world base' 0 Scope.input value :=
    .bound h.input (not_boundFrom_parameter (by simp [parameters]))
  obtain ⟨decided, hdecided, htests⟩ :=
    check_decides_of_guarded h.ready hguarded hcondition hinput (.refl base') hvalue
  obtain rfl : decided = accepted := Bool.eq_iff_iff.mpr (hdecided.trans hresult.symm)
  exact htests

include hhosts hkinds hgives

theorem is_agrees (hfactory : ∀ name ∈ scope.factory.identifiers,
      ¬ Binds scope.factory name (scope.artifactLiteral .is type)) (heap : Heap) :
    (accepted = true → ∀ result after, (eval world base text).Yields heap (.data result) after →
      (scope.literalCall world .is type value).Yields heap (.data result)
        after) ∧
      (accepted = false →
        (scope.literalCall world .is type value).Yields heap (.data .null)
          heap) := by
  obtain ⟨final', base', -, statements, hhosts', -, -, -, hgives', hjoins⟩ :=
    scope.plain_call world (by decide) type value hfactory
  obtain ⟨condition, text', hcondition, htext', -, rfl⟩ := gives_is hgives'
  have htests := hhosts'.tests hguarded hvalue hresult hcondition
  refine ⟨fun haccepted result after hyields => ?_, fun hrejected => ?_⟩
  · subst haccepted
    obtain ⟨grown, rfl, hsame⟩ := hhosts.serialize_yields hhosts' hkinds hgives htext' hyields
    exact hjoins.yields ((returned_joins _).yields (is_yields htests hsame))
  · subst hrejected
    exact hjoins.yields ((returned_joins _).yields (is_yields htests (Evaluates.null heap)))

theorem assert_agrees (hfactory : ∀ name ∈ scope.factory.identifiers,
      ¬ Binds scope.factory name (scope.artifactLiteral .assert type))
    (heap : Heap) :
    (accepted = true → ∀ result after, (eval world base text).Yields heap (.data result) after →
      (scope.literalCall world .assert type value).Yields heap
        (.data result) after) ∧
      (accepted = false →
        (∀ error after, (eval world (.input value) (scope.guardError type)).Yields heap
            (.data error) after →
          (scope.literalCall world .assert type value).Fails heap
            (.thrown error)) ∧
        ∀ failure, (eval world (.input value) (scope.guardError type)).Fails heap failure →
          (scope.literalCall world .assert type value).Fails heap
            failure) := by
  obtain ⟨final', base', -, statements, hhosts', -, -, -, hgives', hjoins⟩ :=
    scope.plain_call world (by decide) type value hfactory
  obtain ⟨condition, text', hcondition, htext', -, rfl⟩ := gives_assert hgives'
  have htests := hhosts'.tests hguarded hvalue hresult hcondition
  refine ⟨fun haccepted result after hyields => ?_, fun hrejected => ?_⟩
  · subst haccepted
    obtain ⟨grown, rfl, hsame⟩ := hhosts.serialize_yields hhosts' hkinds hgives htext' hyields
    exact hjoins.yields (assert_yields htests hsame)
  · subst hrejected
    obtain ⟨hthrown, hfailed⟩ := hhosts'.throws_guardError
    exact ⟨fun error after hyields => hjoins.fails
      (assert_fails htests (hthrown error after hyields)),
      fun failure hfails => hjoins.fails (assert_fails htests (hfailed failure hfails))⟩

theorem validate_agrees (hfactory : ∀ name ∈ scope.factory.identifiers,
      ¬ Binds scope.factory name (scope.artifactLiteral .validate type))
    (heap : Heap) :
    (accepted = true → ∀ result after, (eval world base text).Yields heap (.data result) after →
      ∃ grown, after = heap ++ grown ∧
        (scope.literalCall world .validate type value).Yields heap
          (report true result heap.length) (heap ++ [] :: grown)) ∧
      (accepted = false → ∃ mismatches, mismatches ≠ [] ∧
        (scope.literalCall world .validate type value).Yields heap
          (report false .null heap.length) (heap ++ [mismatches])) := by
  obtain ⟨final', base', success, text', hhosts', hcollects, herrors, hname, hsuccess, htext',
    hcall⟩ := scope.validate_call world type value hfactory heap
  have hinput : Stable world base' 0 Scope.input value :=
    .bound hhosts'.input (not_boundFrom_parameter (by simp [parameters]))
  obtain ⟨flag, mismatches, hflag, hmismatches, htests⟩ :=
    validate_reports_of_guarded hhosts'.ready hcollects hguarded hsuccess hinput
      (fun _ _ => .string "$input") (.refl base') hvalue
  obtain rfl : flag = accepted := Bool.eq_iff_iff.mpr (hflag.trans hresult.symm)
  have htested := (htests (heap ++ [[]])).yields
  rw [report_last] at htested
  refine ⟨fun haccepted result after hyields => ?_, fun hrejected => ?_⟩
  · subst haccepted
    obtain rfl : mismatches = [] := hmismatches.mpr rfl
    obtain ⟨grown, rfl, hsame⟩ := hhosts.serialize_yields_behind hhosts' hkinds hgives htext' hname
      (.data (.boolean true)) hyields
    refine ⟨grown, rfl, hcall (ofStmt?_eq_none htested) _ _ ?_⟩
    have hheap : heap ++ [] :: grown = heap ++ [[]] ++ grown := List.append_cons heap [] grown
    rw [hheap]
    exact validate_yields htested herrors hsame (ofStmt?_eq_none htested)
  · subst hrejected
    refine ⟨mismatches, fun hnil => Bool.false_ne_true (hmismatches.mp hnil), ?_⟩
    refine hcall (ofStmt?_eq_none htested) _ _ ?_
    exact validate_yields htested herrors (Evaluates.null _) (ofStmt?_eq_none htested)

end

end Scope

/-- The four modes agree about a value, whether or not the check accepts it. Where it does, and the
mode without a check gives a result, the modes that assert and that test give it too, and the mode
that reports gives it with an empty list. Where it does not, the mode that asserts throws the error
of the factory, or fails as making the error does; the mode that tests gives null; the mode that
reports gives null with a list that is not empty. -/
structure ModesAgree (world : World) (definitions : TypeTable) (factory : Expr) (type : Ty)
    (value : Data) (heap : Heap) (accepted : Bool) : Prop where
  checked : (exec world (.input value) ((Scope.mk factory definitions).checkProgram type)).Yields
    heap (some (.data (.boolean accepted))) heap
  gives : accepted = true → ∀ result after,
    (modeCall world definitions factory .stringify type value).Yields heap (.data result) after →
    (modeCall world definitions factory .assert type value).Yields heap (.data result) after ∧
    (modeCall world definitions factory .is type value).Yields heap (.data result) after ∧
    ∃ grown, after = heap ++ grown ∧
      (modeCall world definitions factory .validate type value).Yields heap
        (report true result heap.length) (heap ++ [] :: grown)
  throws : accepted = false → ∀ error after,
    (eval world (.input value) ((Scope.mk factory definitions).guardError type)).Yields heap
      (.data error) after →
    (modeCall world definitions factory .assert type value).Fails heap (.thrown error)
  fails : accepted = false → ∀ failure,
    (eval world (.input value) ((Scope.mk factory definitions).guardError type)).Fails
      heap failure →
    (modeCall world definitions factory .assert type value).Fails heap failure
  null : accepted = false →
    (modeCall world definitions factory .is type value).Yields heap (.data .null) heap
  lists : accepted = false → ∃ mismatches, mismatches ≠ [] ∧
    (modeCall world definitions factory .validate type value).Yields heap
      (report false .null heap.length) (heap ++ [mismatches])

/-- For a guarded type and a factory none of whose names an artifact binds, the four modes agree
about every value. -/
theorem modes_agree (world : World) (definitions : TypeTable) (factory : Expr) (type : Ty)
    (value : Data) (hguarded : definitions.Guarded type) (hvalue : value.WellFormed)
    (hfactory : ∀ mode, ∀ name ∈ factory.identifiers,
      ¬ Binds factory name (artifact definitions factory mode type)) (heap : Heap) :
    ∃ accepted, ModesAgree world definitions factory type value heap accepted := by
  classical
  have hresult := decide_eq_true_iff (p := Matches world definitions value type.kind)
  let scope : Scope := .mk factory definitions
  obtain ⟨final, base, -, statements, hhosts, -, -, hkinds, hgives, hjoins⟩ :=
    scope.plain_call world (by decide) type value (hfactory .stringify)
  obtain ⟨text, htext, -, rfl⟩ := Scope.gives_stringify hgives
  obtain ⟨hassert, hthrows⟩ := Scope.assert_agrees hguarded hvalue hresult hhosts hkinds htext
    (hfactory .assert) heap
  obtain ⟨his, hnull⟩ := Scope.is_agrees hguarded hvalue hresult hhosts hkinds htext
    (hfactory .is) heap
  obtain ⟨hreport, hlist⟩ := Scope.validate_agrees hguarded hvalue hresult hhosts hkinds htext
    (hfactory .validate) heap
  refine ⟨_,
    { checked := scope.checkProgram_yields world type value hguarded hvalue hresult heap
      gives := fun haccepted result after hyields => ?_
      throws := fun hrejected => (hthrows hrejected).1
      fails := fun hrejected => (hthrows hrejected).2
      null := hnull
      lists := hlist }⟩
  -- every mode that accepts returns the text of the serializer, under numbers of its own
  have hsame := ((returned_joins text).symm.trans hjoins.symm).yields hyields
  exact ⟨hassert haccepted result after hsame, his haccepted result after hsame,
    hreport haccepted result after hsame⟩

/-- A list of numbers with a text in it, through the four modes and their helpers. -/
theorem modes_agree_list :
    Scope.listDefinitions.Guarded (TyKind.reference "Node").type ∧
      (Data.object [("value", .string "one"), ("next", .null)]).WellFormed ∧
      (∀ mode, ∀ name ∈ (Expr.identifier "core").identifiers,
        ¬ Binds (.identifier "core") name
          (artifact Scope.listDefinitions (.identifier "core") mode
            (TyKind.reference "Node").type)) ∧
      ∃ accepted, ModesAgree World.bare Scope.listDefinitions (.identifier "core")
        (TyKind.reference "Node").type (.object [("value", .string "one"), ("next", .null)]) []
        accepted := by
  have hvalue := Scope.wellFormed_node (.string "one")
  exact ⟨Scope.listDefinitions_guarded, hvalue, fun _ => not_binds_core,
    modes_agree World.bare Scope.listDefinitions (.identifier "core") (TyKind.reference "Node").type
      _ Scope.listDefinitions_guarded hvalue (fun _ => not_binds_core) []⟩

end TypedRoutes
