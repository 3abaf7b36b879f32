import TypedRoutes.Proofs.Generation.Drain
import TypedRoutes.Proofs.Generation.Linking
import TypedRoutes.Proofs.Generation.Numbering

/-!
# Closed artifacts

Generation ends, and the closure that it ends with needs nothing but the factory and what every
program finds in place: every helper that is called is declared once, in front of whatever runs it.
-/

namespace TypedRoutes

/-- Whether a statement declares a function. Carrying it out runs nothing. -/
def Stmt.declaresFunction : Stmt → Bool
  | .const _ (.arrow _ _) => true
  | _ => false

/-- The statements can be carried out behind those that are done: whenever one of them runs
something, what it names and what the functions declared so far name is declared by then. -/
def InOrder (factory : Expr) (params : List String) : List Stmt → List Stmt → Prop
  | _, [] => True
  | done, stmt :: rest =>
    (stmt.declaresFunction = false → ∀ part ∈ blockParts (done ++ [stmt]),
      Scoped factory (declaredNames done) params part) ∧
    InOrder factory params (done ++ [stmt]) rest

/-- The block of a closure with its helpers: there is at most one of a kind for each defined type,
each is declared once, and all names are bound. -/
structure Sealed (definitions : TypeTable) (factory : Expr) (mode : Mode) (helpers : List Helper)
    (block : List Stmt) : Prop where
  single : (helpers.map fun helper => (helper.kind, helper.typeName)).Nodup
  defined : ∀ helper ∈ helpers, definitions.contains helper.typeName = true
  declares : ∀ name, HelperName name →
    (name ∈ declaredNames block ↔ ∃ helper ∈ helpers, helper.kind.helperName helper.index = name)
  once : (declaredNames block).Nodup
  reports : mode = .validate → ["errors", "$report"] <+: declaredNames block
  bound : Scoped factory [] [] (.lambdaBlock ["input"] block)
  ordered : InOrder factory ["input"] [] block

/-- Two blocks declare the names of both. -/
theorem declaredNames_append (front back : List Stmt) :
    declaredNames (front ++ back) = declaredNames front ++ declaredNames back :=
  List.filterMap_append

/-- Two blocks have the parts of both. -/
theorem blockParts_append (front back : List Stmt) :
    blockParts (front ++ back) = blockParts front ++ blockParts back := by
  induction front with
  | nil => rfl
  | cons stmt rest ih => simp [blockParts, ih]

/-- Functions in front can be declared in any case. -/
theorem InOrder.functions {factory : Expr} {params : List String} {front back : List Stmt}
    (hfront : ∀ stmt ∈ front, stmt.declaresFunction = true) :
    ∀ {done : List Stmt}, InOrder factory params (done ++ front) back →
      InOrder factory params done (front ++ back) := by
  induction front with
  | nil =>
    intro done h
    simpa using h
  | cons stmt rest ih =>
    intro done h
    have hstmt := hfront stmt List.mem_cons_self
    refine ⟨fun hruns => ?_, ih (fun other hother =>
      hfront other (List.mem_cons_of_mem _ hother)) ?_⟩
    · rw [hstmt] at hruns
      cases hruns
    · simpa using h

namespace Scope

open Generate

variable {scope : Scope} {final : Registry} {generated : List (Helper × Expr)}

/-! ## Names in generated expressions -/

section

variable {consts params : List String}

/-- Where all helpers are among the constants, the names of helpers are linked to themselves. -/
theorem linkedBy_consts
    (hhelpers : ∀ helper ∈ final.requested, helper.kind.helperName helper.index ∈ consts) :
    final.LinkedBy (fun a _ => a ∈ consts) final :=
  fun _ _ _ _ hrequested _ => hhelpers _ hrequested

variable (hhelpers : ∀ helper ∈ final.requested, helper.kind.helperName helper.index ∈ consts)
include hhelpers

/-- A check is like itself where its input is. -/
theorem check_like_itself {type : Ty} {depth : Nat} {input condition : Expr}
    (hgives : Gives final (scope.check type depth input) condition)
    (hinput : Alike scope.factory (fun a _ => a ∈ consts) params input input) :
    Alike scope.factory (fun a _ => a ∈ consts) params condition condition :=
  check_alike scope (linkedBy_consts hhelpers) type depth hinput _ _ hgives hgives

/-- A serializer is like itself where its input is. -/
theorem serialize_like_itself {type : Ty} {depth : Nat} {input text : Expr}
    (hgives : Gives final (scope.serialize type depth input) text)
    (hinput : Alike scope.factory (fun a _ => a ∈ consts) params input input) :
    Alike scope.factory (fun a _ => a ∈ consts) params text text :=
  serialize_alike scope (linkedBy_consts hhelpers) type depth hinput _ _ hgives hgives

/-- A validator is like itself where its input and its path are and the reporter is declared. -/
theorem validate_like_itself (hreporter : reporter ∈ consts) {type : Ty} {depth : Nat}
    {input path condition : Expr} {expected : String}
    (hgives : Gives final (scope.validate type depth input path expected) condition)
    (hinput : Alike scope.factory (fun a _ => a ∈ consts) params input input)
    (hpath : Alike scope.factory (fun a _ => a ∈ consts) params path path) :
    Alike scope.factory (fun a _ => a ∈ consts) params condition condition :=
  validate_alike scope (linkedBy_consts hhelpers) hreporter type depth expected hinput hpath _ _
    hgives hgives

/-- The closure of a helper is like itself. -/
theorem helperClosure_like_itself {helper : Helper} {definition : Ty} {closure : Expr}
    (hreporter : helper.kind = .validate → reporter ∈ consts)
    (hgives : Gives final (scope.helperClosure 0 helper definition) closure) :
    Alike scope.factory (fun a _ => a ∈ consts) params closure closure := by
  have hlocal {name : String} (h : name ∈ parameters) {names : List String} (hmem : name ∈ names) :
      Alike scope.factory (fun a _ => a ∈ consts) (names ++ params) (.identifier name)
        (.identifier name) :=
    .parameter (List.mem_append_left _ hmem) (.inl h)
  have hbound (names : List String) (h : names ⊆ parameters) : ∀ name ∈ names, Local name :=
    fun name hname => .inl (h hname)
  obtain ⟨kind, index, typeName⟩ := helper
  rw [helperClosure] at hgives
  cases kind with
  | check =>
    obtain ⟨body, hbody, rfl⟩ := hgives.of_map
    exact .lambda (hbound _ (by simp [parameters]))
      (check_like_itself hhelpers hbody (hlocal (by simp [parameters]) (by simp)))
  | serialize =>
    obtain ⟨body, hbody, rfl⟩ := hgives.of_map
    exact .lambda (hbound _ (by simp [parameters]))
      (serialize_like_itself hhelpers hbody (hlocal (by simp [parameters]) (by simp)))
  | validate =>
    obtain ⟨body, hbody, rfl⟩ := hgives.of_map
    exact .lambda (hbound _ (by simp [parameters]))
      (validate_like_itself hhelpers (hreporter rfl) hbody
        (hlocal (by simp [parameters]) (by simp)) (hlocal (by simp [parameters]) (by simp)))

end

/-! ## The declarations of helpers -/

/-- The declarations of helpers are in the order of their names. -/
theorem declaredNames_helperStatements (generated : List (Helper × Expr)) :
    declaredNames (helperStatements generated) = (generated.mergeSort declaredBefore).map
      fun entry => entry.1.kind.helperName entry.1.index := by
  rw [declaredNames, helperStatements, List.filterMap_map]
  exact List.filterMap_eq_map ▸ rfl

/-- Exactly the helpers that were asked for are declared. -/
theorem Drained.mem_declaredNames (h : scope.Drained 0 final generated) {name : String} :
    name ∈ declaredNames (helperStatements generated) ↔
      ∃ helper ∈ final.requested, helper.kind.helperName helper.index = name := by
  simp [declaredNames_helperStatements, h.requested]

/-- No helper is declared twice. -/
theorem Drained.nodup_declaredNames (h : scope.Drained 0 final generated) :
    (declaredNames (helperStatements generated)).Nodup := by
  rw [declaredNames_helperStatements]
  have hsorted : ((generated.mergeSort declaredBefore).map Prod.fst).Nodup := by
    rw [(List.mergeSort_perm generated declaredBefore).map Prod.fst |>.nodup_iff, ← h.requested]
    exact h.sound.requested_nodup
  refine List.Nodup.map_on (fun a ha b hb hname => ?_) (List.Nodup.of_map _ hsorted)
  have hmem {entry : Helper × Expr} (hentry : entry ∈ generated.mergeSort declaredBefore) :
      entry.1 ∈ final.requested := by
    rw [h.requested]
    exact List.mem_map_of_mem (List.mem_mergeSort.mp hentry)
  obtain ⟨hkind, hindex⟩ := HelperKind.helperName_inj.mp hname
  exact List.inj_on_of_nodup_map hsorted ha hb
    (h.sound.helper_ext (hmem ha) (hmem hb) hkind hindex)

/-- Every declaration of a helper declares a function. -/
theorem Drained.declaresFunction (h : scope.Drained 0 final generated) {stmt : Stmt}
    (hstmt : stmt ∈ helperStatements generated) : stmt.declaresFunction = true := by
  obtain ⟨⟨helper, closure⟩, hentry, rfl⟩ := mem_helperStatements.mp hstmt
  obtain ⟨definition, -, hgives⟩ := h.gives _ hentry
  obtain ⟨params, body, rfl⟩ := lambda_of_helperClosure hgives
  rfl

/-- The helpers name what is declared with them and, if there are validators among them, the
reporter. -/
theorem Drained.like_themselves (h : scope.Drained 0 final generated)
    {consts params : List String} (hconsts : declaredNames (helperStatements generated) ⊆ consts)
    (hreporter : (∃ helper ∈ final.requested, helper.kind = .validate) → reporter ∈ consts) :
    ∀ part ∈ blockParts (helperStatements generated),
      Alike scope.factory (fun a _ => a ∈ consts) params part part := by
  intro part hpart
  obtain ⟨stmt, hstmt, hpart⟩ := mem_blockParts.mp hpart
  obtain ⟨⟨helper, closure⟩, hentry, rfl⟩ := mem_helperStatements.mp hstmt
  obtain rfl : part = closure := by simpa [declareHelper, Stmt.parts] using hpart
  obtain ⟨definition, -, hgives⟩ := h.gives _ hentry
  have hrequested : helper ∈ final.requested := by
    rw [h.requested]
    exact List.mem_map_of_mem hentry
  exact helperClosure_like_itself
    (fun other hother => hconsts (h.mem_declaredNames.mpr ⟨other, hother, rfl⟩))
    (fun hkind => hreporter ⟨helper, hrequested, hkind⟩) hgives

/-! ## Bodies of closures -/

variable (scope) in
/-- The body of a mode only asks for helpers of defined names. -/
theorem body_asking (mode : Mode) (type : Ty) :
    Asking scope.definitions (scope.body mode type) := by
  have hcheck := check_asking scope type 0 Scope.input
  have hserialize := serialize_asking scope type 0 Scope.input
  cases mode with
  | stringify => exact .bind hserialize fun _ => .pure _
  | is => exact .bind hcheck fun _ => .bind hserialize fun _ => .pure _
  | assert => exact .bind hcheck fun _ => .bind hserialize fun _ => .pure _
  | validate =>
    exact .bind (validate_asking scope type 0 Scope.input _ _) fun _ =>
      .bind hserialize fun _ => .pure _

variable (scope) in
/-- Only the mode that reports asks for validators. -/
theorem body_asksOnly {mode : Mode} (hmode : mode ≠ .validate) (type : Ty) :
    AsksOnly (· ≠ .validate) (scope.body mode type) := by
  have hcomposed := scope.asksOnly (· ≠ .validate)
  have hcheck := hcomposed.check (by simp) type 0 Scope.input
  have hserialize := hcomposed.serialize (by simp) (by simp) type 0 Scope.input
  cases mode with
  | stringify => exact hcomposed.bind hserialize fun _ => hcomposed.pure _
  | is => exact hcomposed.bind hcheck fun _ => hcomposed.bind hserialize fun _ => hcomposed.pure _
  | assert =>
    exact hcomposed.bind hcheck fun _ => hcomposed.bind hserialize fun _ => hcomposed.pure _
  | validate => exact absurd rfl hmode

section

variable {type : Ty} {declarations statements : List Stmt}

/-- The mode that only serializes has one statement. -/
theorem gives_stringify
    (hgives : Gives final (scope.body .stringify type) (declarations, statements)) :
    ∃ text, Gives final (scope.serialize type 0 Scope.input) text ∧ declarations = [] ∧
      statements = [.returns text] := by
  obtain ⟨text, htext, heq⟩ := hgives.of_bind_pure
  obtain ⟨rfl, rfl⟩ := Prod.mk.inj heq
  exact ⟨text, htext, rfl, rfl⟩

/-- The mode that tests serializes what matches and gives null for the rest. -/
theorem gives_is (hgives : Gives final (scope.body .is type) (declarations, statements)) :
    ∃ condition text, Gives final (scope.check type 0 Scope.input) condition ∧
      Gives final (scope.serialize type 0 Scope.input) text ∧ declarations = [] ∧
      statements = [.returns (if condition.isBoolean true then text
        else .conditional condition text .null)] := by
  obtain ⟨condition, hcondition, hgives⟩ := hgives.of_bind scope.definitions fun _ =>
    .bind (serialize_asking scope type 0 Scope.input) fun _ => .pure _
  obtain ⟨text, htext, heq⟩ := hgives.of_bind_pure
  obtain ⟨rfl, rfl⟩ := Prod.mk.inj heq
  exact ⟨condition, text, hcondition, htext, rfl, rfl⟩

/-- The mode that asserts throws in front of the text. -/
theorem gives_assert (hgives : Gives final (scope.body .assert type) (declarations, statements)) :
    ∃ condition text, Gives final (scope.check type 0 Scope.input) condition ∧
      Gives final (scope.serialize type 0 Scope.input) text ∧ declarations = [] ∧
      statements = (if condition.isBoolean true then []
        else [Stmt.branch (.negation condition) [.throws (scope.guardError type)] []]) ++
          [.returns text] := by
  obtain ⟨condition, hcondition, hgives⟩ := hgives.of_bind scope.definitions fun _ =>
    .bind (serialize_asking scope type 0 Scope.input) fun _ => .pure _
  obtain ⟨text, htext, heq⟩ := hgives.of_bind_pure
  obtain ⟨rfl, rfl⟩ := Prod.mk.inj heq
  exact ⟨condition, text, hcondition, htext, rfl, rfl⟩

/-- What a closure that reports returns. -/
def reportResult (text : Expr) : Expr :=
  .objectOf [("success", .identifier "success"),
    ("data", .conditional (.identifier "success") text .null),
    ("errors", .identifier "errors")]

/-- The mode that validates collects mismatches before it answers. -/
theorem gives_validate
    (hgives : Gives final (scope.body .validate type) (declarations, statements)) :
    ∃ success text, Gives final (scope.validate type 0 Scope.input (.string "$input")
        (scope.expected type)) success ∧
      Gives final (scope.serialize type 0 Scope.input) text ∧ declarations = reportDeclarations ∧
      statements = [.const "success" success, .returns (reportResult text)] := by
  obtain ⟨success, hsuccess, hgives⟩ := hgives.of_bind scope.definitions fun _ =>
    .bind (serialize_asking scope type 0 Scope.input) fun _ => .pure _
  obtain ⟨text, htext, heq⟩ := hgives.of_bind_pure
  obtain ⟨rfl, rfl⟩ := Prod.mk.inj heq
  exact ⟨success, text, hsuccess, htext, rfl, rfl⟩

end

section

variable {consts params : List String} {input : Expr}
  (hhelpers : ∀ helper ∈ final.requested, helper.kind.helperName helper.index ∈ consts)
include hhelpers

/-- What is returned behind a check, or what is done about a mismatch, names nothing else. -/
theorem body_plain {mode : Mode} (hmode : mode ≠ .validate) {type : Ty}
    {declarations statements : List Stmt}
    (hgives : Gives final (scope.body mode type) (declarations, statements)) :
    declarations = [] ∧ (∀ stmt ∈ statements, stmt.declared? = none) ∧
      ∀ part ∈ blockParts statements,
        Alike scope.factory (fun a _ => a ∈ consts) ["input"] part part := by
  have hinput : Alike scope.factory (fun a _ => a ∈ consts) ["input"] Scope.input Scope.input :=
    .parameter List.mem_cons_self (.inl (by simp [parameters]))
  cases mode with
  | stringify =>
    obtain ⟨text, htext, rfl, rfl⟩ := gives_stringify hgives
    have htext := serialize_like_itself hhelpers htext hinput
    simp [Stmt.declared?, blockParts, Stmt.parts, htext]
  | is =>
    obtain ⟨condition, text, hcondition, htext, rfl, rfl⟩ := gives_is hgives
    have hcondition := check_like_itself hhelpers hcondition hinput
    have htext := serialize_like_itself hhelpers htext hinput
    refine ⟨rfl, by simp [Stmt.declared?], ?_⟩
    simp only [blockParts, Stmt.parts, List.append_nil, List.mem_singleton, forall_eq]
    split
    · exact htext
    · exact .conditional hcondition htext .null
  | assert =>
    obtain ⟨condition, text, hcondition, htext, rfl, rfl⟩ := gives_assert hgives
    have hcondition := check_like_itself hhelpers hcondition hinput
    have htext := serialize_like_itself hhelpers htext hinput
    have hguard : Alike scope.factory (fun a _ => a ∈ consts) ["input"] (scope.guardError type)
        (scope.guardError type) :=
      runtime_alike "guard" (.objectOf (.cons ⟨rfl, .string _⟩ (.cons ⟨rfl, hinput⟩ .nil)))
    refine ⟨rfl, ?_⟩
    split <;> simp [Stmt.declared?, blockParts, Stmt.parts, htext, hguard,
      Alike.unary .not hcondition, Expr.negation]
  | validate => exact absurd rfl hmode

/-- What the closure that reports evaluates and returns also names what it declares for that. -/
theorem body_validate {type : Ty} {success text : Expr}
    (hsuccess : Gives final (scope.validate type 0 Scope.input (.string "$input")
      (scope.expected type)) success)
    (htext : Gives final (scope.serialize type 0 Scope.input) text) :
    (reporter ∈ consts → Alike scope.factory (fun a _ => a ∈ consts) ["input"] success success) ∧
      ("errors" ∈ consts → "success" ∈ consts →
        Alike scope.factory (fun a _ => a ∈ consts) ["input"] (reportResult text)
          (reportResult text)) := by
  have hinput : Alike scope.factory (fun a _ => a ∈ consts) ["input"] Scope.input Scope.input :=
    .parameter List.mem_cons_self (.inl (by simp [parameters]))
  have htext := serialize_like_itself hhelpers htext hinput
  refine ⟨fun hreporter => ?_, fun herrors hflag => ?_⟩
  · exact validate_like_itself hhelpers hreporter hsuccess hinput (.string _)
  · exact .objectOf (.cons ⟨rfl, .linked hflag⟩
      (.cons ⟨rfl, .conditional (.linked hflag) htext .null⟩ (.cons ⟨rfl, .linked herrors⟩ .nil)))

end

end Scope

/-- A block without declarations declares nothing. -/
theorem declaredNames_eq_nil {block : List Stmt} (h : ∀ stmt ∈ block, stmt.declared? = none) :
    declaredNames block = [] :=
  List.filterMap_eq_nil_iff.mpr h

/-- Statements that declare nothing can be carried out when everything is declared. -/
theorem InOrder.plain {factory : Expr} {params : List String} {block : List Stmt}
    (hplain : ∀ stmt ∈ block, stmt.declared? = none) :
    ∀ {done : List Stmt}, (∀ part ∈ blockParts (done ++ block),
      Scoped factory (declaredNames done) params part) → InOrder factory params done block := by
  induction block with
  | nil => exact fun _ => trivial
  | cons stmt rest ih =>
    intro done hparts
    have hnone : declaredNames [stmt] = [] :=
      declaredNames_eq_nil (by simpa using hplain stmt List.mem_cons_self)
    have hstmt : declaredNames (done ++ [stmt]) = declaredNames done := by
      rw [declaredNames_append, hnone, List.append_nil]
    rw [← List.singleton_append, ← List.append_assoc, blockParts_append] at hparts
    refine ⟨fun _ part hpart => hparts part (List.mem_append_left _ hpart),
      ih (fun other hother => hplain other (List.mem_cons_of_mem _ hother)) ?_⟩
    rw [hstmt, blockParts_append]
    exact hparts

namespace Scope

open Generate

variable {scope : Scope} {final : Registry} {generated : List (Helper × Expr)}

/-- The block of a closure that does not report is sealed. -/
theorem Drained.sealed_plain (h : scope.Drained 0 final generated) {mode : Mode} {type : Ty}
    {declarations statements : List Stmt} (hmode : mode ≠ .validate)
    (hkinds : ∀ helper ∈ final.requested, helper.kind ≠ .validate)
    (hgives : Gives final (scope.body mode type) (declarations, statements)) :
    Sealed scope.definitions scope.factory mode final.requested
      (declarations ++ helperStatements generated ++ statements) := by
  have hhelpers : ∀ helper ∈ final.requested, helper.kind.helperName helper.index ∈
      declaredNames (helperStatements generated) :=
    fun helper hhelper => h.mem_declaredNames.mpr ⟨helper, hhelper, rfl⟩
  obtain ⟨rfl, hplain, hstatements⟩ := body_plain hhelpers hmode hgives
  have hnames : declaredNames ([] ++ helperStatements generated ++ statements) =
      declaredNames (helperStatements generated) := by
    rw [List.nil_append, declaredNames_append, declaredNames_eq_nil hplain, List.append_nil]
  have hparts : ∀ part ∈ blockParts (helperStatements generated ++ statements),
      Scoped scope.factory (declaredNames (helperStatements generated)) ["input"] part := by
    intro part hpart
    rw [blockParts_append] at hpart
    rcases List.mem_append.mp hpart with hpart | hpart
    · refine (h.like_themselves (List.Subset.refl _) ?_ part hpart).toScoped id
      rintro ⟨helper, hhelper, hkind⟩
      exact absurd hkind (hkinds helper hhelper)
    · exact (hstatements part hpart).toScoped id
  refine
    { single := h.sound.nodup_kind_typeName
      defined := h.sound.defined
      declares := fun name _ => by rw [hnames]; exact h.mem_declaredNames
      once := by rw [hnames]; exact h.nodup_declaredNames
      reports := fun hreports => absurd hreports hmode
      bound := .lambdaBlock (fun _ _ => List.not_mem_nil) ?_
      ordered := ?_ }
  · rw [hnames, List.append_nil, List.append_nil]
    exact hparts
  · exact .functions (fun stmt hstmt => h.declaresFunction hstmt) (.plain hplain hparts)

/-- The declaration of the function that collects mismatches needs the list of them. -/
theorem reportDeclarations_scoped {consts params : List String} (herrors : "errors" ∈ consts) :
    ∀ part ∈ blockParts reportDeclarations, Scoped scope.factory consts params part := by
  have hplain {name : String} (hhead : name.toList.head? ≠ some '$')
      (hname : name ∈ ["path", "expected", "value"]) :
      Scoped scope.factory consts (["path", "expected", "value"] ++ params) (.identifier name) :=
    .parameter (List.mem_append_left _ hname) (not_helperName_of_head hhead)
  intro part hpart
  simp only [blockParts, reportDeclarations, Stmt.parts, List.cons_append, List.nil_append,
    List.mem_cons, List.not_mem_nil, or_false] at hpart
  rcases hpart with rfl | rfl
  · exact .array fun _ helement => (List.not_mem_nil helement).elim
  · refine .lambdaBlock (fun _ => List.not_mem_nil.elim) fun part hpart => ?_
    simp only [blockParts, Stmt.parts, List.cons_append, List.nil_append, List.mem_cons,
      List.not_mem_nil, or_false] at hpart
    rcases hpart with rfl | rfl
    · refine .call (.property (.declared (List.mem_append_right _ herrors)) _)
        fun argument harg => ?_
      rw [List.mem_singleton.mp harg]
      refine .object fun entry hentry => ?_
      simp only [List.map_cons, List.map_nil, List.mem_cons, List.not_mem_nil, or_false] at hentry
      rcases hentry with rfl | rfl | rfl
      · exact hplain (by simp) (by simp)
      · exact hplain (by simp) (by simp)
      · exact hplain (by simp) (by simp)
    · exact .boolean false

/-- What stands in front of the statements of a closure that reports. -/
theorem Drained.collecting_scoped (h : scope.Drained 0 final generated)
    {consts params : List String}
    (hconsts : declaredNames (reportDeclarations ++ helperStatements generated) ⊆ consts) :
    ∀ part ∈ blockParts (reportDeclarations ++ helperStatements generated),
      Scoped scope.factory consts params part := by
  rw [declaredNames_append] at hconsts
  obtain ⟨hreport, hhelpers⟩ := List.append_subset.mp hconsts
  rw [blockParts_append]
  intro part hpart
  rcases List.mem_append.mp hpart with hpart | hpart
  · exact reportDeclarations_scoped (hreport (by simp [declaredNames, reportDeclarations,
      Stmt.declared?])) part hpart
  · have hreporter : reporter ∈ consts :=
      hreport (by simp [declaredNames, reportDeclarations, Stmt.declared?])
    exact (h.like_themselves hhelpers (fun _ => hreporter) part hpart).toScoped id

/-- The names that a validating body declares are all different. -/
theorem Drained.nodup_collecting (h : scope.Drained 0 final generated) :
    (["errors", "$report"] ++ declaredNames (helperStatements generated) ++ ["success"]).Nodup := by
  have hplain {name : String} (hname : name ∈ declaredNames (helperStatements generated)) :
      name ≠ "errors" ∧ name ≠ "$report" ∧ name ≠ "success" := by
    obtain ⟨helper, -, rfl⟩ := h.mem_declaredNames.mp hname
    have hhead := helper.kind.head?_helperName helper.index
    refine ⟨?_, (reporter_ne_helperName _ _).symm, ?_⟩ <;>
      · intro heq
        rw [heq] at hhead
        simp at hhead
  refine List.nodup_append.mpr ⟨List.nodup_append.mpr ⟨by decide, h.nodup_declaredNames, ?_⟩,
    List.nodup_singleton _, ?_⟩
  · intro name hname other hother heq
    obtain ⟨herrors, hreport, -⟩ := hplain hother
    simp only [List.mem_cons, List.not_mem_nil, or_false] at hname
    rcases hname with rfl | rfl
    · exact herrors heq.symm
    · exact hreport heq.symm
  · intro name hname other hother heq
    rw [List.mem_singleton.mp hother] at heq
    rcases List.mem_append.mp hname with hname | hname
    · simp [heq] at hname
    · exact (hplain hname).2.2 heq

section

variable {type : Ty} {success text : Expr}

/-- The names that stand in front of the test of a validating body. -/
theorem declaredNames_collecting (generated : List (Helper × Expr)) :
    declaredNames (reportDeclarations ++ helperStatements generated) =
      ["errors", "$report"] ++ declaredNames (helperStatements generated) := by
  rw [declaredNames_append]
  rfl

/-- The test of a validating body is in scope behind the declarations, and so is the result behind
the flag that the test sets. -/
theorem Drained.validate_scoped (h : scope.Drained 0 final generated)
    (hsuccess : Gives final (scope.validate type 0 Scope.input (.string "$input")
      (scope.expected type)) success)
    (htext : Gives final (scope.serialize type 0 Scope.input) text) {consts : List String}
    (hconsts : declaredNames (reportDeclarations ++ helperStatements generated) ⊆ consts) :
    Scoped scope.factory consts ["input"] success ∧
      ("success" ∈ consts → Scoped scope.factory consts ["input"] (reportResult text)) := by
  rw [declaredNames_collecting] at hconsts
  have hhelpers : ∀ helper ∈ final.requested, helper.kind.helperName helper.index ∈ consts :=
    fun helper hhelper =>
      hconsts (List.mem_append_right _ (h.mem_declaredNames.mpr ⟨helper, hhelper, rfl⟩))
  obtain ⟨hcondition, hreturn⟩ := body_validate hhelpers hsuccess htext
  exact ⟨(hcondition (hconsts (by simp [reporter]))).toScoped id,
    fun hname => (hreturn (hconsts (by simp)) hname).toScoped id⟩

/-- No statement of a validating body uses a name before it is declared: closures are run when all
of them stand, and what is evaluated at once comes behind them. -/
theorem Drained.validate_inOrder (h : scope.Drained 0 final generated)
    (hsuccess : Gives final (scope.validate type 0 Scope.input (.string "$input")
      (scope.expected type)) success)
    (htext : Gives final (scope.serialize type 0 Scope.input) text) :
    InOrder scope.factory ["input"] [] (reportDeclarations ++ helperStatements generated ++
      [.const "success" success, .returns (reportResult text)]) := by
  set front := reportDeclarations ++ helperStatements generated
  have hparts {consts : List String} (hconsts : declaredNames front ⊆ consts) :
      ∀ part ∈ blockParts (front ++ [.const "success" success]),
        Scoped scope.factory consts ["input"] part := by
    intro part hpart
    rw [blockParts_append] at hpart
    rcases List.mem_append.mp hpart with hpart | hpart
    · exact h.collecting_scoped hconsts part hpart
    · obtain rfl : part = success := by simpa [blockParts, Stmt.parts] using hpart
      exact (h.validate_scoped hsuccess htext hconsts).1
  refine ⟨fun _ part hpart => ?_, ?_⟩
  · obtain rfl : part = .array [] := by simpa [blockParts, Stmt.parts] using hpart
    exact .array fun _ helement => (List.not_mem_nil helement).elim
  · refine InOrder.functions ?_ ⟨fun _ => hparts (List.Subset.refl _),
      fun _ part hpart => ?_, trivial⟩
    · intro stmt hstmt
      rcases List.mem_cons.mp hstmt with rfl | hstmt
      · rfl
      · exact h.declaresFunction hstmt
    · have hsubset := List.subset_append_left (declaredNames front) ["success"]
      change part ∈ blockParts ((front ++ [.const "success" success]) ++ _) at hpart
      change Scoped _ (declaredNames (front ++ [.const "success" success])) _ _
      rw [blockParts_append] at hpart
      rw [declaredNames_append]
      rcases List.mem_append.mp hpart with hpart | hpart
      · exact hparts hsubset part hpart
      · obtain rfl : part = reportResult text := by simpa [blockParts, Stmt.parts] using hpart
        exact (h.validate_scoped hsuccess htext hsubset).2
          (List.mem_append_right _ List.mem_cons_self)

end

/-- The block of a closure that reports is sealed. -/
theorem Drained.sealed_validate (h : scope.Drained 0 final generated) {type : Ty}
    {declarations statements : List Stmt}
    (hgives : Gives final (scope.body .validate type) (declarations, statements)) :
    Sealed scope.definitions scope.factory .validate final.requested
      (declarations ++ helperStatements generated ++ statements) := by
  obtain ⟨success, text, hsuccess, htext, rfl, rfl⟩ := gives_validate hgives
  have hnames : declaredNames (reportDeclarations ++ helperStatements generated ++
      [.const "success" success, .returns (reportResult text)]) =
      ["errors", "$report"] ++ declaredNames (helperStatements generated) ++ ["success"] := by
    rw [declaredNames_append, declaredNames_collecting]
    rfl
  refine
    { single := h.sound.nodup_kind_typeName
      defined := h.sound.defined
      declares := ?declares
      once := ?once
      reports := ?reports
      bound := .lambdaBlock (fun _ _ => List.not_mem_nil) ?bound
      ordered := h.validate_inOrder hsuccess htext }
  case declares =>
    intro name hname
    rw [hnames, ← h.mem_declaredNames]
    have herrors : name ≠ "errors" := by
      rintro rfl
      exact not_helperName_of_head (by simp) hname
    have hsuccess : name ≠ "success" := by
      rintro rfl
      exact not_helperName_of_head (by simp) hname
    have hreport : name ≠ "$report" := by
      rintro rfl
      obtain ⟨kind, index, heq⟩ := hname
      exact reporter_ne_helperName kind index heq
    simp [herrors, hsuccess, hreport]
  case once =>
    rw [hnames]
    exact h.nodup_collecting
  case reports =>
    intro _
    rw [hnames, List.append_assoc]
    exact List.prefix_append _ _
  case bound =>
    rw [hnames, List.append_nil, List.append_nil, ← declaredNames_collecting]
    intro part hpart
    have hsubset := List.subset_append_left
      (declaredNames (reportDeclarations ++ helperStatements generated)) ["success"]
    obtain ⟨hcondition, hreturn⟩ := h.validate_scoped hsuccess htext hsubset
    rw [blockParts_append] at hpart
    rcases List.mem_append.mp hpart with hpart | hpart
    · exact h.collecting_scoped hsubset part hpart
    · simp only [blockParts, Stmt.parts, List.cons_append, List.nil_append, List.mem_cons,
        List.not_mem_nil, or_false] at hpart
      rcases hpart with rfl | rfl
      · exact hcondition
      · exact hreturn (by simp)

variable (scope) in
/-- The closure of an artifact, part by part. Only the mode that reports has validators among its
helpers. -/
theorem closure_run (mode : Mode) (type : Ty) :
    ∃ declarations statements generated final, (scope.closure mode type).run .empty =
        (.lambdaBlock ["input"] (declarations ++ helperStatements generated ++ statements), final) ∧
      final.pending = [] ∧ Gives final (scope.body mode type) (declarations, statements) ∧
      scope.Drained 0 final generated ∧
      (mode ≠ .validate → ∀ helper ∈ final.requested, helper.kind ≠ .validate) := by
  have hasking := scope.body_asking mode type
  obtain ⟨⟨declarations, statements⟩, generated, final, hrun, hnone, hgives, hdrained⟩ :=
    scope.withHelpers_run 0 hasking
  have hclosure : (scope.closure mode type).run .empty =
      let result := (scope.withHelpers 0 (scope.body mode type)).run .empty
      (.lambdaBlock ["input"] (result.1.1.1 ++ result.1.2 ++ result.1.1.2), result.2) := rfl
  rw [hrun] at hclosure
  refine ⟨declarations, statements, generated, final, hclosure, hnone, hgives, hdrained,
    fun hmode => ?_⟩
  have hkinds := scope.withHelpers_kinds 0 (by simp) hasking (scope.body_asksOnly hmode type)
  rwa [hrun] at hkinds

end Scope

/-- Generation ends for every type, with no helper waiting. The artifact is sealed: at most one
helper of a kind for a defined type, each declared once and before it is run, and no name that is
not bound. -/
theorem artifact_sealed (definitions : TypeTable) (factory : Expr) (mode : Mode) (type : Ty) :
    ∃ (block : List Stmt) (final : Registry),
      ((Scope.mk factory definitions).closure mode type).run .empty =
        (.lambdaBlock ["input"] block, final) ∧
      final.pending = [] ∧
      artifact definitions factory mode type =
        .objectOf [("type", .string mode.name), (mode.name, .lambdaBlock ["input"] block)] ∧
      Sealed definitions factory mode final.requested block := by
  obtain ⟨declarations, statements, generated, final, hclosure, hnone, hgives, hdrained, hkinds⟩ :=
    Scope.closure_run (.mk factory definitions) mode type
  refine ⟨_, final, hclosure, hnone, ?_, ?_⟩
  · rw [artifact, Scope.artifactLiteral, hclosure]
  · by_cases hmode : mode = .validate
    · subst hmode
      exact hdrained.sealed_validate hgives
    · exact hdrained.sealed_plain hmode (hkinds hmode) hgives

end TypedRoutes
