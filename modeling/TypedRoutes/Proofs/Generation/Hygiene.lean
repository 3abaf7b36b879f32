import TypedRoutes.Proofs.Generation.Closed
import TypedRoutes.Proofs.Generation.Conditions
import TypedRoutes.Proofs.Route.Idempotence

/-!
# Hygiene

The factory of an artifact is the callee of its decorator, put in wherever generated code calls one
of its functions. Serializers do so under closures over the items of arrays and the keys of records,
inside of a closure that takes the value and declares the helpers. A factory that mentions none of
the names bound there means the same as in the decorator; one that does is taken for what the
artifact binds.
-/

namespace TypedRoutes

open Generate Condition

/-- Around every call of the factory only reserved names are bound. -/
abbrev CallsUnder (factory : Expr) (reserved : String → Prop) : Expr → Prop :=
  Around factory fun names => ∀ name ∈ names, reserved name

/-! ## Generated expressions -/

/-- The name of a closure parameter under which serializers call the factory. -/
inductive ItemName : String → Prop where
  | elem (depth : Nat) : ItemName (bindingName depth "elem")
  | key (depth : Nat) : ItemName (bindingName depth "key")

theorem Layered.itemName {base : Nat} {closures : List (List String)}
    (h : Layered Condition.itemBinders base closures) :
    ∀ name ∈ closures.flatten, ItemName name := by
  induction closures with
  | nil => exact List.forall_mem_nil _
  | cons params outer ih =>
    rw [List.flatten_cons, List.forall_mem_append]
    refine ⟨fun name hname => ?_, ih h.2⟩
    obtain ⟨word, hword, rfl⟩ := h.1.2 name hname
    simp only [Condition.itemBinders, List.mem_cons, List.not_mem_nil, or_false] at hword
    rcases hword with rfl | rfl
    · exact .elem _
    · exact .key _

namespace Condition

variable {factory body : Expr} {allowed : List String → Prop} {reserved : String → Prop}
  {base : Nat} {outer : List (List String)}

/-- What builds no call of the factory serves whatever is asked around the calls. -/
theorem calls_serves : (calls factory allowed).Serves base where
  name _ _ _ := calls_identifier _
  parameter _ _ _ _ := calls_identifier _
  closure _ _ _ _ _ := calls_closure _ _
  leaf _ _ _ _ _ := calls_closure _ _

theorem calls_fits (name : String) : (calls factory allowed).Fits base outer (.identifier name) :=
  fun _ _ => .identifier (calls_identifier name)

/-- Around every call of the factory only reserved names are bound. -/
abbrev reserving (factory : Expr) (reserved : String → Prop) : Condition factory :=
  calls factory fun names => ∀ name ∈ names, reserved name

theorem reserving_servesCalls (h : ∀ name, ItemName name → reserved name) :
    (reserving factory reserved).ServesCalls base where
  toServes := calls_serves
  runtime _ _ _ hlayers _ name hname := h name (hlayers.itemName name hname)
  factory _ _ _ _ henclosed hcall := (silent_factory factory _ _ hcall henclosed.occurs).elim

/-- What stands under reserved names may be put under more of them. -/
theorem Everywhere.reserving_under (h : (reserving factory reserved).Everywhere body)
    {params : List String} (hparams : ∀ name ∈ params, reserved name) :
    ((reserving factory reserved).under [params]).Everywhere body := by
  intro part closures henclosed hcall
  rw [List.flatten_append, List.forall_mem_append]
  exact ⟨h part closures henclosed hcall, by simpa using hparams⟩

/-- A call of the factory binds nothing. -/
theorem Everywhere.reserving_runtime {key : String} {arguments : List Expr}
    (h : ∀ argument ∈ arguments, (reserving factory reserved).Everywhere argument) :
    (reserving factory reserved).Everywhere (.invoke (.property factory key) arguments) :=
  .runtime (fun _ => List.forall_mem_nil _) (around_iff.mp (silent_factory factory)).of_silent h

end Condition

/-! ## Blocks -/

/-- Around every call of the factory in the statement only reserved names are bound. -/
def Stmt.CallsUnder (factory : Expr) (reserved : String → Prop) (stmt : Stmt) : Prop :=
  ∀ scope ∈ stmt.scopes,
    (∀ name ∈ scope.1, reserved name) ∧ TypedRoutes.CallsUnder factory reserved scope.2

section

variable {factory value condition : Expr} {reserved : String → Prop} {statements : List Stmt}

theorem Stmt.CallsUnder.single {stmt : Stmt} (hstmt : stmt.scopes = [([], value)])
    (h : (reserving factory reserved).Everywhere value) : stmt.CallsUnder factory reserved := by
  rw [Stmt.CallsUnder, hstmt]
  exact List.forall_mem_singleton.mpr ⟨List.forall_mem_nil _, around_iff.mpr h⟩

/-- A branch that throws or goes on. -/
theorem Stmt.CallsUnder.branch (h : (reserving factory reserved).Everywhere condition)
    (hv : (reserving factory reserved).Everywhere value) :
    (Stmt.branch condition [.throws value] []).CallsUnder factory reserved := by
  have hscopes : (Stmt.branch condition [.throws value] []).scopes =
      [([], condition), ([], value)] := rfl
  rw [Stmt.CallsUnder, hscopes]
  exact List.forall_mem_cons.mpr ⟨⟨List.forall_mem_nil _, around_iff.mpr h⟩,
    List.forall_mem_singleton.mpr ⟨List.forall_mem_nil _, around_iff.mpr hv⟩⟩

/-- A closure takes and declares reserved names around what its statements call. -/
theorem Condition.Everywhere.reserving_lambdaBlock {params : List String}
    (hnames : ∀ name ∈ declaredNames statements ++ params, reserved name)
    (h : ∀ stmt ∈ statements, stmt.CallsUnder factory reserved) :
    (reserving factory reserved).Everywhere (.lambdaBlock params statements) := by
  refine .lambdaBlock (calls_closure _ _) fun stmt hstmt scope hscope => ?_
  obtain ⟨hbound, hpart⟩ := h stmt hstmt scope hscope
  exact (around_iff.mp hpart).reserving_under (List.forall_mem_append.mpr ⟨hbound, hnames⟩)

end

/-! ## Artifacts -/

/-- The names that are bound around calls of the factory in an artifact for the mode: what its
closure takes and declares, and how serializers call items and keys. -/
inductive Reserved (mode : Mode) : String → Prop where
  | input : Reserved mode "input"
  | item {name : String} (h : ItemName name) : Reserved mode name
  | helper (kind : HelperKind) (index : Nat) (h : kind = .validate → mode = .validate) :
      Reserved mode (kind.helperName index)
  | report {name : String} (hmode : mode = .validate)
      (h : name ∈ ["errors", Scope.reporter, "success"]) : Reserved mode name

namespace Scope

variable {scope : Scope} {final : Registry} {mode : Mode}

theorem helperClosure_reserving {helper : Helper} {definition : Ty} {closure : Expr}
    (hgives : Gives final (scope.helperClosure 0 helper definition) closure) :
    (reserving scope.factory (Reserved mode)).Everywhere closure := by
  obtain ⟨kind, index, typeName⟩ := helper
  rw [helperClosure] at hgives
  cases kind with
  | check =>
    obtain ⟨body, hbody, rfl⟩ := hgives.of_map
    have hsilent : (silence scope.factory).Everywhere body :=
      (check_everywhere calls_serves definition (calls_fits _)).of_gives hbody
    exact .lambda (calls_closure _ _) hsilent.under_of_silent
  | serialize =>
    obtain ⟨body, hbody, rfl⟩ := hgives.of_map
    have hserial : (reserving scope.factory (Reserved mode)).Everywhere body :=
      (serialize_everywhere (reserving_servesCalls fun _ => .item) definition
        (calls_fits _)).of_gives hbody
    exact .lambda (calls_closure _ _)
      (hserial.reserving_under (List.forall_mem_singleton.mpr .input))
  | validate =>
    obtain ⟨body, hbody, rfl⟩ := hgives.of_map
    have hsilent : (silence scope.factory).Everywhere body :=
      (validate_everywhere calls_serves definition typeName (calls_fits _)
        (calls_fits _)).of_gives hbody
    exact .lambda (calls_closure _ _) hsilent.under_of_silent

theorem reportDeclarations_callsUnder {reserved : String → Prop} :
    ∀ stmt ∈ reportDeclarations, stmt.CallsUnder scope.factory reserved := by
  have hpush : (silence scope.factory).Everywhere
      (.invoke (.property (.identifier "errors") "push") [.objectOf [("path", .identifier "path"),
        ("expected", .identifier "expected"), ("value", .identifier "value")]]) := by
    refine .method (.identifier (calls_identifier _)) (by decide)
      (List.forall_mem_singleton.mpr (.objectOf ?_))
    simp only [List.forall_mem_cons]
    exact ⟨.identifier (calls_identifier _), .identifier (calls_identifier _),
      .identifier (calls_identifier _), by simp⟩
  refine List.forall_mem_cons.mpr ⟨.single rfl (.array (by simp)),
    List.forall_mem_singleton.mpr (.single rfl (.lambdaBlock (calls_closure _ _) ?_))⟩
  intro stmt hstmt scope hscope
  simp only [List.mem_cons, List.not_mem_nil, or_false] at hstmt
  rcases hstmt with rfl | rfl
  · obtain rfl := List.mem_singleton.mp hscope
    exact hpush.under_of_silent
  · obtain rfl := List.mem_singleton.mp hscope
    exact .boolean false

theorem guardError_reserving (type : Ty) {reserved : String → Prop} :
    (reserving scope.factory reserved).Everywhere (scope.guardError type) := by
  refine .reserving_runtime (List.forall_mem_singleton.mpr (.objectOf ?_))
  exact List.forall_mem_cons.mpr ⟨.string _,
    List.forall_mem_singleton.mpr (.identifier (calls_identifier _))⟩

/-- What the body of a closure declares is reserved, and so is all that is bound around its calls of
the factory. -/
theorem body_callsUnder {type : Ty} {declarations statements : List Stmt}
    (hgives : Gives final (scope.body mode type) (declarations, statements)) :
    (∀ name ∈ declaredNames (declarations ++ statements), Reserved mode name) ∧
      ∀ stmt ∈ declarations ++ statements, stmt.CallsUnder scope.factory (Reserved mode) := by
  have hcheck {condition : Expr} (hcondition : Gives final (scope.check type 0 input) condition) :
      (reserving scope.factory (Reserved mode)).Everywhere condition :=
    (check_everywhere calls_serves type (calls_fits _)).of_gives hcondition
  have hserialize {text : Expr} (htext : Gives final (scope.serialize type 0 input) text) :
      (reserving scope.factory (Reserved mode)).Everywhere text :=
    (serialize_everywhere (reserving_servesCalls fun _ => .item) type (calls_fits _)).of_gives htext
  cases mode with
  | stringify =>
    obtain ⟨text, htext, rfl, rfl⟩ := gives_stringify hgives
    exact ⟨by simp [declaredNames, Stmt.declared?],
      List.forall_mem_singleton.mpr (.single rfl (hserialize htext))⟩
  | is =>
    obtain ⟨condition, text, hcondition, htext, rfl, rfl⟩ := gives_is hgives
    refine ⟨by simp [declaredNames, Stmt.declared?],
      List.forall_mem_singleton.mpr (.single rfl ?_)⟩
    split
    · exact hserialize htext
    · exact .conditional (hcheck hcondition) (hserialize htext) .null
  | assert =>
    obtain ⟨condition, text, hcondition, htext, rfl, rfl⟩ := gives_assert hgives
    have hreturn : (Stmt.returns text).CallsUnder scope.factory (Reserved .assert) :=
      .single rfl (hserialize htext)
    split
    · exact ⟨by simp [declaredNames, Stmt.declared?], List.forall_mem_singleton.mpr hreturn⟩
    · exact ⟨by simp [declaredNames, Stmt.declared?], List.forall_mem_cons.mpr
        ⟨.branch (.unary _ (hcheck hcondition)) (guardError_reserving type),
          List.forall_mem_singleton.mpr hreturn⟩⟩
  | validate =>
    obtain ⟨success, text, hsuccess, htext, rfl, rfl⟩ := gives_validate hgives
    have hsuccess : (reserving scope.factory (Reserved .validate)).Everywhere success :=
      (validate_everywhere calls_serves type _ (calls_fits _)
        (fun _ _ => .string _)).of_gives hsuccess
    have hresult : (reserving scope.factory (Reserved .validate)).Everywhere
        (reportResult text) := by
      refine .objectOf ?_
      simp only [List.forall_mem_cons]
      exact ⟨.identifier (calls_identifier _),
        .conditional (.identifier (calls_identifier _)) (hserialize htext) .null,
        .identifier (calls_identifier _), by simp⟩
    refine ⟨fun name hname => .report rfl hname, List.forall_mem_append.mpr
      ⟨reportDeclarations_callsUnder, List.forall_mem_cons.mpr ⟨.single rfl hsuccess,
        List.forall_mem_singleton.mpr (.single rfl hresult)⟩⟩⟩

end Scope

/-- Around every call of the factory in an artifact only reserved names are bound. -/
theorem artifact_callsUnder (definitions : TypeTable) (factory : Expr) (mode : Mode) (type : Ty) :
    CallsUnder factory (Reserved mode) (artifact definitions factory mode type) := by
  obtain ⟨declarations, statements, generated, final, hclosure, -, hgives, hdrained, hkinds⟩ :=
    Scope.closure_run (.mk factory definitions) mode type
  obtain ⟨hnames, hbody⟩ := Scope.body_callsUnder hgives
  rw [declaredNames_append, List.forall_mem_append] at hnames
  rw [List.forall_mem_append] at hbody
  have hdeclared : ∀ name ∈ declaredNames (Scope.helperStatements generated),
      Reserved mode name := by
    intro name hname
    obtain ⟨helper, hhelper, rfl⟩ := hdrained.mem_declaredNames.mp hname
    refine .helper _ _ fun hvalidate => ?_
    by_contra hmode
    exact hkinds hmode helper hhelper hvalidate
  have hhelpers : ∀ stmt ∈ Scope.helperStatements generated,
      stmt.CallsUnder factory (Reserved mode) := by
    intro stmt hstmt
    obtain ⟨entry, hentry, rfl⟩ := Scope.mem_helperStatements.mp hstmt
    obtain ⟨definition, -, hgives⟩ := hdrained.gives entry hentry
    exact .single rfl (Scope.helperClosure_reserving hgives)
  rw [artifact, Scope.artifactLiteral, hclosure]
  refine around_iff.mpr (.objectOf (List.forall_mem_cons.mpr ⟨.string _,
    List.forall_mem_singleton.mpr (.reserving_lambdaBlock ?_ ?_)⟩))
  · rw [declaredNames_append, declaredNames_append]
    simp only [List.forall_mem_append, List.forall_mem_singleton]
    exact ⟨⟨⟨hnames.1, hdeclared⟩, hnames.2⟩, .input⟩
  · simp only [List.forall_mem_append]
    exact ⟨⟨hbody.1, hhelpers⟩, hbody.2⟩

/-- A factory that has no reserved name free is not captured: around every call of it in an artifact
none of its free names is bound, so that each is free in the artifact as well. -/
theorem factory_not_captured {definitions : TypeTable} {factory : Expr} {mode : Mode} {type : Ty}
    (hfactory : ∀ name, Free name factory → ¬ Reserved mode name) {call : Expr}
    {names : List String} (hcall : RuntimeCall factory call)
    (hoccurs : Occurs call names (artifact definitions factory mode type)) :
    ∀ name, Free name factory →
      name ∉ names ∧ Free name (artifact definitions factory mode type) := by
  intro name hfree
  have hbound : name ∉ names := fun hmem =>
    hfactory name hfree (artifact_callsUnder definitions factory mode type call names hcall hoccurs
      name hmem)
  obtain ⟨key, -, arguments, rfl⟩ := hcall
  have hinside : Occurs factory ([] ++ [] ++ []) (.invoke (.property factory key) arguments) :=
    .inside List.mem_cons_self (.inside List.mem_cons_self .here)
  exact ⟨hbound, (hfree.of_occurs hinside List.not_mem_nil).of_occurs hoccurs hbound⟩

theorem ItemName.toLocal {name : String} (h : ItemName name) : Local name := by
  cases h with
  | elem depth => exact .inr ⟨depth, "elem", Nat.zero_le _, by simp [binders], rfl⟩
  | key depth => exact .inr ⟨depth, "key", Nat.zero_le _, by simp [binders], rfl⟩

/-- No reserved name starts with a capital, as the names of factories do. -/
theorem not_reserved_of_isUpper {name : String} {letter : Char} {mode : Mode}
    (hhead : name.toList.head? = some letter) (hupper : letter.isUpper = true) :
    ¬ Reserved mode name := by
  intro h
  have hlower : letter ∈ ['$', 'i', 'p', 'f', 's', 'e', 'k', 'v'] := by
    cases h with
    | input =>
      have hlocal : Local "input" := .inl (by simp [parameters])
      exact List.mem_cons_of_mem _ (hlocal.head_mem letter hhead)
    | item h => exact List.mem_cons_of_mem _ (h.toLocal.head_mem letter hhead)
    | helper kind index _ =>
      rw [kind.head?_helperName] at hhead
      simp [← Option.some.inj hhead]
    | report _ h =>
      simp only [List.mem_cons, List.not_mem_nil, or_false] at h
      rcases h with rfl | rfl | rfl
      · have hletter : 'e' = letter := Option.some.inj hhead
        simp [← hletter]
      · have hletter : '$' = letter := Option.some.inj hhead
        simp [← hletter]
      · have hletter : 's' = letter := Option.some.inj hhead
        simp [← hletter]
  simp only [List.mem_cons, List.not_mem_nil, or_false] at hlower
  rcases hlower with rfl | rfl | rfl | rfl | rfl | rfl | rfl | rfl <;> exact absurd hupper
    (by decide)

/-- The value that is serialized is never free in an artifact. -/
theorem not_free_input_artifact (definitions : TypeTable) (factory : Expr) (mode : Mode)
    (type : Ty) : ¬ Free "input" (artifact definitions factory mode type) := by
  obtain ⟨block, final, -, -, hartifact, -⟩ := artifact_sealed definitions factory mode type
  rw [hartifact]
  rintro ⟨names, hoccurs, hname⟩
  cases hoccurs with
  | inside hmem hpart =>
    simp only [Expr.objectOf, Expr.scopes, Entry.value, List.map_cons, List.map_nil, List.mem_cons,
      List.not_mem_nil, or_false] at hmem
    rcases hmem with heq | heq
    · obtain ⟨rfl, rfl⟩ := Prod.mk.inj heq
      cases hpart with
      | inside hmem _ => cases hmem
    · obtain ⟨rfl, rfl⟩ := Prod.mk.inj heq
      cases hpart with
      | inside hmem _ =>
        obtain ⟨inner, -, heq⟩ := List.mem_map.mp hmem
        obtain ⟨rfl, -⟩ := Prod.mk.inj heq
        simp at hname

/-- The artifact for a text calls the factory under the value that is serialized. -/
theorem occurs_textArtifact (factory : Expr) :
    Occurs (.invoke (.property factory "string") [.identifier "input"]) ["input"]
      (artifact .empty factory .stringify TyKind.string.type) := by
  set call : Expr := .invoke (.property factory "string") [.identifier "input"]
  have hartifact : artifact .empty factory .stringify TyKind.string.type =
      .objectOf [("type", .string "stringify"), ("stringify", .lambdaBlock ["input"]
        (Scope.helperStatements [] ++ [.returns call]))] := rfl
  have hclosure : Occurs call ([] ++ ["input"]) (.lambdaBlock ["input"] [.returns call]) :=
    .inside List.mem_cons_self .here
  have hobject : Occurs call (([] ++ ["input"]) ++ []) (.objectOf [("type", .string "stringify"),
      ("stringify", .lambdaBlock ["input"] [.returns call])]) :=
    .inside (List.mem_cons_of_mem _ List.mem_cons_self) hclosure
  rw [hartifact, Scope.helperStatements, List.mergeSort_nil]
  exact hobject

/-- The factory `TypedRoute.Get`. -/
def getFactory : Expr := .property (.identifier "TypedRoute") "Get"

theorem factory_not_captured_getFactory :
    (∀ name, Free name getFactory → ¬ Reserved .stringify name) ∧
      Occurs (.invoke (.property getFactory "string") [.identifier "input"]) ["input"]
        (artifact .empty getFactory .stringify TyKind.string.type) ∧
      Free "TypedRoute" getFactory ∧ "TypedRoute" ∉ ["input"] ∧
      Free "TypedRoute" (artifact .empty getFactory .stringify TyKind.string.type) := by
  have hfactory (name : String) (hfree : Free name getFactory) : ¬ Reserved .stringify name := by
    rw [getFactory, free_property_iff, free_identifier_iff] at hfree
    subst hfree
    have hhead : "TypedRoute".toList.head? = some 'T' := rfl
    exact not_reserved_of_isUpper hhead rfl
  have hfree : Free "TypedRoute" getFactory := by
    rw [getFactory, free_property_iff, free_identifier_iff]
  have hoccurs := occurs_textArtifact getFactory
  exact ⟨hfactory, hoccurs, hfree,
    factory_not_captured hfactory ⟨"string", by decide, _, rfl⟩ hoccurs "TypedRoute" hfree⟩

/-- A snapshot in which `input` is what routes are decorated with. -/
def inputSnapshot : Snapshot where
  symbols := KeyMap.empty.insert "input"
    (some ⟨"node_modules/@nestia/core/lib/decorators/TypedRoute.d.ts", "Get"⟩)

/-- The project that serializes without a check. -/
def inputProject : Project :=
  inputSnapshot.project (.ofRoot "/" "/app") .stringify

/-- The decorator `@input.Get()`. -/
def inputDecorator : Decorator :=
  ⟨.call (.property (.identifier "input") "Get") [] [] ⟨0, 0⟩⟩

theorem inspect_inputDecorator : inputProject.inspect TyKind.string.type inputDecorator =
    .eligible ⟨.property (.identifier "input") "Get", [], [], ⟨0, 0⟩⟩ (.keyword "string") := by
  let call : CallParts := ⟨.property (.identifier "input") "Get", [], [], ⟨0, 0⟩⟩
  have hallowed : inputProject.allowList.contains
      "node_modules/@nestia/core/lib/decorators/TypedRoute.d.ts" = true := by decide +kernel
  have hsignature : inputProject.resolver.signature? call =
      some ⟨some ⟨"node_modules/@nestia/core/lib/decorators/TypedRoute.d.ts", "Get"⟩⟩ := rfl
  have hsite : inputProject.siteProblem? call = none := by
    rw [Project.siteProblem?, hsignature]
    exact if_pos hallowed
  have hcall : inputDecorator.call? = some call := rfl
  simp only [Project.inspect, hcall, hsite]
  rfl

/-- The decorator is eligible, and its factory is captured: what the artifact calls is a property of
the value that is serialized. -/
theorem factory_captured_input :
    ∃ call written, inputProject.inspect TyKind.string.type inputDecorator =
        .eligible call written ∧
      RuntimeCall call.callee (.invoke (.property call.callee "string") [.identifier "input"]) ∧
      Occurs (.invoke (.property call.callee "string") [.identifier "input"]) ["input"]
        (inputProject.artifact call.callee TyKind.string.type) ∧
      Free "input" call.callee ∧
      ¬ Free "input" (inputProject.artifact call.callee TyKind.string.type) := by
  refine ⟨_, _, inspect_inputDecorator, ⟨"string", by decide, _, rfl⟩, occurs_textArtifact _, ?_,
    not_free_input_artifact _ _ _ _⟩
  rw [free_property_iff, free_identifier_iff]

end TypedRoutes
