import TypedRoutes.Proofs.Generation.Conditions
import TypedRoutes.Proofs.Generation.Counter
import TypedRoutes.Proofs.Generation.Drain

/-!
# No closure shadows another

Generated closures are numbered by their nesting, and they are put around expressions that hold no
name of that number or a greater one. So no closure binds a name again that a closure around it
binds, every numbered name refers to the nearest closure of its number, and the count of closures
comes out of generation as it went in.
-/

namespace TypedRoutes

/-- The names that an expression mentions itself or, as a closure, takes. -/
def Expr.ownNames : Expr → List String
  | .identifier name => [name]
  | .arrow params _ => params
  | _ => []

/-- The expression holds no numbered name of this nesting or deeper: no part of it mentions one, and
no closure in it takes one. -/
def Expr.Fresh (depth : Nat) (expr : Expr) : Prop :=
  ∀ part closures, Enclosed part closures expr → ∀ name ∈ part.ownNames, ¬ BoundFrom depth name

theorem Expr.Fresh.identifier {depth : Nat} {name : String} (h : ¬ BoundFrom depth name) :
    (Expr.identifier name).Fresh depth := by
  intro part closures henclosed
  cases henclosed with
  | here => exact List.forall_mem_singleton.mpr h
  | inside hmem _ => cases hmem

theorem Expr.Fresh.string (depth : Nat) (value : String) : (Expr.string value).Fresh depth := by
  intro part closures henclosed
  cases henclosed with
  | here => exact List.forall_mem_nil _
  | inside hmem _ => cases hmem

/-- The closures of an expression that was generated at the given nesting around given expressions
keep their names apart. -/
structure Shielded (given : List Expr) (depth : Nat) (expr : Expr) : Prop where
  /-- A closure was given, looks at flags or at texts, or has the number of its nesting. -/
  kinds : ∀ params body closures, Enclosed (.arrow params body) closures expr →
    (∃ source ∈ given, ∃ around, around <+: closures ∧
        Enclosed (.arrow params body) around source) ∨
      params = ["flag"] ∨ params = ["str"] ∨ OfLevel binders (depth + closures.length) params
  /-- A closure binds no name of a closure around it, unless both stand so in what was given. -/
  once : ∀ params body closures, Enclosed (.arrow params body) closures expr →
    ∀ outer ∈ closures, ∀ name ∈ params, name ∈ outer →
      ∃ source ∈ given, ∃ around, around <+: closures ∧ outer ∈ around ∧
        Enclosed (.arrow params body) around source
  /-- A numbered name is bound, and the innermost closure that binds it is the nearest closure of
  its number. -/
  refers : ∀ level word closures, depth ≤ level → word ∈ binders →
    Enclosed (.identifier (bindingName level word)) closures expr →
    ∃ params, closures.find? (bindingName level word ∈ ·) = some params ∧
      closures.find? (OfLevel binders level ·) = some params

/-! ## Generated parts -/

/-- The part was put by generation where it stands: inside of closures that are numbered from
`base` on. -/
inductive Placed (base : Nat) (closures : List (List String)) : Expr → Prop where
  | name {name : String} (h : ¬ BoundFrom 0 name) : Placed base closures (.identifier name)
  | parameter {name : String} (hlayers : Layered binders base closures)
      (h : name ∈ closures.flatten) : Placed base closures (.identifier name)
  | closure {params : List String} {body : Body} (hlayers : Layered binders base closures)
      (h : OfLevel binders (base + closures.length) params) :
      Placed base closures (.arrow params body)
  | leaf {name : String} {body : Body} (hlayers : Layered binders base closures)
      (h : name ∈ ["flag", "str"]) : Placed base closures (.arrow [name] body)
  | other {part : Expr} (hname : ∀ name, part ≠ .identifier name)
      (hclosure : ∀ params body, part ≠ .arrow params body) : Placed base closures part

/-- The part stands so in a given expression that generated closures were put around, or it was put
there itself. -/
def placement (factory : Expr) (given : List Expr) (base : Nat) : Condition factory where
  holds closures part :=
    (∃ source ∈ given, ∃ around layers, closures = around ++ layers ∧
      Layered binders base layers ∧ Enclosed part around source) ∨ Placed base closures part
  plain _ _ h := .inr (.other h.name h.closure)

section

variable {factory expr source : Expr} {given : List Expr} {base depth : Nat}

theorem placement_serves : (placement factory given base).Serves base where
  name _ _ h := .inr (.name h)
  parameter _ _ hlayers h := .inr (.parameter hlayers h)
  closure _ _ _ hlayers h := .inr (.closure hlayers h)
  leaf _ _ _ hlayers h := .inr (.leaf hlayers h)

/-- A given expression fits inside of all generated closures. -/
theorem placement_fits (h : source ∈ given) : (placement factory given base).Fits base [] source :=
  fun inner hlayers _ around henclosed =>
    .inl ⟨source, h, around, inner ++ [], rfl, hlayers, henclosed⟩

theorem placement_servesCalls (h : factory ∈ given) :
    (placement factory given base).ServesCalls base where
  toServes := placement_serves
  runtime _ _ _ _ := .inr (.other nofun nofun)
  factory closures hlayers _ around henclosed :=
    .inl ⟨factory, h, around, closures, rfl, hlayers, henclosed⟩

/-- What is placed so around fresh expressions is shielded. -/
theorem shielded_of_placement (hfresh : ∀ source ∈ given, source.Fresh base)
    (h : (placement factory given base).Everywhere expr) : Shielded given base expr where
  kinds params body closures henclosed := by
    obtain ⟨source, hsource, around, layers, rfl, -, hinside⟩ | hplaced := h _ _ henclosed
    · exact .inl ⟨source, hsource, around, List.prefix_append _ _, hinside⟩
    · cases hplaced with
      | closure _ hlevel => exact .inr (.inr (.inr hlevel))
      | @leaf name _ _ hname =>
        simp only [List.mem_cons, List.not_mem_nil, or_false] at hname
        rcases hname with rfl | rfl
        · exact .inr (.inl rfl)
        · exact .inr (.inr (.inl rfl))
      | other _ hclosure => exact absurd rfl (hclosure params body)
  once params body closures henclosed outer houter name hname hbound := by
    obtain ⟨source, hsource, around, layers, rfl, hlayers, hinside⟩ | hplaced := h _ _ henclosed
    · rcases List.mem_append.mp houter with hgiven | hgenerated
      · exact ⟨source, hsource, around, List.prefix_append _ _, hgiven, hinside⟩
      · exact absurd (hlayers.boundFrom hgenerated hbound)
          (hfresh source hsource _ _ hinside name hname)
    · cases hplaced with
      | closure hlayers hlevel =>
        obtain ⟨word, hword, rfl⟩ := hlevel.2 name hname
        obtain ⟨front, back, rfl⟩ := List.append_of_mem houter
        have heq := hlayers.ofLevel.level_eq hword hbound
        rw [List.length_append, List.length_cons] at heq
        omega
      | leaf hlayers hleaf =>
        obtain rfl := List.mem_singleton.mp hname
        refine absurd (hlayers.boundFrom houter hbound) (not_boundFrom_parameter ?_)
        simp only [List.mem_cons, List.not_mem_nil, or_false] at hleaf
        rcases hleaf with rfl | rfl <;> simp [parameters]
      | other _ hclosure => exact absurd rfl (hclosure params body)
  refers level word closures hle hword henclosed := by
    have hbound : BoundFrom base (bindingName level word) := ⟨level, word, hle, hword, rfl⟩
    obtain ⟨source, hsource, around, layers, rfl, -, hinside⟩ | hplaced := h _ _ henclosed
    · exact absurd hbound (hfresh source hsource _ _ hinside _ List.mem_cons_self)
    · cases hplaced with
      | name hname => exact absurd (hbound.mono (Nat.zero_le base)) hname
      | parameter hlayers hmem => exact hlayers.find?_name hword hmem
      | other hname _ => exact absurd rfl (hname _)

end

namespace Scope

open Generate Counting

variable {scope : Scope} {depth : Nat}

/-! ## Helpers -/

/-- What holds of every closure of a helper holds of all that draining the queue generates. -/
theorem drainWithin_ensures {holds : Expr → Prop}
    (h : ∀ helper definition, Ensures holds (scope.helperClosure depth helper definition))
    (fuel : Nat) : Ensures (fun generated => ∀ entry ∈ generated, holds entry.2)
      (scope.drainWithin depth fuel) := by
  induction fuel with
  | zero => exact fun _ => List.forall_mem_nil _
  | succ fuel ih =>
    intro registry
    cases hpending : registry.pending with
    | nil =>
      rw [drainWithin_of_nil scope depth hpending]
      simp
    | cons helper rest =>
      cases hdefinition : scope.definitions.get? helper.typeName with
      | none =>
        rw [drainWithin_of_undefined scope depth hpending hdefinition]
        exact ih _
      | some definition =>
        rw [drainWithin_of_cons scope depth hpending hdefinition]
        exact List.forall_mem_cons.mpr ⟨h helper definition _, ih _⟩

/-- The body of a helper is shielded around the factory: what it takes has no number. -/
theorem helperClosure_shielded (hfactory : scope.factory.Fresh 0) (helper : Helper)
    (definition : Ty) :
    Ensures (fun closure => ∃ params body, closure = .lambda params body ∧
      Shielded [scope.factory] 0 body) (scope.helperClosure 0 helper definition) := by
  let c := placement scope.factory [scope.factory] 0
  have hc : c.Serves 0 := placement_serves
  have hcalls : c.ServesCalls 0 := placement_servesCalls List.mem_cons_self
  have hshielded {body : Expr} (h : c.Everywhere body) : Shielded [scope.factory] 0 body :=
    shielded_of_placement (List.forall_mem_singleton.mpr hfactory) h
  have hinput : c.Fits 0 [] (.identifier "input") :=
    .unnumbered hc (not_boundFrom_parameter (by simp [parameters]))
  have hpath : c.Fits 0 [] (.identifier "path") :=
    .unnumbered hc (not_boundFrom_parameter (by simp [parameters]))
  obtain ⟨kind, index, typeName⟩ := helper
  rw [helperClosure]
  cases kind with
  | check =>
    exact .bind (check_everywhere hc definition hinput) fun body hbody =>
      .pure ⟨_, body, rfl, hshielded hbody⟩
  | serialize =>
    exact .bind (serialize_everywhere hcalls definition hinput) fun body hbody =>
      .pure ⟨_, body, rfl, hshielded hbody⟩
  | validate =>
    exact .bind (validate_everywhere hc definition typeName hinput hpath) fun body hbody =>
      .pure ⟨_, body, rfl, hshielded hbody⟩

/-! ## Expressions -/

/-- Counting from the context gives what the nesting as an argument gives and leaves the counter as
it was, and the closures of the expression keep their names apart. -/
def KeepsApart (given : List Expr) (context : Context) (counting : Counting Expr)
    (step : Nat → Generate Expr) : Prop :=
  ∃ expr registry, (step context.depth).run context.registry = (expr, registry) ∧
    counting.run context = (expr, ⟨registry, context.depth⟩) ∧
    Shielded given context.depth expr

theorem keepsApart (factory : Expr) {given : List Expr} {context : Context}
    {counting : Counting Expr} {step : Nat → Generate Expr}
    (hfresh : ∀ source ∈ given, source.Fresh context.depth) (heq : counting = counted step)
    (h : Ensures (placement factory given context.depth).Everywhere (step context.depth)) :
    KeepsApart given context counting step := by
  subst heq
  exact ⟨_, _, rfl, run_counted step context,
    shielded_of_placement hfresh (h context.registry)⟩

/-- What is generated for a type, from a context and around expressions that are fresh there:
checks, serializers and validators keep their closures apart, and so do the helpers that are drained
where no closure is open. -/
structure ClosuresApart (scope : Scope) (type : Ty) (context : Context) (input path : Expr)
    (expected : String) : Prop where
  check : KeepsApart [input] context (scope.checkCounting type input)
    fun depth => scope.check type depth input
  serialize : KeepsApart [scope.factory, input] context (scope.serializeCounting type input)
    fun depth => scope.serialize type depth input
  validate : KeepsApart [input, path] context (scope.validateCounting type input path expected)
    fun depth => scope.validate type depth input path expected
  helpers : context.depth = 0 → ∀ fuel, ∃ generated registry,
    (scope.drainWithin 0 fuel).run context.registry = (generated, registry) ∧
    (scope.drainCounting fuel).run context = (generated, ⟨registry, 0⟩) ∧
    ∀ entry ∈ generated, ∃ params body, entry.2 = .lambda params body ∧
      Shielded [scope.factory] 0 body

/-- Inner closures never shadow outer ones. -/
theorem closures_apart (scope : Scope) (type : Ty) (context : Context) {input path : Expr}
    (expected : String) (hfactory : scope.factory.Fresh context.depth)
    (hinput : input.Fresh context.depth) (hpath : path.Fresh context.depth) :
    scope.ClosuresApart type context input path expected where
  check := keepsApart scope.factory (List.forall_mem_singleton.mpr hinput)
    (scope.checkCounting_eq type input)
    (check_everywhere placement_serves type (placement_fits List.mem_cons_self))
  serialize := keepsApart scope.factory
    (List.forall_mem_cons.mpr ⟨hfactory, List.forall_mem_singleton.mpr hinput⟩)
    (scope.serializeCounting_eq type input)
    (serialize_everywhere (placement_servesCalls List.mem_cons_self) type
      (placement_fits (by simp)))
  validate := keepsApart scope.factory
    (List.forall_mem_cons.mpr ⟨hinput, List.forall_mem_singleton.mpr hpath⟩)
    (scope.validateCounting_eq type input path expected)
    (validate_everywhere placement_serves type expected (placement_fits List.mem_cons_self)
      (placement_fits (by simp)))
  helpers hdepth fuel := by
    obtain ⟨registry, depth⟩ := context
    subst hdepth
    rw [drainCounting_eq]
    exact ⟨_, _, rfl, run_counted _ _,
      drainWithin_ensures (helperClosure_shielded hfactory) fuel registry⟩

/-- A grid: under each of its keys there is a row of grids. -/
def gridDefinition : Ty :=
  (TyKind.record (TyKind.array (TyKind.reference "Grid").type).type).type

/-- What is generated for grids under `TypedRoute`. -/
def gridScope : Scope where
  factory := .identifier "TypedRoute"
  definitions := KeyMap.empty.insert "Grid" gridDefinition
  written? := Ty.written?

/-- The validator of grids was asked for, and no closure is open. -/
def gridContext : Context := ⟨(Registry.empty.request .validate "Grid").2, 0⟩

theorem closures_apart_grid :
    gridScope.factory.Fresh gridContext.depth ∧
    (Expr.identifier "input").Fresh gridContext.depth ∧
    (Expr.string "$input").Fresh gridContext.depth ∧
    gridScope.ClosuresApart gridDefinition gridContext (.identifier "input") (.string "$input")
      "Grid" := by
  have hfactory : gridScope.factory.Fresh gridContext.depth := by
    have hhead : "TypedRoute".toList.head? = some 'T' := rfl
    exact .identifier (not_boundFrom_of_head hhead (by decide))
  have hinput : (Expr.identifier "input").Fresh gridContext.depth :=
    .identifier (not_boundFrom_parameter (by simp [parameters]))
  have hpath : (Expr.string "$input").Fresh gridContext.depth := .string _ _
  exact ⟨hfactory, hinput, hpath,
    closures_apart gridScope gridDefinition gridContext "Grid" hfactory hinput hpath⟩

end Scope

end TypedRoutes
