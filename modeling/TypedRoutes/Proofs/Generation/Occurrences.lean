import TypedRoutes.Proofs.Generation.Scoping

/-!
# Occurrences

Where a part stands in an expression, and which names closures bind around it there. A name is free
when it stands somewhere without being bound around. A part that is put into an expression keeps its
free names if none of them is bound around the place.

What calls functions of the factory is of interest where names are bound around the calls.
-/

namespace TypedRoutes

/-- Parts with names that are bound around all of them. -/
def withNames (names : List String) (scopes : List (List String × Expr)) :
    List (List String × Expr) :=
  scopes.map fun scope => (scope.1 ++ names, scope.2)

mutual

/-- The expressions that a statement is made of, each with the names that blocks inside of the
statement declare around it. -/
def Stmt.scopes : Stmt → List (List String × Expr)
  | .const _ value => [([], value)]
  | .branch condition consequent alternative =>
    ([], condition) :: (withNames (declaredNames consequent) (Stmt.scopesOf consequent) ++
      withNames (declaredNames alternative) (Stmt.scopesOf alternative))
  | .returns value => [([], value)]
  | .throws value => [([], value)]
  | .expression value => [([], value)]

/-- The expressions that statements are made of, with the names around them. -/
def Stmt.scopesOf : List Stmt → List (List String × Expr)
  | [] => []
  | stmt :: rest => stmt.scopes ++ Stmt.scopesOf rest

end

/-- The expressions that an expression is put together from, each with the names that are bound for
it: the parameters of a closure, and what its block declares. -/
@[simp]
def Expr.scopes : Expr → List (List String × Expr)
  | .property target _ => [([], target)]
  | .element target index => [([], target), ([], index)]
  | .call callee _ arguments _ => ([], callee) :: arguments.map fun argument => ([], argument)
  | .object entries => entries.map fun entry => ([], entry.value)
  | .array elements => elements.map fun element => ([], element)
  | .arrow params (.concise value) => [(params, value)]
  | .arrow params (.block statements) =>
    withNames (declaredNames statements ++ params) (Stmt.scopesOf statements)
  | .unary _ operand => [([], operand)]
  | .binary _ left right => [([], left), ([], right)]
  | .conditional condition whenTrue whenFalse =>
    [([], condition), ([], whenTrue), ([], whenFalse)]
  | _ => []

/-- The part stands in the expression at a place around which the names are bound, the innermost
first. -/
inductive Occurs (part : Expr) : List String → Expr → Prop where
  | here : Occurs part [] part
  | inside {expr inner : Expr} {bound names : List String} (h : (bound, inner) ∈ expr.scopes)
      (hpart : Occurs part names inner) : Occurs part (names ++ bound) expr

/-- The name stands in the expression at a place around which it is not bound. -/
def Free (name : String) (expr : Expr) : Prop :=
  ∃ names, Occurs (.identifier name) names expr ∧ name ∉ names

variable {part middle expr : Expr} {names outer : List String} {name : String}

/-- What occurs in a part of an expression occurs in the expression, below the binders of both. -/
theorem Occurs.trans (h : Occurs part names middle) (hmiddle : Occurs middle outer expr) :
    Occurs part (names ++ outer) expr := by
  induction hmiddle with
  | here => simpa using h
  | inside hmem _ ih =>
    rw [← List.append_assoc]
    exact .inside hmem ih

/-- What is free in a part is free in the whole unless it is bound around the part. -/
theorem Free.of_occurs (h : Free name part) (hpart : Occurs part names expr)
    (hname : name ∉ names) : Free name expr := by
  obtain ⟨inner, hoccurs, hinner⟩ := h
  refine ⟨inner ++ names, hoccurs.trans hpart, fun hmem => ?_⟩
  exact (List.mem_append.mp hmem).elim hinner hname

/-- The only free name of an identifier is its own. -/
theorem free_identifier_iff {other : String} : Free name (.identifier other) ↔ name = other := by
  constructor
  · rintro ⟨names, hoccurs, -⟩
    cases hoccurs with
    | here => rfl
    | inside hmem _ => cases hmem
  · rintro rfl
    exact ⟨[], .here, List.not_mem_nil⟩

/-- What is free in a property access is free in its target. -/
theorem free_property_iff {target : Expr} {key : String} :
    Free name (.property target key) ↔ Free name target := by
  constructor
  · rintro ⟨names, hoccurs, hname⟩
    cases hoccurs with
    | inside hmem hpart =>
      obtain ⟨rfl, rfl⟩ := Prod.mk.inj (List.mem_singleton.mp hmem)
      exact ⟨_, hpart, by simpa using hname⟩
  · intro h
    exact h.of_occurs (.inside List.mem_cons_self .here) (by simp)

theorem Stmt.mem_scopesOf {statements : List Stmt} {scope : List String × Expr} :
    scope ∈ Stmt.scopesOf statements ↔ ∃ stmt ∈ statements, scope ∈ stmt.scopes := by
  induction statements with
  | nil => simp [Stmt.scopesOf]
  | cons stmt rest ih => simp [Stmt.scopesOf, ih]

/-! ## No expression contains itself -/

mutual

theorem Stmt.sizeOf_lt_of_mem_scopes {stmt : Stmt} {scope : List String × Expr}
    (h : scope ∈ stmt.scopes) : sizeOf scope.2 < sizeOf stmt := by
  cases stmt with
  | branch condition consequent alternative =>
    rw [Stmt.scopes] at h
    simp only [Stmt.branch.sizeOf_spec]
    rcases List.mem_cons.mp h with rfl | h
    · simp only
      omega
    · rcases List.mem_append.mp h with h | h
      · obtain ⟨inner, hinner, rfl⟩ := List.mem_map.mp h
        have := Stmt.sizeOf_lt_of_mem_scopesOf hinner
        simp only
        omega
      · obtain ⟨inner, hinner, rfl⟩ := List.mem_map.mp h
        have := Stmt.sizeOf_lt_of_mem_scopesOf hinner
        simp only
        omega
  | _ =>
    rw [Stmt.scopes] at h
    obtain rfl := List.mem_singleton.mp h
    simp only [Stmt.const.sizeOf_spec, Stmt.returns.sizeOf_spec, Stmt.throws.sizeOf_spec,
      Stmt.expression.sizeOf_spec]
    omega

theorem Stmt.sizeOf_lt_of_mem_scopesOf {statements : List Stmt} {scope : List String × Expr}
    (h : scope ∈ Stmt.scopesOf statements) : sizeOf scope.2 < sizeOf statements := by
  cases statements with
  | nil => cases h
  | cons stmt rest =>
    rw [Stmt.scopesOf] at h
    simp only [List.cons.sizeOf_spec]
    rcases List.mem_append.mp h with h | h
    · have := Stmt.sizeOf_lt_of_mem_scopes h
      omega
    · have := Stmt.sizeOf_lt_of_mem_scopesOf h
      omega

end

theorem Expr.sizeOf_lt_of_mem_scopes {scope : List String × Expr} (h : scope ∈ expr.scopes) :
    sizeOf scope.2 < sizeOf expr := by
  cases expr with
  | arrow params body =>
    cases body with
    | concise value =>
      obtain rfl := List.mem_singleton.mp h
      simp only [Expr.arrow.sizeOf_spec, Body.concise.sizeOf_spec]
      omega
    | block statements =>
      obtain ⟨inner, hinner, rfl⟩ := List.mem_map.mp h
      have hlt := Stmt.sizeOf_lt_of_mem_scopesOf hinner
      simp only [Expr.arrow.sizeOf_spec, Body.block.sizeOf_spec]
      omega
  | call callee typeArguments arguments span =>
    simp only [Expr.call.sizeOf_spec]
    rcases List.mem_cons.mp h with rfl | h
    · simp only
      omega
    · obtain ⟨argument, hargument, rfl⟩ := List.mem_map.mp h
      have hlt := List.sizeOf_lt_of_mem hargument
      simp only
      omega
  | object entries =>
    obtain ⟨⟨key, value⟩, hentry, rfl⟩ := List.mem_map.mp h
    have hlt := List.sizeOf_lt_of_mem hentry
    simp only [Entry.mk.sizeOf_spec] at hlt
    simp only [Expr.object.sizeOf_spec, Entry.value]
    omega
  | array elements =>
    obtain ⟨element, helement, rfl⟩ := List.mem_map.mp h
    have hlt := List.sizeOf_lt_of_mem helement
    simp only [Expr.array.sizeOf_spec]
    omega
  | identifier | string | number | boolean | null => cases h
  | _ =>
    simp only [scopes, List.mem_cons, List.not_mem_nil, or_false] at h
    simp only [Expr.property.sizeOf_spec, Expr.element.sizeOf_spec, Expr.unary.sizeOf_spec,
      Expr.binary.sizeOf_spec, Expr.conditional.sizeOf_spec]
    rcases h with rfl | rfl | rfl <;> simp only <;> omega

/-- What occurs in an expression is not larger than it. -/
theorem Occurs.sizeOf_le (h : Occurs part names expr) : sizeOf part ≤ sizeOf expr := by
  induction h with
  | here => exact Nat.le_refl _
  | inside hmem _ ih => exact Nat.le_trans ih (Nat.le_of_lt (Expr.sizeOf_lt_of_mem_scopes hmem))

/-! ## Calls of the factory -/

/-- The functions of the factory that generated code calls. -/
def runtimeNames : List String := ["string", "number", "guard", "throws"]

/-- The expression calls a function of the factory. -/
def RuntimeCall (factory call : Expr) : Prop :=
  ∃ key ∈ runtimeNames, ∃ arguments, call = .invoke (.property factory key) arguments

/-- Around every call of the factory in the expression, the names are as allowed. -/
def Around (factory : Expr) (allowed : List String → Prop) (expr : Expr) : Prop :=
  ∀ call names, RuntimeCall factory call → Occurs call names expr → allowed names

/-- The expression does not call the factory. -/
abbrev Silent (factory : Expr) : Expr → Prop := Around factory fun _ => False

/-- The factory is smaller than any call of it. -/
theorem silent_factory (factory : Expr) : Silent factory factory := by
  rintro call names ⟨key, -, arguments, rfl⟩ hoccurs
  have hle := hoccurs.sizeOf_le
  simp only [Expr.invoke, Expr.call.sizeOf_spec, Expr.property.sizeOf_spec] at hle
  omega

end TypedRoutes
