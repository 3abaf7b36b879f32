import TypedRoutes.Proofs.Generation.Names
import TypedRoutes.Proofs.Runtime.Natives

/-!
# What inner closures see

A closure that generated code builds around an expression binds names of its own nesting only. So an
expression means the same inside as outside, and so does every name that generated code never binds.
-/

namespace TypedRoutes.Runtime

/-- Both agree on every name that is not bound from the given nesting on. -/
def Env.AgreesBelow (depth : Nat) (outer inner : Env) : Prop :=
  ∀ name, ¬ BoundFrom depth name → inner.lookup? name = outer.lookup? name

/-- Both agree on every name that generated code never binds. -/
def Env.Extends (base env : Env) : Prop :=
  ∀ name, ¬ Local name → env.lookup? name = base.lookup? name

variable {world : World} {base outer middle inner : Env} {depth : Nat}

namespace Env

theorem AgreesBelow.refl (depth : Nat) (env : Env) : env.AgreesBelow depth env :=
  fun _ _ => rfl

/-- Agreement passes from scope to scope. -/
theorem AgreesBelow.trans (h : outer.AgreesBelow depth middle)
    (hi : middle.AgreesBelow depth inner) : outer.AgreesBelow depth inner :=
  fun name hname => (hi name hname).trans (h name hname)

/-- Scopes that agree below a level agree below the levels in front of it. -/
theorem AgreesBelow.shallower {shallow : Nat} (h : outer.AgreesBelow depth inner)
    (hle : shallow ≤ depth) : outer.AgreesBelow shallow inner :=
  fun name hname => h name fun hdeep => hname (hdeep.mono hle)

/-- A bound name is found. -/
theorem lookup?_bind_self (name : String) (value : Value) (env : Env) :
    (Env.bind name value env).lookup? name = some value := by
  rw [lookup?, if_pos rfl]

/-- Other names are found as before. -/
theorem lookup?_bind_of_ne {name other : String} (h : name ≠ other) (value : Value) (env : Env) :
    (Env.bind name value env).lookup? other = env.lookup? other := by
  rw [lookup?, if_neg h]

/-- Binding a parameter of the given nesting. -/
theorem AgreesBelow.bind {letters : String} (hletters : letters ∈ binders) (depth : Nat)
    (value : Value) (env : Env) :
    env.AgreesBelow depth (.bind (bindingName depth letters) value env) := by
  intro name hname
  refine lookup?_bind_of_ne ?_ value env
  rintro rfl
  exact hname ⟨depth, letters, Nat.le_refl depth, hletters, rfl⟩

/-- What extends a scope still does further inside. -/
theorem Extends.agrees (h : base.Extends outer) (hi : outer.AgreesBelow depth inner) :
    base.Extends inner :=
  fun name hname => (hi name fun hbound => hname hbound.toLocal).trans (h name hname)

theorem Extends.refl (env : Env) : env.Extends env :=
  fun _ _ => rfl

/-- Local names may be bound over a scope. -/
theorem Extends.bind {name : String} (h : base.Extends outer) (hname : Local name)
    (value : Value) : base.Extends (.bind name value outer) := by
  intro other hother
  have hne : name ≠ other := fun heq => hother (heq ▸ hname)
  rw [lookup?_bind_of_ne hne]
  exact h other hother

/-- No name that every program finds in place is hidden. -/
def StandardFree (env : Env) : Prop :=
  ∀ name value, standard? name = some value → env.lookup? name = none

/-- Standard names stay free where local names are bound only. -/
theorem StandardFree.extends (h : base.StandardFree) (he : base.Extends outer) :
    outer.StandardFree := by
  intro name value hstandard
  rw [he name (not_local_of_standard hstandard)]
  exact h name value hstandard

end Env

/-- The expression evaluates to the data here and inside all closures that are built around it. -/
def Stable (world : World) (env : Env) (depth : Nat) (expr : Expr) (value : Data) : Prop :=
  ∀ inner, env.AgreesBelow depth inner → Evaluates world inner expr (.data value)

namespace Stable

variable {expr : Expr} {value : Data}

/-- A stable expression has its value right where it stands. -/
theorem evaluates (h : Stable world outer depth expr value) :
    Evaluates world outer expr (.data value) :=
  h outer (.refl depth outer)

/-- Further inside, the expression still evaluates to the same. -/
theorem inside {deeper : Nat} (h : Stable world outer depth expr value)
    (ha : outer.AgreesBelow depth inner) (hle : depth ≤ deeper) :
    Stable world inner deeper expr value :=
  fun _ hi => h _ (ha.trans (hi.shallower hle))

/-- A name that is not bound any deeper is stable. -/
theorem bound {name : String} (h : outer.lookup? name = some (.data value))
    (hname : ¬ BoundFrom depth name) : Stable world outer depth (.identifier name) value :=
  fun _ hi => .bound ((hi name hname).trans h)

/-- The parameter of a closure, inside of it. -/
theorem parameter {letters : String} (hletters : letters ∈ binders) (depth : Nat) (value : Data)
    (env : Env) :
    Stable world (.bind (bindingName depth letters) (.data value) env) (depth + 1)
      (.identifier (bindingName depth letters)) value :=
  .bound (Env.lookup?_bind_self _ _ _) (not_boundFrom_succ hletters)

/-- A property of a stable expression is stable. -/
theorem member (h : Stable world outer depth expr value) (hpresent : value.isPresent = true)
    (key : String) : Stable world outer depth (.member expr key) (world.get value key) := by
  intro inner hi heap
  rw [Expr.member]
  split
  · exact yields_property (h inner hi heap) hpresent key
  · exact yields_element_key (h inner hi heap) (Evaluates.string key heap) hpresent

/-- An element of a stable array is stable. -/
theorem position {items : List Data} (h : Stable world outer depth expr (.array items)) (n : Nat) :
    Stable world outer depth (.element expr (.natural n)) (world.item items (Float.ofNat n)) :=
  fun inner hi heap => yields_element_position (h inner hi heap) (Evaluates.number _ heap)

/-- An element under a stable key is stable. -/
theorem key {index : Expr} {name : String} (h : Stable world outer depth expr value)
    (hindex : Stable world outer depth index (.string name)) (hpresent : value.isPresent = true) :
    Stable world outer depth (.element expr index) (world.get value name) :=
  fun inner hi heap => yields_element_key (h inner hi heap) (hindex inner hi heap) hpresent

end Stable

end TypedRoutes.Runtime
