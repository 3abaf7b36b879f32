import TypedRoutes.Proofs.Checks.Guarded
import TypedRoutes.Proofs.Generation.Linking
import TypedRoutes.Proofs.Generation.Stability
import TypedRoutes.Proofs.Runtime.Parts

/-!
# What is known of helpers

Code for a type calls the helpers of the names in it: on the value itself where the type stands for
the name, on parts of the value elsewhere. What holds of the helper for one definition, if it holds
of the helpers which that one calls, holds of all helpers that a guarded type reaches.
-/

namespace TypedRoutes

open TypedRoutes.Runtime

/-- A property of names and values holds where the code for a type calls helpers: of the names that
the type stands for with the value itself, of the names that it refers to with parts of the
value. -/
structure HelpersHold (world : World) (property : String → Data → Prop)
    (direct references : List String) (value : Data) : Prop where
  same : ∀ name ∈ direct, property name value
  parts : ∀ name ∈ references, ∀ part : Data, world.rank part < world.rank value →
    part.WellFormed → property name part

namespace HelpersHold

variable {world : World} {property : String → Data → Prop} {direct references : List String}
  {value : Data}

theorem mono {fewer least : List String} (h : HelpersHold world property direct references value)
    (hd : fewer ⊆ direct) (hr : least ⊆ references) :
    HelpersHold world property fewer least value :=
  ⟨fun name hname => h.same name (hd hname), fun name hname => h.parts name (hr hname)⟩

theorem imp {weaker : String → Data → Prop}
    (h : HelpersHold world property direct references value)
    (hweaker : ∀ name value, property name value → weaker name value) :
    HelpersHold world weaker direct references value :=
  ⟨fun name hname => hweaker _ _ (h.same name hname),
    fun name hname further hrank hpart => hweaker _ _ (h.parts name hname further hrank hpart)⟩

/-- On a part of the value everything is further down. -/
theorem part {part : Data} (h : HelpersHold world property direct references value)
    (hrank : world.rank part < world.rank value) (hpart : part.WellFormed) {type : Ty}
    (hr : type.references ⊆ references) :
    HelpersHold world property type.direct type.references part where
  same := fun name hname => h.parts name (hr (Ty.direct_subset type hname)) part hrank hpart
  parts := fun name hname further hfurther =>
    h.parts name (hr hname) further (hfurther.trans hrank)

end HelpersHold

namespace TypeTable.Guarded

variable {definitions : TypeTable} {type : Ty} {world : World} {property : String → Data → Prop}

/-- Names and values that a guarded type reaches, by induction on the rank of the value and on the
references that are left to resolve on the value itself. -/
theorem induction (hguarded : definitions.Guarded type)
    (step : ∀ name value, definitions.Reaches type name → value.WellFormed →
      (∀ definition, definitions.get? name = some definition →
        HelpersHold world property definition.direct definition.references value) →
      property name value)
    {name : String} (hname : definitions.Reaches type name) {value : Data}
    (hvalue : value.WellFormed) : property name value := by
  induction hrank : world.rank value using Nat.strong_induction_on generalizing name value with
  | _ rank ihrank =>
    induction hguarded.acc hname with
    | intro name _ ihname =>
      refine step name value hname hvalue fun definition hdefinition => ⟨?_, ?_⟩
      · intro inner hinner
        have hleads : definitions.Leads inner name := ⟨definition, hdefinition, hinner⟩
        exact ihname inner hleads (hname.leads hleads)
      · intro inner hinner part hpart hwf
        exact ihrank _ (hrank ▸ hpart) (.through hname hdefinition hinner) hwf rfl

/-- What the helper of each definition inherits from those that it calls holds wherever a guarded
type calls a helper. -/
theorem helpersHold (hguarded : definitions.Guarded type)
    (step : ∀ name value, definitions.Reaches type name → value.WellFormed →
      (∀ definition, definitions.get? name = some definition →
        HelpersHold world property definition.direct definition.references value) →
      property name value)
    {value : Data} (hvalue : value.WellFormed) :
    HelpersHold world property type.direct type.references value where
  same := fun _ hname => hguarded.induction step (.here (Ty.direct_subset type hname)) hvalue
  parts := fun _ hname _ _ hpart => hguarded.induction step (.here hname) hpart

end TypeTable.Guarded

namespace Scope

/-- Generated code can be evaluated here: its helpers are in place, and it finds what every program
finds in place. -/
structure Ready (scope : Scope) (final : Registry) (base : Env) : Prop where
  links : scope.Links final base
  standard : base.StandardFree

/-- The names in scope when a helper is called on a value. -/
theorem helperInput_stable {world : World} {base : Env} (value : Data) :
    Stable world (.bind "input" (.data value) base) 0 (.identifier "input") value :=
  .bound (Env.lookup?_bind_self _ _ _) (not_boundFrom_parameter (by simp [parameters]))

theorem helperInput_extends {base : Env} (value : Value) :
    base.Extends (.bind "input" value base) :=
  (Env.Extends.refl base).bind (.inl (by simp [parameters])) value

end Scope

end TypedRoutes
