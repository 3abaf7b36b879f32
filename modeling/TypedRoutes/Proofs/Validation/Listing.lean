import TypedRoutes.Proofs.Validation.Mismatches
import TypedRoutes.Proofs.Validation.Reports

/-!
# Mismatches as they are listed

Generated code lists a mismatch under the text of its path. The text is put together on the way: the
steps are literals in it, apart from the positions of array items, which are numbers that the
surroundings write.
-/

namespace TypedRoutes

namespace Runtime

variable {world : World} {start text : String} {steps : List ValueStep}

/-- The text of a path as generated code puts it together. -/
inductive Traces (world : World) (start : String) : List ValueStep → String → Prop where
  | start : Traces world start [] start
  | step {steps : List ValueStep} {text : String} (path : Traces world start steps text)
      (step : ValueStep) : Traces world start (steps ++ [step]) (text ++ step.text)
  | item {steps : List ValueStep} {text : String} (path : Traces world start steps text)
      {position : Nat} (bound : position < arrayBound) :
      Traces world start (steps ++ [.index position])
        (text ++ ("[" ++ (world.numberText (Float.ofNat position) ++ "]")))

/-- The position of an item is written in decimal digits. -/
def World.WritesPositions (world : World) : Prop :=
  ∀ position < arrayBound, world.numberText (Float.ofNat position) = Decimal.naturalText position

/-- The written path is the one that the steps lead to. -/
theorem Traces.eq_pathFrom (h : Traces world start steps text) (hnumbers : world.WritesPositions) :
    text = pathFrom start steps := by
  induction h with
  | start => rfl
  | step _ step ih => rw [ih, pathFrom_concat]
  | item _ bound ih =>
    rw [ih, pathFrom_concat, hnumbers _ bound, ValueStep.text, String.append_assoc]

/-- The entry of the list that stands for a mismatch. -/
def Describes (world : World) (start : String) (found : Mismatch) (entry : Data) : Prop :=
  ∃ text, Traces world start found.steps text ∧ entry = mismatch text found.expected found.value

/-- An entry that gives the whole path of a mismatch. -/
def Mismatch.entry (found : Mismatch) : Data :=
  mismatch (pathFrom "$input" found.steps) found.expected found.value

theorem eq_map_entry (hnumbers : world.WritesPositions) {found : List Mismatch} {listed : List Data}
    (h : List.Forall₂ (Describes world "$input") found listed) :
    listed = found.map Mismatch.entry := by
  rw [← List.forall₂_eq_eq_eq, List.forall₂_map_right_iff]
  refine h.flip.imp fun entry found hdescribes => ?_
  obtain ⟨text, htraces, rfl⟩ := hdescribes
  rw [htraces.eq_pathFrom hnumbers, Mismatch.entry]

end Runtime

namespace Scope

open TypedRoutes.Runtime

/-- The list holds what the traversal finds, in that order. -/
def Listed (world : World) (scope : Scope) (start : String) (value : Data) (kind : TyKind)
    (steps : List ValueStep) (expected : String) (listed : List Data) : Prop :=
  ∃ found, scope.Finds world value kind steps expected found ∧
    List.Forall₂ (Describes world start) found listed

/-- The same for each of several parts. -/
def PartsListed (world : World) (scope : Scope) (start : String) (steps : List ValueStep)
    (parts : List Part) (listeds : List (List Data)) : Prop :=
  List.Forall₂ (fun part listed => scope.Listed world start part.value part.type.kind
    (steps ++ [part.step]) (scope.expected part.type) listed) parts listeds

variable {world : World} {scope : Scope} {start text expected : String} {steps : List ValueStep}
  {value : Data} {kind : TyKind} {listed : List Data}

/-- What the traversal finds in the parts, one list for each of them. -/
theorem PartsListed.founds {parts : List Part} {listeds : List (List Data)}
    (h : scope.PartsListed world start steps parts listeds) :
    ∃ founds, List.Forall₂ (fun part found => scope.Finds world part.value part.type.kind
        (steps ++ [part.step]) (scope.expected part.type) found) parts founds ∧
      List.Forall₂ (List.Forall₂ (Describes world start)) founds listeds := by
  induction h with
  | nil => exact ⟨[], .nil, .nil⟩
  | cons hpart _ ih =>
    obtain ⟨found, hfinds, hdescribes⟩ := hpart
    obtain ⟨founds, hall, hlisteds⟩ := ih
    exact ⟨found :: founds, .cons hfinds hall, .cons hdescribes hlisteds⟩

namespace Listed

/-- Nothing is listed exactly for a value that matches. -/
theorem nil_iff (h : scope.Listed world start value kind steps expected listed)
    (hvalue : value.WellFormed) : listed = [] ↔ Matches world scope.definitions value kind := by
  obtain ⟨found, hfinds, hdescribes⟩ := h
  rw [← hfinds.nil_iff hvalue, ← List.length_eq_zero_iff, ← List.length_eq_zero_iff,
    hdescribes.length_eq]

/-- A value of the wrong shape is listed itself. -/
theorem misshapen (hshape : shape? kind value = some false)
    (hpath : Traces world start steps text) :
    scope.Listed world start value kind steps expected [mismatch text expected value] :=
  ⟨_, .misshapen hshape, .cons ⟨text, hpath, rfl⟩ .nil⟩

/-- Of a value of the right shape what is wrong with its parts is listed. -/
theorem parts (hshape : shape? kind value = some true) {listeds : List (List Data)}
    (h : scope.PartsListed world start steps (world.parts kind value) listeds) :
    scope.Listed world start value kind steps expected listeds.flatten := by
  obtain ⟨founds, hall, hlisteds⟩ := h.founds
  obtain ⟨hlength, heach⟩ := List.forall₂_iff_zip.mp hall
  exact ⟨founds.flatten, .parts hshape hlength.symm fun _ hpair => heach hpair,
    List.rel_flatten hlisteds⟩

/-- Under a name the entries of its definition are listed, with the name as what was expected. -/
theorem reference {name : String} {definition : Ty}
    (hdefined : scope.definitions.get? name = some definition)
    (h : scope.Listed world start value definition.kind steps name listed) :
    scope.Listed world start value (.reference name) steps expected listed := by
  obtain ⟨found, hfinds, hdescribes⟩ := h
  exact ⟨found, .reference hdefined hfinds, hdescribes⟩

/-- Nothing is listed for a value that matches a type which is tested as a whole. -/
theorem accepted (hwhole : shape? kind value = none)
    (hresolved : definition? scope.definitions kind = none)
    (h : Matches world scope.definitions value kind) :
    scope.Listed world start value kind steps expected [] :=
  ⟨[], .accepted hwhole hresolved h, .nil⟩

/-- A value that does not match a type which is tested as a whole is listed itself. -/
theorem rejected (hwhole : shape? kind value = none)
    (hresolved : definition? scope.definitions kind = none)
    (h : ¬ Matches world scope.definitions value kind) (hpath : Traces world start steps text) :
    scope.Listed world start value kind steps expected [mismatch text expected value] :=
  ⟨_, .rejected hwhole hresolved h, .cons ⟨text, hpath, rfl⟩ .nil⟩

end Listed

/-! ## Containers -/

/-- The expression lists what the traversal of the value finds. -/
def Validates (world : World) (scope : Scope) (env : Env) (errors : Nat) (start : String)
    (expr : Expr) (value : Data) (kind : TyKind) (steps : List ValueStep) (expected : String) :
    Prop :=
  ∃ listed, scope.Listed world start value kind steps expected listed ∧
    Lists world env errors expr listed

/-- All expressions are evaluated and list what the traversal of the parts finds. -/
def ValidatesEach (world : World) (scope : Scope) (env : Env) (errors : Nat) (start : String)
    (exprs : List Expr) (steps : List ValueStep) (parts : List Part) : Prop :=
  ∃ listeds, scope.PartsListed world start steps parts listeds ∧
    ListsEach world env errors exprs listeds.flatten

namespace Validates

section Containers

variable {env : Env} {errors : Nat} {condition path input : Expr}
  (hshape : Decides world env condition (shape? kind value = some true))
  (hcontainer : shape? kind value ≠ none) (hcollects : env.Collects errors)
  (hpath : Evaluates world env path (.data (.string text)))
  (htraces : Traces world start steps text) (hinput : Evaluates world env input (.data value))

include hshape hcontainer hcollects hpath htraces hinput

/-- A container is reported as a whole if its shape is wrong; otherwise what follows lists what is
found in its parts. -/
theorem conjunction {rest : Expr} (hrest : .boolean false ∉ rest.operands .and)
    (hparts : shape? kind value = some true → ∃ listeds,
      scope.PartsListed world start steps (world.parts kind value) listeds ∧
        Lists world env errors rest listeds.flatten) :
    scope.Validates world env errors start
      (.conjunction [orReport condition path expected input, rest]) value kind steps expected := by
  have hhead (listed : List Data) : (shape? kind value = some true → listed = []) →
      (¬ shape? kind value = some true → listed = [mismatch text expected value]) →
        Lists world env errors (orReport condition path expected input) listed :=
    Lists.orReport hshape hcollects hpath expected hinput
  have hkept := false_not_mem_operands_orReport condition path expected input
  cases hwhole : shape? kind value with
  | none => exact absurd hwhole hcontainer
  | some right =>
    cases right with
    | true =>
      obtain ⟨listeds, hlisteds, hlists⟩ := hparts hwhole
      refine ⟨listeds.flatten, .parts hwhole hlisteds, ?_⟩
      exact Lists.conjunction (hhead [] (fun _ => rfl) fun hwrong => absurd hwhole hwrong)
        (fun hne => absurd rfl hne) (fun _ => hlists) hkept hrest
    | false =>
      refine ⟨_, .misshapen hwhole htraces, ?_⟩
      exact Lists.conjunction
        (hhead _ (fun hright => by cases hwhole.symm.trans hright) fun _ => rfl)
        (fun _ => rfl) (fun hnil => by cases hnil) hkept hrest

/-- Where nothing can be found in the parts, nothing follows. -/
theorem head (hparts : shape? kind value = some true → ∃ listeds,
      scope.PartsListed world start steps (world.parts kind value) listeds ∧ listeds.flatten = []) :
    scope.Validates world env errors start (orReport condition path expected input) value kind
      steps expected := by
  cases hwhole : shape? kind value with
  | none => exact absurd hwhole hcontainer
  | some right =>
    cases right with
    | true =>
      obtain ⟨listeds, hlisteds, hnothing⟩ := hparts hwhole
      refine ⟨listeds.flatten, .parts hwhole hlisteds, ?_⟩
      exact .orReport hshape hcollects hpath expected hinput (fun _ => hnothing)
        fun hwrong => absurd hwhole hwrong
    | false =>
      refine ⟨_, .misshapen hwhole htraces, ?_⟩
      exact .orReport hshape hcollects hpath expected hinput
        (fun hright => by cases hwhole.symm.trans hright) fun _ => rfl

/-- The flags of expressions for the parts follow, if there are any. -/
theorem combine {exprs : List Expr} (hparts : shape? kind value = some true →
      scope.ValidatesEach world env errors start exprs steps (world.parts kind value)) :
    scope.Validates world env errors start
      (Scope.combine (orReport condition path expected input) exprs) value kind steps expected := by
  rw [Scope.combine]
  split
  · rename_i hempty
    obtain rfl := List.isEmpty_iff.mp hempty
    refine head hshape hcontainer hcollects hpath htraces hinput fun hright => ?_
    obtain ⟨listeds, hlisteds, hlists⟩ := hparts hright
    exact ⟨listeds, hlisteds, hlists.eq_nil⟩
  · rename_i hne
    refine conjunction hshape hcontainer hcollects hpath htraces hinput
      (false_not_mem_operands_everyFlag _) fun hright => ?_
    obtain ⟨listeds, hlisteds, hlists⟩ := hparts hright
    exact ⟨listeds, hlisteds, hlists.everyFlag (by simpa using hne)⟩

/-- The flags that a loop over the parts collects follow, unless the body of the loop is a
literal. -/
theorem loop {target body : Expr} {params : List String} {items : List Data}
    (htarget : shape? kind value = some true → Evaluates world env target (.data (.array items)))
    (hparts : shape? kind value = some true → ∃ listeds,
      scope.PartsListed world start steps (world.parts kind value) listeds ∧
        List.Forall₂ (fun entry listed => Lists world (.bindAll params [.data entry.1,
          .data (.number (Float.ofNat entry.2)), .data (.array items)] env) errors body listed)
            items.zipIdx listeds) :
    scope.Validates world env errors start
      (if body.isBoolean true then orReport condition path expected input
        else .conjunction [orReport condition path expected input,
          everyFlag (.invoke (.property target "map") [.lambda params body])])
      value kind steps expected := by
  split
  · rename_i hliteral
    refine head hshape hcontainer hcollects hpath htraces hinput fun hright => ?_
    obtain ⟨listeds, hlisteds, hlists⟩ := hparts hright
    rw [Expr.isBoolean_eq.mp hliteral] at hlists
    exact ⟨listeds, hlisteds, Lists.flatten_eq_nil hlists⟩
  · refine conjunction hshape hcontainer hcollects hpath htraces hinput
      (false_not_mem_operands_everyFlag _) fun hright => ?_
    obtain ⟨listeds, hlisteds, hlists⟩ := hparts hright
    exact ⟨listeds, hlisteds, .everyFlag_map (htarget hright) hlists⟩

end Containers

end Validates

end Scope

end TypedRoutes
