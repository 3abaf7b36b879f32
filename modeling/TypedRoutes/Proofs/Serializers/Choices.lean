import TypedRoutes.Proofs.Checks.Conditions
import TypedRoutes.Proofs.Serializers.Sparing
import TypedRoutes.Proofs.Serializers.Texts

/-!
# Choices and absent parts

The two places where serialized text depends on the value: a union is serialized as its first member
that matches, and an object with properties that may be absent leaves out those that are undefined.
-/

namespace TypedRoutes.Runtime

variable {world : World} {definitions : TypeTable} {env : Env} {value image : Data}

/-- The expression spells a JSON text of what of the value belongs to the kind of type. -/
def Serializes (world : World) (definitions : TypeTable) (env : Env) (expr : Expr) (value : Data)
    (kind : TyKind) : Prop :=
  ∃ image text, Projects world definitions value kind image ∧ JsonText text image ∧
    Spells world env expr text

/-! ## Unions -/

/-- Members that the value does not match can be left out of a union, or added to it. -/
theorem Projects.union_of_filter {kept : Ty → Bool} {members : List Ty}
    (hother : ∀ member ∈ members, kept member = false →
      ¬ Matches world definitions value member.kind)
    (h : Projects world definitions value (.union (members.filter kept)) image) :
    Projects world definitions value (.union members) image := by
  generalize hunion : TyKind.union (members.filter kept) = kind at h
  cases h
  case union before behind member first one same =>
    obtain hfilter := TyKind.union.inj hunion
    obtain ⟨front, others, rfl, hfront, hothers⟩ := List.filter_eq_append_iff.mp hfilter
    obtain ⟨skipped, rest, rfl, hskipped, -, -⟩ := List.filter_eq_cons_iff.mp hothers
    rw [← List.append_assoc]
    refine .union (fun other hmem => ?_) one same
    rcases List.mem_append.mp hmem with hmem | hmem
    · by_cases hkept : kept other = true
      · exact first other (hfront ▸ List.mem_filter.mpr ⟨hmem, hkept⟩)
      · exact hother other (by simp [hmem]) (by simpa using hkept)
    · exact hother other (by simp [hmem]) (by simpa using hskipped other hmem)
  all_goals cases hunion

/-- What is known of the check and the serializer of a member of a union. The serializer is left out
where an earlier check always holds; then nothing is known of what it binds. -/
structure Branch (world : World) (definitions : TypeTable) (factory : Expr) (env : Env)
    (value : Data) (gives : Ty → Expr → Prop) (member : Ty) (branch : Expr × Expr) : Prop where
  decides : Decides world env branch.1 (Matches world definitions value member.kind)
  serializes : Spares factory branch.2 → Matches world definitions value member.kind →
    gives member branch.2

/-- The choice between the members of a union comes to the serializer of the first one that matches.
What is known of it is known of the choice, if it does not depend on the members in front and
carries over to a condition that comes to it. What stands behind is not reached. -/
theorem Branch.choose {factory : Expr} {members : List Ty} {branches : List (Expr × Expr)}
    {otherwise : Expr} {gives : Ty → Expr → Prop} {motive : List Ty → Expr → Prop}
    (hfirst : ∀ member rest expr, Matches world definitions value member.kind →
      gives member expr → motive (member :: rest) expr)
    (hskip : ∀ member rest expr, ¬ Matches world definitions value member.kind →
      motive rest expr → motive (member :: rest) expr)
    (hconditional : ∀ members condition whenTrue whenFalse flag,
      Evaluates world env condition (.data (.boolean flag)) →
        motive members (if flag then whenTrue else whenFalse) →
          motive members (.conditional condition whenTrue whenFalse))
    (hspares : Spares factory (Scope.choose branches otherwise))
    (hbranches : List.Forall₂ (Branch world definitions factory env value gives) members branches)
    (hmatches : ∃ member ∈ members, Matches world definitions value member.kind) :
    motive members (Scope.choose branches otherwise) := by
  induction hbranches with
  | nil =>
    obtain ⟨member, hmem, -⟩ := hmatches
    cases hmem
  | @cons member branch members branches hbranch _ ih =>
    obtain ⟨flag, hflag, htests⟩ := hbranch.decides
    have hcondition : Evaluates world env branch.1 (.data (.boolean flag)) :=
      fun heap => (htests heap).yields
    obtain ⟨hchosen, hothers⟩ := hspares.choose
    rw [Scope.choose, List.foldr_cons]
    cases flag with
    | true =>
      have hmember : Matches world definitions value member.kind := hflag.mp rfl
      have hresult := hfirst member members _ hmember (hbranch.serializes hchosen hmember)
      split
      · exact hresult
      · exact hconditional _ _ _ _ true hcondition hresult
    | false =>
      have hnot : ¬ Matches world definitions value member.kind :=
        fun hmember => Bool.false_ne_true (hflag.mpr hmember)
      have hrest : ∃ member ∈ members, Matches world definitions value member.kind := by
        obtain ⟨other, hmem, hother⟩ := hmatches
        rcases List.mem_cons.mp hmem with rfl | hmem
        · exact absurd hother hnot
        · exact ⟨other, hmem, hother⟩
      -- a condition that is literally true would have ended the choice
      have hliteral : branch.1.isBoolean true = false := by
        refine Bool.eq_false_iff.mpr fun hliteral => ?_
        have htrue : Evaluates world env branch.1 (.data (.boolean true)) := by
          rw [Expr.isBoolean_eq.mp hliteral]
          exact Evaluates.boolean true
        obtain ⟨hsame, -⟩ := (hcondition []).unique (htrue [])
        cases hsame
      rw [if_neg (by rw [hliteral]; exact Bool.false_ne_true)]
      exact hconditional _ _ _ _ false hcondition
        (hskip member members _ hnot (ih (hothers hliteral) hrest))

theorem Serializes.first {member : Ty} {rest : List Ty} {expr : Expr}
    (hmatches : Matches world definitions value member.kind)
    (h : Serializes world definitions env expr value member.kind) :
    Serializes world definitions env expr value (.union (member :: rest)) := by
  obtain ⟨image, text, hprojects, hjson, hspells⟩ := h
  have hunion : Projects world definitions value (.union ([] ++ member :: rest)) image :=
    .union (by simp) hmatches hprojects
  exact ⟨image, text, hunion, hjson, hspells⟩

theorem Serializes.skip {member : Ty} {rest : List Ty} {expr : Expr}
    (hnot : ¬ Matches world definitions value member.kind)
    (h : Serializes world definitions env expr value (.union rest)) :
    Serializes world definitions env expr value (.union (member :: rest)) := by
  obtain ⟨image, text, hprojects, hjson, hspells⟩ := h
  refine ⟨image, text, ?_, hjson, hspells⟩
  generalize hunion : TyKind.union rest = kind at hprojects
  cases hprojects
  case union before behind chosen first one same =>
    cases hunion
    rw [← List.cons_append]
    exact .union (List.forall_mem_cons.mpr ⟨hnot, first⟩) one same
  all_goals cases hunion

/-- The choice between the members of a union serializes, if the serializers of its members do. -/
theorem Serializes.choose {factory : Expr} {members : List Ty} {branches : List (Expr × Expr)}
    {otherwise : Expr} (hspares : Spares factory (Scope.choose branches otherwise))
    (hbranches : List.Forall₂ (Branch world definitions factory env value fun member expr =>
      Serializes world definitions env expr value member.kind) members branches)
    (hmatches : ∃ member ∈ members, Matches world definitions value member.kind) :
    Serializes world definitions env (Scope.choose branches otherwise) value (.union members) := by
  refine Branch.choose (motive := fun members expr => Serializes world definitions env expr value
    (.union members)) (fun _ _ _ => .first) (fun _ _ _ => .skip) ?_ hspares hbranches hmatches
  intro members condition whenTrue whenFalse flag hcondition hchosen
  obtain ⟨image, text, hprojects, hjson, hspells⟩ := hchosen
  exact ⟨image, text, hprojects, hjson, .of_evaluates rfl
    (.conditional hcondition hspells.evaluates)⟩

/-! ## Members of objects -/

/-- The texts are those of the members that a value has of the declared properties. -/
structure MemberTexts (world : World) (definitions : TypeTable) (value : Data)
    (properties : List TyProperty) (texts : List String) (images : List Data) : Prop where
  projects : ProjectsAll world definitions ((world.declared value properties).map fun property =>
    (world.get value property.name, property.type)) images
  members : List.Forall₂ MemberText texts
    (((world.declared value properties).map TyProperty.name).zip images)

namespace MemberTexts

variable {properties : List TyProperty} {property : TyProperty} {texts : List String}
  {text : String} {images : List Data}

theorem nil : MemberTexts world definitions value [] [] [] :=
  ⟨.nil, .nil⟩

/-- An undefined property is left out. -/
theorem absent (h : MemberTexts world definitions value properties texts images)
    (hundefined : world.get value property.name = .undefined) :
    MemberTexts world definitions value (property :: properties) texts images := by
  have hdeclared : world.declared value (property :: properties) =
      world.declared value properties := by
    simp [World.declared, hundefined, Data.isUndefined]
  refine ⟨?_, ?_⟩
  · rw [hdeclared]
    exact h.projects
  · rw [hdeclared]
    exact h.members

theorem cons (h : MemberTexts world definitions value properties texts images)
    (hdefined : world.get value property.name ≠ .undefined)
    (hprojects : Projects world definitions (world.get value property.name) property.type.kind
      image)
    (hjson : JsonText text image) :
    MemberTexts world definitions value (property :: properties)
      ((Json.quote property.name ++ ":" ++ text) :: texts) (image :: images) := by
  have hdeclared : world.declared value (property :: properties) =
      property :: world.declared value properties := by
    rw [World.declared, List.filter_cons_of_pos]
    · rfl
    · simpa [Data.isUndefined_iff, ← Bool.not_eq_true] using hdefined
  refine ⟨?_, ?_⟩
  · rw [hdeclared]
    exact .cons hprojects h.projects
  · rw [hdeclared]
    exact .cons ⟨_, text, rfl, .string property.name, hjson⟩ h.members

/-- The members make an object, however its text is put together. -/
theorem object {expr : Expr} (h : MemberTexts world definitions value properties texts images)
    (hspells : Spells world env expr ("\x7b" ++ separated "," texts ++ "\x7d")) :
    Serializes world definitions env expr value (.object properties) :=
  ⟨_, _, .object h.projects, JsonText.object h.members, hspells⟩

end MemberTexts

/-! ## Items and keys -/

/-- What serializes every item of an array serializes all of them. -/
theorem Serializes.each {name : String} {body : Expr} {items : List Data} {element : Ty}
    (h : ∀ item ∈ items,
      Serializes world definitions (.bind name (.data item) env) body item element.kind) :
    ∃ images texts, ProjectsAll world definitions (items.map fun item => (item, element)) images ∧
      List.Forall₂ JsonText texts images ∧
      List.Forall₂ (fun item image =>
        Evaluates world (.bind name (.data item) env) body (.data image)) items
          (texts.map .string) := by
  induction items with
  | nil => exact ⟨[], [], .nil, .nil, .nil⟩
  | cons item rest ih =>
    obtain ⟨image, text, hprojects, hjson, hspells⟩ := h item List.mem_cons_self
    obtain ⟨images, texts, hall, hjsons, hevals⟩ :=
      ih fun other hother => h other (List.mem_cons_of_mem _ hother)
    exact ⟨image :: images, text :: texts, .cons hprojects hall, .cons hjson hjsons,
      .cons hspells.evaluates hevals⟩

/-- What serializes every key of a value with what stands behind it serializes all of them. -/
theorem Serializes.eachKey {name : String} {body : Expr} {keys : List String} {type : Ty}
    (h : ∀ key ∈ keys, ∃ image text,
      Projects world definitions (world.get value key) type.kind image ∧
      MemberText text (key, image) ∧
      Evaluates world (.bind name (.data (.string key)) env) body (.data (.string text))) :
    ∃ images texts, ProjectsAll world definitions
        ((keys.map (world.get value)).map fun item => (item, type)) images ∧
      List.Forall₂ MemberText texts (keys.zip images) ∧
      List.Forall₂ (fun item image =>
        Evaluates world (.bind name (.data item) env) body (.data image)) (keys.map .string)
          (texts.map .string) := by
  induction keys with
  | nil => exact ⟨[], [], .nil, .nil, .nil⟩
  | cons key rest ih =>
    obtain ⟨image, text, hprojects, hmember, heval⟩ := h key List.mem_cons_self
    obtain ⟨images, texts, hall, hmembers, hevals⟩ :=
      ih fun other hother => h other (List.mem_cons_of_mem _ hother)
    exact ⟨image :: images, text :: texts, .cons hprojects hall, .cons hmember hmembers,
      .cons heval hevals⟩

/-! ## Parts that may be absent -/

theorem evalAll_data {exprs : List Expr} {values : List Data}
    (h : List.Forall₂ (fun expr value => Evaluates world env expr (.data value)) exprs values)
    (heap : Heap) : (evalAll world env exprs).Yields heap (values.map .data) heap := by
  induction h with
  | nil => exact evalAll_nil
  | cons hfirst _ ih => exact evalAll_cons (hfirst heap) ih

theorem Evaluates.array {exprs : List Expr} {values : List Data} (hne : exprs ≠ [])
    (h : List.Forall₂ (fun expr value => Evaluates world env expr (.data value)) exprs values) :
    Evaluates world env (.array exprs) (.data (.array values)) := by
  intro heap
  cases h with
  | nil => exact absurd rfl hne
  | cons hfirst hrest => exact yields_array (evalAll_data (.cons hfirst hrest) heap) (by simp)

theorem Evaluates.isDefined {input : Expr} (hfree : env.lookup? "undefined" = none)
    (h : Evaluates world env input (.data value)) :
    Evaluates world env (.differs .undefined input) (.data (.boolean !value.isUndefined)) := by
  have hequal : Data.undefined.strictEquals? value = some value.isUndefined := by
    cases value <;> rfl
  have hundefined : Evaluates world env .undefined (.data .undefined) := .standard hfree rfl
  exact fun heap => yields_differs (hundefined heap) (h heap) hequal

theorem Evaluates.isUndefined {input : Expr} (hfree : env.lookup? "undefined" = none)
    (h : Evaluates world env input (.data value)) :
    Evaluates world env (.equals .undefined input) (.data (.boolean value.isUndefined)) := by
  have hequal : Data.undefined.strictEquals? value = some value.isUndefined := by
    cases value <;> rfl
  have hundefined : Evaluates world env .undefined (.data .undefined) := .standard hfree rfl
  exact fun heap => yields_equals (hundefined heap) (h heap) hequal

/-- The entries that are not undefined. -/
theorem Evaluates.present {entries : List Expr} {outcomes : List Data} (hne : entries ≠ [])
    (hstandard : env.StandardFree)
    (h : List.Forall₂ (fun entry outcome => Evaluates world env entry (.data outcome)) entries
      outcomes) :
    Evaluates world env (Scope.present entries)
      (.data (.array (outcomes.filter fun outcome => !outcome.isUndefined))) := by
  refine Evaluates.filter (Evaluates.array hne h) fun outcome _ => ?_
  have hextends := (Env.Extends.refl env).bind (.inl (by simp [parameters]) : Local "str")
    (.data outcome)
  exact .isDefined (hstandard.extends hextends _ _ rfl) (.bound (Env.lookup?_bind_self _ _ _))

end TypedRoutes.Runtime
