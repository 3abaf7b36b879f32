import TypedRoutes.Proofs.Generation.Likeness
import TypedRoutes.Proofs.Generation.Steps

/-!
# Numbering

What is generated for a type does not depend on the numbers that named types have by then: two
generations are alike when their helpers of the same kind for the same type are linked. By induction
on the type.
-/

namespace TypedRoutes

/-- Helpers of the same kind for the same type are linked. -/
def Registry.LinkedBy (links : String → String → Prop) (first second : Registry) : Prop :=
  ∀ ⦃kind : HelperKind⦄ ⦃i j : Nat⦄ ⦃name : String⦄, ⟨kind, i, name⟩ ∈ first.requested →
    ⟨kind, j, name⟩ ∈ second.requested → links (kind.helperName i) (kind.helperName j)

namespace Alike

variable {factory : Expr} {links : String → String → Prop} {params : List String}
  {expr expr' : Expr}

/-- The tests of the run-time type of two expressions that are alike. -/
theorem isOfType (h : Alike factory links params expr expr') (name : String) :
    Alike factory links params (.isOfType name expr) (.isOfType name expr') :=
  .binary _ (.string name) (.unary _ h)

/-- The tests for an array. -/
theorem isArray (h : Alike factory links params expr expr') :
    Alike factory links params (.isArray expr) (.isArray expr') :=
  invoke (.property (.standard (by simp [standardNames])) _) (.cons h .nil)

/-- The comparisons with undefined. -/
theorem isUndefined (h : Alike factory links params expr expr') :
    Alike factory links params (.equals .undefined expr) (.equals .undefined expr') :=
  .binary _ (.standard (by simp [standardNames])) h

/-- Both tests for an object. -/
theorem objectConditions (h : Alike factory links params expr expr') :
    List.Forall₂ (Alike factory links params) (Expr.objectConditions expr)
      (Expr.objectConditions expr') :=
  .cons (h.isOfType "object") (.cons (.binary _ .null h) .nil)

/-- The calls of the standard serializer. -/
theorem standardJson (h : Alike factory links params expr expr') :
    Alike factory links params (.standardJson expr) (.standardJson expr') :=
  invoke (.property (.standard (by simp [standardNames])) _) (.cons h .nil)

/-- The keys or the values of two objects. -/
theorem objectPart (h : Alike factory links params expr expr') (part : String) :
    Alike factory links params
      (.invoke (.property (.identifier "Object") part) [expr])
      (.invoke (.property (.identifier "Object") part) [expr']) :=
  invoke (.property (.standard (by simp [standardNames])) _) (.cons h .nil)

/-- A method that is given a closure with one parameter. -/
theorem traverse {name : String} {target target' : Expr} (method : String)
    (ht : Alike factory links params target target') (bound : Local name)
    (h : Alike factory links (name :: params) expr expr') :
    Alike factory links params (.invoke (.property target method) [.lambda [name] expr])
      (.invoke (.property target' method) [.lambda [name] expr']) :=
  invoke (.property ht method) (.cons (.lambda (by simpa using bound) h) .nil)

/-- A binder is like itself in its own closure. -/
theorem bindingName (params : List String) {letters : String} (hletters : letters ∈ binders)
    (depth : Nat) :
    Alike factory links (TypedRoutes.bindingName depth letters :: params)
      (.identifier (TypedRoutes.bindingName depth letters))
      (.identifier (TypedRoutes.bindingName depth letters)) :=
  .parameter List.mem_cons_self (.inr ⟨depth, letters, Nat.zero_le _, hletters, rfl⟩)

end Alike

/-- No helper is called like a binder. -/
theorem Local.bindingName {letters : String} (hletters : letters ∈ binders) (depth : Nat) :
    Local (TypedRoutes.bindingName depth letters) :=
  .inr ⟨depth, letters, Nat.zero_le _, hletters, rfl⟩

namespace Generate

variable {final final' : Registry} {α β : Type}

/-- What one step gives in a run that ends with the first registry is related to what the other step
gives in a run that ends with the second one. -/
def Relates (final final' : Registry) (R : α → α → Prop) (step step' : Generate α) : Prop :=
  ∀ a a', Gives final step a → Gives final' step' a' → R a a'

variable {R : α → α → Prop} {S : β → β → Prop}

/-- Computations without a request are related if their values are. -/
theorem Relates.pure {a a' : α} (h : R a a') :
    Relates final final' R (Pure.pure a) (Pure.pure a') := by
  intro b b' hgives hgives'
  rwa [← hgives.of_pure, ← hgives'.of_pure]

/-- Two computations go on from one step, each in its own way. -/
theorem Relates.bind_both {step : Generate α} {next next' : α → Generate β}
    (definitions : TypeTable) (h : Relates final final' R step step)
    (hask : ∀ value, Asking definitions (next value))
    (hask' : ∀ value, Asking definitions (next' value))
    (hn : ∀ a a', R a a' → Relates final final' S (next a) (next' a')) :
    Relates final final' S (step >>= next) (step >>= next') := by
  intro b b' hgives hgives'
  obtain ⟨a, hstep, hnext⟩ := hgives.of_bind definitions hask
  obtain ⟨a', hstep', hnext'⟩ := hgives'.of_bind definitions hask'
  exact hn a a' (h a a' hstep hstep') b b' hnext hnext'

/-- One computation goes on from a step. -/
theorem Relates.bind {step : Generate α} {next : α → Generate β} (definitions : TypeTable)
    (h : Relates final final' R step step) (hask : ∀ value, Asking definitions (next value))
    (hn : ∀ a a', R a a' → Relates final final' S (next a) (next a')) :
    Relates final final' S (step >>= next) (step >>= next) :=
  h.bind_both definitions hask hask hn

/-- What is made of a step asks for nothing more. -/
theorem Relates.bind_pure {step : Generate α} {f f' : α → β} (h : Relates final final' R step step)
    (hf : ∀ a a', R a a' → S (f a) (f' a')) :
    Relates final final' S (do let a ← step; Pure.pure (f a))
      (do let a ← step; Pure.pure (f' a)) := by
  intro b b' hgives hgives'
  obtain ⟨a, hstep, rfl⟩ := hgives.of_bind_pure
  obtain ⟨a', hstep', rfl⟩ := hgives'.of_bind_pure
  exact hf a a' (h a a' hstep hstep')

end Generate

namespace Scope

open Generate

variable (scope : Scope) {links : String → String → Prop} {final final' : Registry}

/-- A call of a helper: both numberings have one, under numbers that are linked, or neither has. -/
theorem callHelper_alike (hlinks : final.LinkedBy links final') (kind : HelperKind) (name : String)
    {arguments : List Expr} {params : List String} {other : Expr}
    (harguments : List.Forall₂ (Alike scope.factory links params) arguments arguments)
    (hother : Alike scope.factory links params other other) :
    Relates final final' (fun call call' =>
        Alike scope.factory links params (call.getD other) (call'.getD other))
      (scope.callHelper kind name arguments) (scope.callHelper kind name arguments) := by
  intro call call' hgives hgives'
  rcases hgives.of_callHelper with ⟨hmissing, rfl⟩ | ⟨definition, i, hdefined, hrequested, rfl⟩ <;>
    rcases hgives'.of_callHelper with ⟨hmissing', rfl⟩ | ⟨_, j, hdefined', hrequested', rfl⟩
  · exact hother
  · rw [hmissing] at hdefined'
    cases hdefined'
  · rw [hmissing'] at hdefined
    cases hdefined
  · exact .invoke (.linked (hlinks hrequested hrequested')) harguments

/-! ## Checks -/

mutual

/-- A check is alike under both numberings. -/
theorem check_alike (hlinks : final.LinkedBy links final') (type : Ty) (depth : Nat)
    {input : Expr} {params : List String} (hinput : Alike scope.factory links params input input) :
    Relates final final' (Alike scope.factory links params) (scope.check type depth input)
      (scope.check type depth input) := by
  cases type with
  | mk kind _ =>
    rw [check]
    exact checkKind_alike hlinks kind depth hinput

/-- A check of a kind of type is alike under both numberings. -/
theorem checkKind_alike (hlinks : final.LinkedBy links final') (kind : TyKind) (depth : Nat)
    {input : Expr} {params : List String} (hinput : Alike scope.factory links params input input) :
    Relates final final' (Alike scope.factory links params) (scope.checkKind kind depth input)
      (scope.checkKind kind depth input) := by
  cases kind with
  | string =>
    rw [checkKind]
    exact .pure (hinput.isOfType _)
  | number =>
    rw [checkKind]
    exact .pure (.conjunction (.cons (hinput.isOfType _) (.cons
      (.invoke (.property (.standard (by simp [standardNames])) _) (.cons hinput .nil)) .nil)))
  | boolean =>
    rw [checkKind]
    exact .pure (hinput.isOfType _)
  | bigInt =>
    rw [checkKind]
    exact .pure (hinput.isOfType _)
  | function =>
    rw [checkKind]
    exact .pure (hinput.isOfType _)
  | null =>
    rw [checkKind]
    exact .pure (.binary _ .null hinput)
  | undefined =>
    rw [checkKind]
    exact .pure hinput.isUndefined
  | void =>
    rw [checkKind]
    exact .pure hinput.isUndefined
  | literalString value =>
    rw [checkKind]
    exact .pure (.binary _ (.string value) hinput)
  | literalNumber value =>
    rw [checkKind]
    exact .pure (.binary _ (.number value) hinput)
  | literalBoolean value =>
    rw [checkKind]
    exact .pure (.binary _ (.boolean value) hinput)
  | date =>
    rw [checkKind]
    exact .pure (.binary _ hinput (.standard (by simp [standardNames])))
  | array element =>
    rw [checkKind]
    refine .bind scope.definitions (check_alike hlinks element (depth + 1)
      (.bindingName params (by simp [binders]) depth))
      (fun _ => by split <;> exact .pure _) fun condition condition' hcondition => ?_
    rw [hcondition.isBoolean_eq]
    split
    · exact .pure hinput.isArray
    · exact .pure (.conjunction (.cons hinput.isArray (.cons
        (.traverse "every" hinput (.bindingName (by simp [binders]) depth) hcondition) .nil)))
  | tuple elements =>
    rw [checkKind]
    refine .bind_pure (checkElements_alike hlinks elements depth 0 hinput) fun _ _ hconditions => ?_
    exact .conjunction (.cons hinput.isArray (.cons (.binary _ (.number _) (.property hinput _))
      hconditions))
  | object properties =>
    rw [checkKind]
    refine .bind_pure (checkProperties_alike hlinks properties depth hinput)
      fun _ _ hconditions => ?_
    exact .conjunction (List.rel_append hinput.objectConditions hconditions)
  | record value =>
    rw [checkKind]
    refine .bind scope.definitions (check_alike hlinks value (depth + 1)
      (.bindingName params (by simp [binders]) depth))
      (fun _ => by split <;> exact .pure _) fun condition condition' hcondition => ?_
    rw [hcondition.isBoolean_eq]
    split
    · exact .pure (.conjunction hinput.objectConditions)
    · exact .pure (.conjunction (List.rel_append hinput.objectConditions (.cons
        (.traverse "every" (hinput.objectPart "values")
          (.bindingName (by simp [binders]) depth) hcondition) .nil)))
  | reference name =>
    rw [checkKind]
    exact .bind_pure (callHelper_alike scope hlinks .check name (.cons hinput .nil) (.boolean true))
      fun _ _ hcall => hcall
  | union members =>
    rw [checkKind]
    exact .bind_pure (checkMembers_alike hlinks members depth hinput)
      fun _ _ hconditions => .disjunction hconditions
  | intersection members =>
    rw [checkKind]
    exact .bind_pure (checkMembers_alike hlinks members depth hinput)
      fun _ _ hconditions => .conjunction hconditions
  | _ =>
    rw [checkKind]
    exact .pure (.boolean _)

/-- The checks of tuple elements are alike one by one. -/
theorem checkElements_alike (hlinks : final.LinkedBy links final') (elements : List Ty)
    (depth position : Nat) {input : Expr} {params : List String}
    (hinput : Alike scope.factory links params input input) :
    Relates final final' (List.Forall₂ (Alike scope.factory links params))
      (scope.checkElements elements depth input position)
      (scope.checkElements elements depth input position) := by
  cases elements with
  | nil =>
    rw [checkElements]
    exact .pure .nil
  | cons element rest =>
    rw [checkElements]
    refine .bind scope.definitions (check_alike hlinks element depth (.element hinput (.number _)))
      (fun _ => .bind (checkElements_asking scope rest depth input _) fun _ => .pure _)
      fun _ _ hcondition => ?_
    exact .bind_pure (checkElements_alike hlinks rest depth (position + 1) hinput)
      fun _ _ hconditions => .cons hcondition hconditions

/-- The checks of properties are alike one by one. -/
theorem checkProperties_alike (hlinks : final.LinkedBy links final') (properties : List TyProperty)
    (depth : Nat) {input : Expr} {params : List String}
    (hinput : Alike scope.factory links params input input) :
    Relates final final' (List.Forall₂ (Alike scope.factory links params))
      (scope.checkProperties properties depth input)
      (scope.checkProperties properties depth input) := by
  cases properties with
  | nil =>
    rw [checkProperties]
    exact .pure .nil
  | cons property rest =>
    obtain ⟨name, type, optional, _⟩ := property
    rw [checkProperties]
    refine .bind scope.definitions (check_alike hlinks type depth (hinput.member name))
      (fun _ => .bind (checkProperties_asking scope rest depth input) fun _ => .pure _)
      fun condition condition' hcondition => ?_
    refine .bind_pure (checkProperties_alike hlinks rest depth hinput)
      fun _ _ hconditions => .cons ?_ hconditions
    rw [hcondition.isBoolean_eq]
    split
    · exact .disjunction (.cons (hinput.member name).isUndefined (.cons hcondition .nil))
    · exact hcondition

/-- The checks of the members of a union or an intersection are alike one by one. -/
theorem checkMembers_alike (hlinks : final.LinkedBy links final') (members : List Ty)
    (depth : Nat) {input : Expr} {params : List String}
    (hinput : Alike scope.factory links params input input) :
    Relates final final' (List.Forall₂ (Alike scope.factory links params))
      (scope.checkMembers members depth input) (scope.checkMembers members depth input) := by
  cases members with
  | nil =>
    rw [checkMembers]
    exact .pure .nil
  | cons member rest =>
    rw [checkMembers]
    refine .bind scope.definitions (check_alike hlinks member depth hinput)
      (fun _ => .bind (checkMembers_asking scope rest depth input) fun _ => .pure _)
      fun _ _ hcondition => ?_
    exact .bind_pure (checkMembers_alike hlinks rest depth hinput)
      fun _ _ hconditions => .cons hcondition hconditions

end

/-! ## Serializers -/

section

variable {scope} {params : List String} {input input' : Expr}

/-- The choices between branches that are alike one by one. -/
theorem choose_alike {branches branches' : List (Expr × Expr)}
    (hs : List.Forall₂ (fun a b => Alike scope.factory links params a.1 b.1 ∧
      Alike scope.factory links params a.2 b.2) branches branches')
    (h : Alike scope.factory links params input input') :
    Alike scope.factory links params (choose branches input) (choose branches' input') := by
  induction hs with
  | nil => exact h
  | cons hbranch _ ih =>
    simp only [choose, List.foldr_cons, hbranch.1.isBoolean_eq] at ih ⊢
    split
    · exact hbranch.2
    · exact .conditional hbranch.1 hbranch.2 ih

/-- The calls of a function of the factory. -/
theorem runtime_alike (name : String) (h : Alike scope.factory links params input input') :
    Alike scope.factory links params (.invoke (scope.runtime name) [input])
      (.invoke (scope.runtime name) [input']) :=
  .invoke (.runtime name) (.cons h .nil)

/-- The calls behind the members of a union. -/
theorem noMatch_alike (type : Ty) (h : Alike scope.factory links params input input) :
    Alike scope.factory links params (scope.noMatch type input) (scope.noMatch type input) :=
  runtime_alike "throws" (.objectOf (.cons ⟨rfl, .string _⟩ (.cons ⟨rfl, h⟩ .nil)))

/-- The texts joined inside brackets. -/
theorem bracketed_alike (opening closing : String)
    (h : Alike scope.factory links params input input') :
    Alike scope.factory links params (bracketed opening input closing)
      (bracketed opening input' closing) :=
  .concatenation (.cons (.string _) (.cons
    (.invoke (.property h _) (.cons (.string _) .nil)) (.cons (.string _) .nil)))

/-- The lists of entries without those that are undefined. -/
theorem present_alike {entries entries' : List Expr}
    (h : List.Forall₂ (Alike scope.factory links params) entries entries') :
    Alike scope.factory links params (present entries) (present entries') :=
  have hlocal : Local "str" := .inl (by simp [parameters])
  .traverse "filter" (.elements h) hlocal
    (.binary _ (.standard (by simp [standardNames])) (.parameter List.mem_cons_self hlocal))

end

mutual

/-- A serializer is alike under both numberings. -/
theorem serialize_alike (hlinks : final.LinkedBy links final') (type : Ty) (depth : Nat)
    {input : Expr} {params : List String} (hinput : Alike scope.factory links params input input) :
    Relates final final' (Alike scope.factory links params) (scope.serialize type depth input)
      (scope.serialize type depth input) := by
  cases type with
  | mk kind aliasName =>
    rw [serialize]
    exact serializeKind_alike hlinks kind aliasName depth hinput

/-- A serializer of a kind of type is alike under both numberings. -/
theorem serializeKind_alike (hlinks : final.LinkedBy links final') (kind : TyKind)
    (aliasName : Option String) (depth : Nat) {input : Expr} {params : List String}
    (hinput : Alike scope.factory links params input input) :
    Relates final final' (Alike scope.factory links params)
      (scope.serializeKind kind aliasName depth input)
      (scope.serializeKind kind aliasName depth input) := by
  cases kind with
  | string =>
    rw [serializeKind]
    exact .pure (runtime_alike "string" hinput)
  | number =>
    rw [serializeKind]
    exact .pure (runtime_alike "number" hinput)
  | boolean =>
    rw [serializeKind]
    exact .pure (.invoke (.standard (by simp [standardNames])) (.cons hinput .nil))
  | null =>
    rw [serializeKind]
    exact .pure (.string _)
  | literalString value =>
    rw [serializeKind]
    exact .pure (.string _)
  | literalNumber value =>
    rw [serializeKind]
    exact .pure (.string _)
  | literalBoolean value =>
    rw [serializeKind]
    exact .pure (.string _)
  | date =>
    rw [serializeKind]
    exact .pure (runtime_alike "string" (.invoke (.property hinput _) .nil))
  | array element =>
    rw [serializeKind]
    refine .bind_pure (serialize_alike hlinks element (depth + 1)
      (.bindingName params (by simp [binders]) depth)) fun text text' htext => ?_
    exact bracketed_alike "[" "]"
      (.traverse "map" hinput (.bindingName (by simp [binders]) depth) htext)
  | tuple elements =>
    rw [serializeKind]
    refine .bind_pure (serializeElements_alike hlinks elements depth 0 hinput)
      fun _ _ hparts => ?_
    exact .concatenation (.cons (.string _) (List.rel_append hparts (.cons (.string _) .nil)))
  | object properties =>
    rw [serializeKind]
    split
    · exact .bind_pure (serializeEntries_alike hlinks properties depth hinput)
        fun _ _ hentries => bracketed_alike _ _ (present_alike hentries)
    · refine .bind_pure (serializeProperties_alike hlinks properties depth true hinput)
        fun _ _ hparts => ?_
      exact .concatenation (.cons (.string _) (List.rel_append hparts (.cons (.string _) .nil)))
  | record value =>
    rw [serializeKind]
    have hkey : Alike scope.factory links (bindingName depth "key" :: params)
        (.identifier (bindingName depth "key")) (.identifier (bindingName depth "key")) :=
      .bindingName params (by simp [binders]) depth
    refine .bind_pure (serialize_alike hlinks value (depth + 1)
      (.element (hinput.mono (List.subset_cons_self _ _)) hkey)) fun text text' htext => ?_
    refine bracketed_alike _ _ (.traverse "map" (hinput.objectPart "keys")
      (.bindingName (by simp [binders]) depth) ?_)
    exact .concatenation (.cons (runtime_alike "string" hkey)
      (.cons (.string _) (.cons htext .nil)))
  | reference name =>
    rw [serializeKind]
    exact .bind_pure (callHelper_alike scope hlinks .serialize name (.cons hinput .nil)
      hinput.standardJson) fun _ _ hcall => hcall
  | union members =>
    rw [serializeKind]
    exact .bind_pure (serializeMembers_alike hlinks members false depth hinput)
      fun _ _ hbranches => choose_alike hbranches (noMatch_alike _ hinput)
  | _ =>
    rw [serializeKind]
    exact .pure hinput.standardJson

/-- The parts for tuple elements are alike one by one. -/
theorem serializeElements_alike (hlinks : final.LinkedBy links final') (elements : List Ty)
    (depth position : Nat) {input : Expr} {params : List String}
    (hinput : Alike scope.factory links params input input) :
    Relates final final' (List.Forall₂ (Alike scope.factory links params))
      (scope.serializeElements elements depth input position)
      (scope.serializeElements elements depth input position) := by
  cases elements with
  | nil =>
    rw [serializeElements]
    exact .pure .nil
  | cons element rest =>
    rw [serializeElements]
    refine .bind scope.definitions (serialize_alike hlinks element depth
        (.element hinput (.number _)))
      (fun _ => .bind (serializeElements_asking scope rest depth input _) fun _ => .pure _)
      fun text text' htext => ?_
    refine .bind_pure (serializeElements_alike hlinks rest depth (position + 1) hinput)
      fun texts texts' htexts => ?_
    split
    · exact .cons htext htexts
    · exact .cons (.string _) (.cons htext htexts)

/-- The parts for properties that are all there are alike one by one. -/
theorem serializeProperties_alike (hlinks : final.LinkedBy links final')
    (properties : List TyProperty) (depth : Nat) (first : Bool) {input : Expr}
    {params : List String} (hinput : Alike scope.factory links params input input) :
    Relates final final' (List.Forall₂ (Alike scope.factory links params))
      (scope.serializeProperties properties depth input first)
      (scope.serializeProperties properties depth input first) := by
  cases properties with
  | nil =>
    rw [serializeProperties]
    exact .pure .nil
  | cons property rest =>
    obtain ⟨name, type, optional, _⟩ := property
    rw [serializeProperties]
    refine .bind scope.definitions (serialize_alike hlinks type depth (hinput.member name))
      (fun _ => .bind (serializeProperties_asking scope rest depth input _) fun _ => .pure _)
      fun text text' htext => ?_
    exact .bind_pure (serializeProperties_alike hlinks rest depth false hinput)
      fun texts texts' htexts => .cons (.string _) (.cons htext htexts)

/-- The entries for properties that may be absent are alike one by one. -/
theorem serializeEntries_alike (hlinks : final.LinkedBy links final')
    (properties : List TyProperty) (depth : Nat) {input : Expr} {params : List String}
    (hinput : Alike scope.factory links params input input) :
    Relates final final' (List.Forall₂ (Alike scope.factory links params))
      (scope.serializeEntries properties depth input)
      (scope.serializeEntries properties depth input) := by
  cases properties with
  | nil =>
    rw [serializeEntries]
    exact .pure .nil
  | cons property rest =>
    obtain ⟨name, type, optional, _⟩ := property
    rw [serializeEntries]
    refine .bind scope.definitions (serializeDefined_alike hlinks type depth (hinput.member name))
      (fun _ => .bind (serializeEntries_asking scope rest depth input) fun _ => .pure _)
      fun text text' htext => ?_
    have hentry : Alike scope.factory links params
        (.concatenation [.string (Json.quote name ++ ":"), text])
        (.concatenation [.string (Json.quote name ++ ":"), text']) :=
      .concatenation (.cons (.string _) (.cons htext .nil))
    refine .bind_pure (serializeEntries_alike hlinks rest depth hinput)
      fun entries entries' hentries => .cons ?_ hentries
    split
    · exact .conditional (hinput.member name).isUndefined (.standard (by simp [standardNames]))
        hentry
    · exact hentry

/-- The serializer of a value that is not undefined is alike under both numberings. -/
theorem serializeDefined_alike (hlinks : final.LinkedBy links final') (type : Ty) (depth : Nat)
    {input : Expr} {params : List String} (hinput : Alike scope.factory links params input input) :
    Relates final final' (Alike scope.factory links params)
      (scope.serializeDefined type depth input) (scope.serializeDefined type depth input) := by
  obtain ⟨kind, aliasName⟩ := type
  cases kind with
  | union members =>
    rw [serializeDefined]
    split
    · exact .pure hinput.standardJson
    · exact serializeOnly_alike hlinks members depth hinput
    · exact .bind_pure (serializeMembers_alike hlinks members true depth hinput)
        fun _ _ hbranches => choose_alike hbranches (noMatch_alike _ hinput)
  | _ =>
    rw [serializeDefined]
    · exact serializeKind_alike hlinks _ aliasName depth hinput
    · intros
      contradiction

/-- The serializer of the only member that is left is alike under both numberings. -/
theorem serializeOnly_alike (hlinks : final.LinkedBy links final') (members : List Ty)
    (depth : Nat) {input : Expr} {params : List String}
    (hinput : Alike scope.factory links params input input) :
    Relates final final' (Alike scope.factory links params)
      (scope.serializeOnly members depth input) (scope.serializeOnly members depth input) := by
  cases members with
  | nil =>
    rw [serializeOnly]
    exact .pure hinput.standardJson
  | cons member rest =>
    rw [serializeOnly]
    split
    · exact serializeOnly_alike hlinks rest depth hinput
    · exact serialize_alike hlinks member depth hinput

/-- The branches of a union are alike one by one, checks and serializers. -/
theorem serializeMembers_alike (hlinks : final.LinkedBy links final') (members : List Ty)
    (defined : Bool) (depth : Nat) {input : Expr} {params : List String}
    (hinput : Alike scope.factory links params input input) :
    Relates final final' (List.Forall₂ fun a b => Alike scope.factory links params a.1 b.1 ∧
        Alike scope.factory links params a.2 b.2)
      (scope.serializeMembers members defined depth input)
      (scope.serializeMembers members defined depth input) := by
  cases members with
  | nil =>
    rw [serializeMembers]
    exact .pure .nil
  | cons member rest =>
    rw [serializeMembers]
    split
    · exact serializeMembers_alike hlinks rest defined depth hinput
    · refine .bind scope.definitions (check_alike scope hlinks member depth hinput)
        (fun _ => .bind (serialize_asking scope member depth input) fun _ =>
          .bind (serializeMembers_asking scope rest defined depth input) fun _ => .pure _)
        fun condition condition' hcondition => ?_
      refine .bind_both scope.definitions (serialize_alike hlinks member depth hinput)
        (fun _ => .bind (serializeMembers_asking scope rest defined depth input) fun _ => .pure _)
        (fun _ => .bind (serializeMembers_asking scope rest defined depth input) fun _ => .pure _)
        fun text text' htext => ?_
      exact .bind_pure (serializeMembers_alike hlinks rest defined depth hinput)
        fun _ _ hbranches => .cons ⟨hcondition, htext⟩ hbranches

end

/-! ## Validators -/

section

variable {scope} {params : List String} {path path' input input' : Expr}

/-- The conditions whose failure is reported; the reporter is called like itself. -/
theorem orReport_alike (hreporter : links reporter reporter) {condition condition' : Expr}
    (hcondition : Alike scope.factory links params condition condition')
    (hpath : Alike scope.factory links params path path') (expected : String)
    (hinput : Alike scope.factory links params input input') :
    Alike scope.factory links params (orReport condition path expected input)
      (orReport condition' path' expected input') :=
  .disjunction (.cons hcondition (.cons (.invoke (.linked hreporter)
    (.cons hpath (.cons (.string _) (.cons hinput .nil)))) .nil))

/-- The tests of all flags of an array. -/
theorem everyFlag_alike (h : Alike scope.factory links params input input') :
    Alike scope.factory links params (everyFlag input) (everyFlag input') :=
  have hlocal : Local "flag" := .inl (by simp [parameters])
  .traverse "every" h hlocal (.parameter List.mem_cons_self hlocal)

/-- The conditions on a container and its parts. -/
theorem combine_alike (h : Alike scope.factory links params input input')
    {items items' : List Expr}
    (hs : List.Forall₂ (Alike scope.factory links params) items items') :
    Alike scope.factory links params (combine input items) (combine input' items') := by
  cases hs with
  | nil => exact h
  | cons hfirst hrest =>
    exact .conjunction (.cons h (.cons (everyFlag_alike (.elements (.cons hfirst hrest))) .nil))

/-- The paths with a computed step. -/
theorem indexed_alike (hpath : Alike scope.factory links params path path)
    (h : Alike scope.factory links params input input) :
    Alike scope.factory links params (indexed path input) (indexed path input) :=
  .concatenation (.cons hpath (.cons (.string _) (.cons h (.cons (.string _) .nil))))

/-- The paths with a literal step. -/
theorem step_alike (hpath : Alike scope.factory links params path path) (step : String) :
    Alike scope.factory links params (.concatenation [path, .string step])
      (.concatenation [path, .string step]) :=
  .concatenation (.cons hpath (.cons (.string _) .nil))

end

mutual

/-- A validator is alike under both numberings. -/
theorem validate_alike (hlinks : final.LinkedBy links final') (hreporter : links reporter reporter)
    (type : Ty) (depth : Nat) (expected : String) {input path : Expr} {params : List String}
    (hinput : Alike scope.factory links params input input)
    (hpath : Alike scope.factory links params path path) :
    Relates final final' (Alike scope.factory links params)
      (scope.validate type depth input path expected)
      (scope.validate type depth input path expected) := by
  cases type with
  | mk kind _ =>
    rw [validate]
    exact validateKind_alike hlinks hreporter kind depth expected hinput hpath

/-- A validator of a kind of type is alike under both numberings. -/
theorem validateKind_alike (hlinks : final.LinkedBy links final')
    (hreporter : links reporter reporter) (kind : TyKind) (depth : Nat) (expected : String)
    {input path : Expr} {params : List String}
    (hinput : Alike scope.factory links params input input)
    (hpath : Alike scope.factory links params path path) :
    Relates final final' (Alike scope.factory links params)
      (scope.validateKind kind depth input path expected)
      (scope.validateKind kind depth input path expected) := by
  cases kind with
  | reference name =>
    rw [validateKind]
    exact .bind_pure (callHelper_alike scope hlinks .validate name
      (.cons hinput (.cons hpath .nil)) (.boolean true)) fun _ _ hcall => hcall
  | array element =>
    rw [validateKind]
    have hhead := orReport_alike hreporter hinput.isArray hpath expected hinput
    have helem := Local.bindingName (by simp [binders] : "elem" ∈ binders) depth
    have hindex := Local.bindingName (by simp [binders] : "index" ∈ binders) depth
    refine .bind scope.definitions (validate_alike hlinks hreporter element (depth + 1)
        (scope.expected element) (.parameter List.mem_cons_self helem)
        (indexed_alike (hpath.mono (List.subset_append_right
            [bindingName depth "elem", bindingName depth "index"] params))
          (.parameter (by simp) hindex)))
      (fun _ => by split <;> exact .pure _) fun item item' hitem => ?_
    rw [hitem.isBoolean_eq]
    split
    · exact .pure hhead
    · exact .pure (.conjunction (.cons hhead (.cons (everyFlag_alike (.invoke (.property hinput _)
        (.cons (.lambda (by simp [helem, hindex]) hitem) .nil))) .nil)))
  | tuple elements =>
    rw [validateKind]
    refine .bind_pure (validateElements_alike hlinks hreporter elements depth 0 hinput hpath)
      fun _ _ hitems => combine_alike (orReport_alike hreporter ?_ hpath expected hinput) hitems
    exact .conjunction (.cons hinput.isArray
      (.cons (.binary _ (.number _) (.property hinput _)) .nil))
  | object properties =>
    rw [validateKind]
    exact .bind_pure (validateProperties_alike hlinks hreporter properties depth hinput hpath)
      fun _ _ hitems => combine_alike (orReport_alike hreporter
        (.conjunction hinput.objectConditions) hpath expected hinput) hitems
  | record value =>
    rw [validateKind]
    have hhead := orReport_alike hreporter (.conjunction hinput.objectConditions) hpath expected
      hinput
    have hkey : Alike scope.factory links (bindingName depth "key" :: params)
        (.identifier (bindingName depth "key")) (.identifier (bindingName depth "key")) :=
      .bindingName params (by simp [binders]) depth
    have hwider := List.subset_cons_self (bindingName depth "key") params
    refine .bind scope.definitions (validate_alike hlinks hreporter value (depth + 1)
        (scope.expected value) (.element (hinput.mono hwider) hkey)
        (indexed_alike (hpath.mono hwider) hkey.standardJson))
      (fun _ => by split <;> exact .pure _) fun item item' hitem => ?_
    rw [hitem.isBoolean_eq]
    split
    · exact .pure hhead
    · exact .pure (.conjunction (.cons hhead (.cons (everyFlag_alike (.traverse "map"
        (hinput.objectPart "keys") (.bindingName (by simp [binders]) depth) hitem)) .nil)))
  | _ =>
    rw [validateKind]
    · refine .bind scope.definitions (checkKind_alike scope hlinks _ depth hinput)
        (fun _ => by split <;> exact .pure _) fun condition condition' hcondition => ?_
      rw [hcondition.isBoolean_eq]
      split
      · exact .pure hcondition
      · exact .pure (orReport_alike hreporter hcondition hpath expected hinput)
    all_goals
      intros
      contradiction

/-- The validators of tuple elements are alike one by one. -/
theorem validateElements_alike (hlinks : final.LinkedBy links final')
    (hreporter : links reporter reporter) (elements : List Ty) (depth position : Nat)
    {input path : Expr} {params : List String}
    (hinput : Alike scope.factory links params input input)
    (hpath : Alike scope.factory links params path path) :
    Relates final final' (List.Forall₂ (Alike scope.factory links params))
      (scope.validateElements elements depth input path position)
      (scope.validateElements elements depth input path position) := by
  cases elements with
  | nil =>
    rw [validateElements]
    exact .pure .nil
  | cons element rest =>
    rw [validateElements]
    refine .bind scope.definitions (validate_alike hlinks hreporter element depth
        (scope.expected element) (.element hinput (.number _)) (step_alike hpath _))
      (fun _ => .bind (validateElements_asking scope rest depth input path _) fun _ => .pure _)
      fun item item' hitem => ?_
    refine .bind_pure (validateElements_alike hlinks hreporter rest depth (position + 1) hinput
      hpath) fun items items' hitems => ?_
    rw [hitem.isBoolean_eq]
    split
    · exact hitems
    · exact .cons hitem hitems

/-- The validators of properties are alike one by one. -/
theorem validateProperties_alike (hlinks : final.LinkedBy links final')
    (hreporter : links reporter reporter) (properties : List TyProperty) (depth : Nat)
    {input path : Expr} {params : List String}
    (hinput : Alike scope.factory links params input input)
    (hpath : Alike scope.factory links params path path) :
    Relates final final' (List.Forall₂ (Alike scope.factory links params))
      (scope.validateProperties properties depth input path)
      (scope.validateProperties properties depth input path) := by
  cases properties with
  | nil =>
    rw [validateProperties]
    exact .pure .nil
  | cons property rest =>
    obtain ⟨name, type, optional, _⟩ := property
    rw [validateProperties]
    refine .bind scope.definitions (validate_alike hlinks hreporter type depth
        (scope.expected type) (hinput.member name) (step_alike hpath _))
      (fun _ => .bind (validateProperties_asking scope rest depth input path) fun _ => .pure _)
      fun item item' hitem => ?_
    refine .bind_pure (validateProperties_alike hlinks hreporter rest depth hinput hpath)
      fun items items' hitems => ?_
    rw [hitem.isBoolean_eq]
    split
    · exact hitems
    · refine .cons ?_ hitems
      split
      · exact .disjunction (.cons (hinput.member name).isUndefined (.cons hitem .nil))
      · exact hitem

end

end Scope

end TypedRoutes
