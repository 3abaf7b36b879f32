import TypedRoutes.Proofs.Checks.Guarded
import TypedRoutes.Proofs.Generation.Closed
import TypedRoutes.Proofs.Generation.Congruence
import TypedRoutes.Proofs.Route.Idempotence

/-!
# What an artifact depends on

Helpers are asked for by name, for the type and then for the definitions of the helpers that waited.
So the queue holds names that the type reaches, and two snapshots that define these alike give the
same artifact, whatever else they record: the helpers enter the queue in the same order and get the
same numbers.
-/

namespace TypedRoutes

/-! ## Tables cut down to some names -/

/-- The entries of some keys. -/
def KeyMap.restrict {α : Type} (map : KeyMap α) (keys : List String) : KeyMap α where
  entries := map.entries.filter fun entry => keys.contains entry.1
  sorted := map.sorted.filter _

theorem KeyMap.get?_restrict_of_mem {α : Type} (map : KeyMap α) {keys : List String} {key : String}
    (h : key ∈ keys) : (map.restrict keys).get? key = map.get? key := by
  change (map.entries.filter fun entry => keys.contains entry.1).lookup key = map.entries.lookup key
  induction map.entries with
  | nil => rfl
  | cons entry rest ih =>
    obtain ⟨name, value⟩ := entry
    rw [List.filter_cons]
    by_cases hname : key = name
    · subst hname
      rw [if_pos (List.contains_iff_mem.mpr h), List.lookup_cons_self, List.lookup_cons_self]
    · have hne : (key == name) = false := beq_false_of_ne hname
      split
      · simp only [List.lookup_cons, hne, ih]
      · simp only [List.lookup_cons, hne, ih]

theorem KeyMap.mem_of_contains_restrict {α : Type} {map : KeyMap α} {keys : List String}
    {key : String} (h : (map.restrict keys).contains key = true) : key ∈ keys := by
  obtain ⟨entry, hentry, rfl⟩ := List.mem_map.mp (mem_keys_of_contains h)
  exact List.contains_iff_mem.mp (List.mem_filter.mp hentry).2

theorem TypeTable.agreeOn_restrict (definitions : TypeTable) (names : List String) :
    definitions.AgreeOn (definitions.restrict names) names :=
  fun _ hname => (KeyMap.get?_restrict_of_mem definitions hname).symm

/-! ## The names of helpers that wait -/

/-- A helper that waits waited before or was asked for. -/
theorem Registry.Asks.mem_pending {definitions : TypeTable} {first second : Registry}
    (h : Registry.Asks definitions first second) {helper : Helper}
    (hhelper : helper ∈ second.pending) :
    helper ∈ first.pending ∨ definitions.contains helper.typeName = true := by
  induction h with
  | refl => exact .inl hhelper
  | @request later kind name _ defined ih =>
    rw [request_snd] at hhelper
    split at hhelper
    · exact ih hhelper
    · rcases List.mem_append.mp hhelper with hold | hadded
      · exact ih hold
      · rw [List.mem_singleton.mp hadded]
        exact .inr defined

namespace Scope

open Generate

variable {first second : TypeTable} {factory : Expr} {type : Ty}

variable (first factory) in
/-- The body of a closure asks for helpers of names that the type refers to. -/
theorem mem_pending_body (mode : Mode) (type : Ty) {helper : Helper} {registry : Registry}
    (h : helper ∈ (((Scope.mk factory first).body mode type).run registry).2.pending) :
    helper ∈ registry.pending ∨ helper.typeName ∈ type.references := by
  rw [body_congr (first.agreeOn_restrict type.references)] at h
  have hasks := body_asking (.mk factory (first.restrict type.references)) mode type registry
  exact (hasks.mem_pending h).imp_right KeyMap.mem_of_contains_restrict

variable (first factory) in
/-- The closure of a helper asks for helpers of names that its definition refers to. -/
theorem mem_pending_helperClosure (depth : Nat) (waiting : Helper) (definition : Ty)
    {helper : Helper} {registry : Registry}
    (h : helper ∈ (((Scope.mk factory first).helperClosure depth waiting definition).run
      registry).2.pending) :
    helper ∈ registry.pending ∨ helper.typeName ∈ definition.references := by
  rw [helperClosure_congr (first.agreeOn_restrict definition.references)] at h
  have hasks :=
    helperClosure_asking (.mk factory (first.restrict definition.references)) depth waiting
    definition registry
  exact (hasks.mem_pending h).imp_right KeyMap.mem_of_contains_restrict

/-! ## Two runs -/

/-- From a queue of names that the type reaches, two tables that define these alike give the same
helpers, however much fuel each run has beyond what it needs. -/
theorem drainWithin_agree
    (hagree : ∀ name, first.Reaches type name → first.get? name = second.get? name) (depth : Nat)
    (fuel : Nat) : ∀ (other : Nat) (registry : Registry),
      (∀ helper ∈ registry.pending, first.Reaches type helper.typeName) →
      (((Scope.mk factory first).drainWithin depth fuel).run registry).2.pending = [] →
      (((Scope.mk factory second).drainWithin depth other).run registry).2.pending = [] →
      ((Scope.mk factory first).drainWithin depth fuel).run registry =
        ((Scope.mk factory second).drainWithin depth other).run registry := by
  -- the second run takes the same rounds as the first one, each with fuel of its own
  induction fuel with
  | zero =>
    intro other registry _ hfirst _
    have hnone : registry.pending = [] := hfirst
    rw [drainWithin_of_nil _ depth hnone, drainWithin_of_nil _ depth hnone]
  | succ fuel ih =>
    intro other registry hreached hfirst hsecond
    cases hpending : registry.pending with
    | nil => rw [drainWithin_of_nil _ depth hpending, drainWithin_of_nil _ depth hpending]
    | cons helper rest =>
      obtain _ | other := other
      · have hnone : registry.pending = [] := hsecond
        rw [hpending] at hnone
        cases hnone
      rw [hpending] at hreached
      have hhelper := hreached helper List.mem_cons_self
      have hrest (later : Helper) (hlater : later ∈ rest) : first.Reaches type later.typeName :=
        hreached later (List.mem_cons_of_mem _ hlater)
      cases hdefinition : first.get? helper.typeName with
      | none =>
        have hsame : second.get? helper.typeName = none := (hagree _ hhelper).symm.trans hdefinition
        rw [drainWithin_of_undefined _ depth hpending hdefinition] at hfirst ⊢
        rw [drainWithin_of_undefined _ depth hpending hsame] at hsecond ⊢
        exact ih other _ hrest hfirst hsecond
      | some definition =>
        have hsame : second.get? helper.typeName = some definition :=
          (hagree _ hhelper).symm.trans hdefinition
        have hround : first.AgreeOn second definition.references :=
          fun name hname => hagree name (.through hhelper hdefinition hname)
        rw [drainWithin_of_cons _ depth hpending hdefinition] at hfirst ⊢
        rw [drainWithin_of_cons _ depth hpending hsame, ← helperClosure_congr hround] at hsecond ⊢
        have hwaiting (later : Helper) (hlater : later ∈ (((Scope.mk factory first).helperClosure
            depth helper definition).run { registry with pending := rest }).2.pending) :
            first.Reaches type later.typeName := by
          rcases mem_pending_helperClosure first factory depth helper definition hlater with h | h
          · exact hrest later h
          · exact .through hhelper hdefinition h
        simp only [ih other _ hwaiting hfirst hsecond]

/-- The queue that the body of a closure leaves is drained within the bound. -/
theorem pending_drainWithin_body (scope : Scope) (mode : Mode) (type : Ty) :
    ((scope.drainWithin 0 scope.helperBound).run
      ((scope.body mode type).run .empty).2).2.pending = [] := by
  obtain ⟨added, hrequested, hpending⟩ := (scope.body_asking mode type .empty).extends
  have hqueue : ((scope.body mode type).run .empty).2.requested =
      [] ++ ((scope.body mode type).run .empty).2.pending := by
    rw [hrequested, hpending]
    rfl
  obtain ⟨generated, final, hrun, -, hnone, -⟩ :=
    drainWithin_complete scope 0 scope.helperBound ((scope.body mode type).run .empty).2 []
      ((Registry.Sound.empty scope.definitions).asks (scope.body_asking mode type .empty)) hqueue
      (by simp)
  rw [hrun]
  exact hnone

/-- A closure is the body with the helpers that are generated from the queue it leaves. -/
theorem closure_run_eq (scope : Scope) (mode : Mode) (type : Ty) :
    (scope.closure mode type).run .empty =
      let started := (scope.body mode type).run .empty
      let drained := (scope.drainWithin 0 scope.helperBound).run started.2
      (.lambdaBlock ["input"] (started.1.1 ++ helperStatements drained.1 ++ started.1.2),
        drained.2) := rfl

/-- Two tables that define alike what the type reaches give the same closure, and the same
registry. -/
theorem closure_agree
    (hagree : ∀ name, first.Reaches type name → first.get? name = second.get? name) (mode : Mode) :
    ((Scope.mk factory first).closure mode type).run .empty =
      ((Scope.mk factory second).closure mode type).run .empty := by
  have hbody : (Scope.mk factory first).body mode type = (Scope.mk factory second).body mode type :=
    body_congr (fun name hname => hagree name (.here hname)) mode
  have hreached (helper : Helper) (hhelper : helper ∈
      (((Scope.mk factory first).body mode type).run .empty).2.pending) :
      first.Reaches type helper.typeName := by
    rcases mem_pending_body first factory mode type hhelper with h | h
    · cases h
    · exact .here h
  have hfirst := pending_drainWithin_body (.mk factory first) mode type
  have hsecond := pending_drainWithin_body (.mk factory second) mode type
  rw [← hbody] at hsecond
  have hdrain := drainWithin_agree hagree 0 _ _ _ hreached hfirst hsecond
  rw [closure_run_eq, closure_run_eq, ← hbody]
  simp only [hdrain]

end Scope

/-- An artifact depends only on what its type reaches: two snapshots with the same definitions, or
both none, for the names that the type reaches give the same expression in every mode and with every
factory, whatever else they record and whatever sites are allowed. -/
theorem Project.artifact_of_reached {first second : Snapshot} {type : Ty}
    (hagree : ∀ name, first.definitions.Reaches type name →
      first.definitions.get? name = second.definitions.get? name)
    (allowed others : AllowList) (mode : Mode) (factory : Expr) :
    (first.project allowed mode).artifact factory type =
      (second.project others mode).artifact factory type := by
  rw [Snapshot.project_artifact, Snapshot.project_artifact]
  simp only [TypedRoutes.artifact, Scope.artifactLiteral]
  rw [Scope.closure_agree hagree mode]

/-- A tree: each node has a list of nodes. -/
def nodeDefinition : Ty :=
  (TyKind.object [.mk "children" (TyKind.array (TyKind.reference "Node").type).type false
    none]).type

/-- A snapshot that defines trees and nothing else. -/
def treeSnapshot : Snapshot where
  definitions := KeyMap.empty.insert "Node" nodeDefinition

/-- A snapshot that knows trees and much besides. -/
def crowdedSnapshot : Snapshot where
  symbols := KeyMap.empty.insert "TypedRoute" none
  values := KeyMap.empty.insert "options" TyKind.any.type
  definitions := ((KeyMap.empty.insert "Account" (TyKind.reference "Node").type).insert "Node"
    nodeDefinition).insert "Zone" TyKind.string.type

theorem Project.artifact_of_reached_tree :
    (∀ name, treeSnapshot.definitions.Reaches (TyKind.reference "Node").type name →
      treeSnapshot.definitions.get? name = crowdedSnapshot.definitions.get? name) ∧
    treeSnapshot.definitions.keys ≠ crowdedSnapshot.definitions.keys ∧
    (treeSnapshot.project (.ofRoot "/" "/app") .validate).artifact (.identifier "TypedRoute")
        (TyKind.reference "Node").type =
      (crowdedSnapshot.project (.ofRoot "/srv" "/app") .validate).artifact
        (.identifier "TypedRoute") (TyKind.reference "Node").type := by
  have honly (name : String)
      (h : treeSnapshot.definitions.Reaches (TyKind.reference "Node").type name) :
      name = "Node" := by
    induction h with
    | here hmem => exact List.mem_singleton.mp hmem
    | through _ hdefined hmem ih =>
      subst ih
      obtain rfl : nodeDefinition = _ := Option.some.inj hdefined
      exact List.mem_singleton.mp hmem
  have hagree (name : String)
      (h : treeSnapshot.definitions.Reaches (TyKind.reference "Node").type name) :
      treeSnapshot.definitions.get? name = crowdedSnapshot.definitions.get? name := by
    rw [honly name h]
    rfl
  exact ⟨hagree, by decide, artifact_of_reached hagree _ _ .validate _⟩

end TypedRoutes
