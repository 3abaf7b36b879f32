import TypedRoutes.Proofs.Generation.Steps
import Mathlib.Data.List.ProdSigma
import Mathlib.Data.List.Perm.Subperm

/-!
# Draining the queue

The queue of helpers runs empty: there are at most three helpers for every definition, and each is
generated once. So every helper that generated code calls is declared.
-/

namespace TypedRoutes

namespace Registry

/-- No two helpers of one kind are for the same type. -/
theorem Sound.nodup_kind_typeName {definitions : TypeTable} {registry : Registry}
    (h : Sound definitions registry) :
    (registry.requested.map fun helper => (helper.kind, helper.typeName)).Nodup := by
  refine List.Nodup.map_on (fun a ha b hb hpair => ?_) h.requested_nodup
  obtain ⟨hkind, htype⟩ := Prod.mk.injEq .. ▸ hpair
  refine h.helper_ext ha hb hkind ?_
  rw [h.index_eq a ha, h.index_eq b hb, htype]

/-- No more helpers are asked for than one of each kind for every definition. -/
theorem Sound.length_requested_le {definitions : TypeTable} {registry : Registry}
    (h : Sound definitions registry) : registry.requested.length ≤ 3 * definitions.size := by
  let all := [HelperKind.check, .serialize, .validate] ×ˢ definitions.keys
  have hsubset : (registry.requested.map fun helper => (helper.kind, helper.typeName)) ⊆ all := by
    intro entry hentry
    obtain ⟨helper, hhelper, rfl⟩ := List.mem_map.mp hentry
    refine List.mem_product.mpr ⟨?_, KeyMap.mem_keys_of_contains (h.defined helper hhelper)⟩
    cases helper.kind <;> simp
  have hle := (List.subperm_of_subset h.nodup_kind_typeName hsubset).length_le
  rw [List.length_map, List.length_product] at hle
  simpa [KeyMap.keys, KeyMap.size] using hle

/-- What waits does not matter for a registry to be sound. -/
theorem Sound.with_pending {definitions : TypeTable} {registry : Registry}
    (h : Sound definitions registry) (pending : List Helper) :
    Sound definitions { registry with pending } :=
  ⟨h.names_nodup, h.requested_nodup, h.named, h.index_eq, h.defined⟩

end Registry

namespace Scope

open Generate

variable (scope : Scope) (depth : Nat)

theorem drainWithin_of_nil {registry : Registry} (h : registry.pending = []) (fuel : Nat) :
    (scope.drainWithin depth fuel).run registry = ([], registry) := by
  cases fuel with
  | zero => rfl
  | succ fuel =>
    simp only [drainWithin, Registry.nextPending, StateT.run_bind, StateT.run_get, pure_bind, h]
    rfl

/-- One round: the helper that has waited longest is generated, then the others are. -/
theorem drainWithin_of_cons {registry : Registry} {helper : Helper} {rest : List Helper}
    {definition : Ty} (h : registry.pending = helper :: rest)
    (hdefinition : scope.definitions.get? helper.typeName = some definition) (fuel : Nat) :
    (scope.drainWithin depth (fuel + 1)).run registry =
      let round :=
        (scope.helperClosure depth helper definition).run { registry with pending := rest }
      let others := (scope.drainWithin depth fuel).run round.2
      ((helper, round.1) :: others.1, others.2) := by
  simp only [drainWithin, Registry.nextPending, StateT.run_bind, StateT.run_get, pure_bind, h,
    StateT.run_set, hdefinition]
  rfl

/-- A helper without definition is passed over. -/
theorem drainWithin_of_undefined {registry : Registry} {helper : Helper} {rest : List Helper}
    (h : registry.pending = helper :: rest)
    (hundefined : scope.definitions.get? helper.typeName = none) (fuel : Nat) :
    (scope.drainWithin depth (fuel + 1)).run registry =
      (scope.drainWithin depth fuel).run { registry with pending := rest } := by
  simp only [drainWithin, Registry.nextPending, StateT.run_bind, StateT.run_get, pure_bind, h,
    StateT.run_set, hundefined]

/-- The helpers were all generated: exactly those that were asked for, each from its definition. -/
structure Drained (final : Registry) (generated : List (Helper × Expr)) : Prop where
  sound : Registry.Sound scope.definitions final
  requested : final.requested = generated.map Prod.fst
  gives : ∀ entry ∈ generated, ∃ definition,
    scope.definitions.get? entry.1.typeName = some definition ∧
      Gives final (scope.helperClosure depth entry.1 definition) entry.2

/-- With fuel for all helpers that were not generated yet, the queue runs empty. -/
theorem drainWithin_complete (fuel : Nat) : ∀ (registry : Registry) (done : List Helper),
    Registry.Sound scope.definitions registry → registry.requested = done ++ registry.pending →
    scope.helperBound ≤ done.length + fuel →
    ∃ generated final, (scope.drainWithin depth fuel).run registry = (generated, final) ∧
      Registry.Sound scope.definitions final ∧ final.pending = [] ∧
      final.requested = done ++ generated.map Prod.fst ∧
      registry.requested ⊆ final.requested ∧
      ∀ entry ∈ generated, ∃ definition,
        scope.definitions.get? entry.1.typeName = some definition ∧
          Gives final (scope.helperClosure depth entry.1 definition) entry.2 := by
  -- `done` lists the helpers that were taken; with those that wait they are all that were asked for
  induction fuel with
  | zero =>
    intro registry done hsound hqueue hfuel
    -- as many helpers as there can be were taken, so that none is left to wait
    have hnone : registry.pending = [] := by
      have hle := hsound.length_requested_le
      rw [hqueue, List.length_append] at hle
      rw [helperBound] at hfuel
      exact List.length_eq_zero_iff.mp (by omega)
    refine ⟨[], registry, drainWithin_of_nil scope depth hnone 0, hsound, hnone, ?_,
      List.Subset.refl _, by simp⟩
    simpa [hnone] using hqueue
  | succ fuel ih =>
    intro registry done hsound hqueue hfuel
    cases hpending : registry.pending with
    | nil =>
      refine ⟨[], registry, drainWithin_of_nil scope depth hpending _, hsound, hpending, ?_,
        List.Subset.refl _, by simp⟩
      simpa [hpending] using hqueue
    | cons helper rest =>
      have hmem : helper ∈ registry.requested := by simp [hqueue, hpending]
      obtain ⟨definition, hdefinition⟩ := Option.isSome_iff_exists.mp (hsound.defined helper hmem)
      let taken : Registry := { registry with pending := rest }
      have hround := drainWithin_of_cons scope depth hpending hdefinition fuel
      have hasks := helperClosure_asking scope depth helper definition taken
      obtain ⟨added, hrequested, hwaiting⟩ := hasks.extends
      have hsubset := hasks.requested_subset
      set round := (scope.helperClosure depth helper definition).run taken
      have hnext : round.2.requested = (done ++ [helper]) ++ round.2.pending := by
        rw [hrequested, hwaiting]
        simp [taken, hqueue, hpending]
      obtain ⟨generated, final, hrun, hfinal, hnone, hall, hlater, hgives⟩ :=
        ih round.2 (done ++ [helper]) ((hsound.with_pending rest).asks hasks) hnext
          (by simp only [List.length_append, List.length_singleton]; omega)
      refine ⟨(helper, round.1) :: generated, final, ?_, hfinal, hnone, ?_,
        List.Subset.trans hsubset hlater, ?_⟩
      · rw [hround]
        simp only [hrun]
      · simp [hall]
      · intro entry hentry
        rcases List.mem_cons.mp hentry with rfl | hentry
        · exact ⟨definition, hdefinition, taken, rfl, hlater⟩
        · exact hgives entry hentry

/-- A step followed by the declaration of the helpers it asked for. -/
def withHelpers {α : Type} (step : Generate α) : Generate (α × List Stmt) := do
  let value ← step
  return (value, ← scope.drain depth)

/-- Generation from an empty registry ends with no helper waiting, and declares every helper that
generated code calls. -/
theorem withHelpers_run {α : Type} {step : Generate α} (h : Asking scope.definitions step) :
    ∃ value generated final, (scope.withHelpers depth step).run .empty =
        ((value, (generated.mergeSort declaredBefore).map declareHelper), final) ∧
      final.pending = [] ∧ Gives final step value ∧ scope.Drained depth final generated := by
  have hasks := h .empty
  obtain ⟨added, hrequested, hpending⟩ := hasks.extends
  set first := step.run .empty
  obtain ⟨generated, final, hrun, hsound, hnone, hall, hlater, hgives⟩ :=
    drainWithin_complete scope depth scope.helperBound first.2 []
      ((Registry.Sound.empty scope.definitions).asks hasks)
      (by rw [hrequested, hpending]; rfl) (by simp)
  refine ⟨first.1, generated, final, ?_, hnone, ⟨.empty, rfl, hlater⟩, hsound, by simpa using hall,
    hgives⟩
  have hdrain : (scope.drain depth).run first.2 =
      ((generated.mergeSort declaredBefore).map declareHelper, final) := by
    simp only [drain, StateT.run_bind, hrun]
    rfl
  simp only [withHelpers, StateT.run_bind]
  change ((first.1, ((scope.drain depth).run first.2).1), ((scope.drain depth).run first.2).2) = _
  rw [hdrain]

theorem withHelpers_drained {α : Type} {step : Generate α} (h : Asking scope.definitions step) :
    ∃ value generated final, ((scope.withHelpers depth step).run .empty).1 =
        (value, (generated.mergeSort declaredBefore).map declareHelper) ∧
      Gives final step value ∧ scope.Drained depth final generated := by
  obtain ⟨value, generated, final, hrun, -, hgives, hdrained⟩ := scope.withHelpers_run depth h
  exact ⟨value, generated, final, congrArg Prod.fst hrun, hgives, hdrained⟩

/-! ## Kinds of helpers -/

/-- The step asks for no helpers but those of some kinds. -/
def AsksOnly (kinds : HelperKind → Prop) {α : Type} (step : Generate α) : Prop :=
  ∀ registry : Registry, (∀ helper ∈ registry.requested, kinds helper.kind) →
    ∀ helper ∈ (step.run registry).2.requested, kinds helper.kind

theorem asksOnly (kinds : HelperKind → Prop) : Composed scope kinds (AsksOnly kinds) where
  pure _ _ hregistry := hregistry
  bind hstep hnext registry hregistry := hnext _ _ (hstep registry hregistry)
  callHelper hkind name arguments registry hregistry := by
    rw [callHelper]
    split
    · exact hregistry
    · intro helper hhelper
      change helper ∈ (registry.request _ name).2.requested at hhelper
      rw [Registry.request_snd] at hhelper
      split at hhelper
      · exact hregistry helper hhelper
      · rcases List.mem_append.mp hhelper with hold | hadded
        · exact hregistry helper hold
        · rw [List.mem_singleton.mp hadded]
          exact hkind

/-- Draining the queue asks for helpers of the same kinds and for checks. -/
theorem drainWithin_kinds {kinds : HelperKind → Prop} (hcheck : kinds .check) (fuel : Nat) :
    ∀ registry : Registry, registry.pending ⊆ registry.requested →
      (∀ helper ∈ registry.requested, kinds helper.kind) →
      ∀ helper ∈ ((scope.drainWithin depth fuel).run registry).2.requested, kinds helper.kind := by
  induction fuel with
  | zero => exact fun _ _ hregistry => hregistry
  | succ fuel ih =>
    intro registry hsubset hregistry
    cases hpending : registry.pending with
    | nil =>
      rw [drainWithin_of_nil scope depth hpending]
      exact hregistry
    | cons helper rest =>
      rw [hpending] at hsubset
      have hhelper : helper ∈ registry.requested := hsubset List.mem_cons_self
      have hrest : rest ⊆ registry.requested := fun _ h => hsubset (List.mem_cons_of_mem _ h)
      let taken : Registry := { registry with pending := rest }
      cases hdefinition : scope.definitions.get? helper.typeName with
      | none =>
        rw [drainWithin_of_undefined scope depth hpending hdefinition fuel]
        exact ih taken hrest hregistry
      | some definition =>
        rw [drainWithin_of_cons scope depth hpending hdefinition fuel]
        have hclosure := (scope.asksOnly kinds).helperClosure hcheck depth helper
          (hregistry helper hhelper) definition
        obtain ⟨added, hrequested, hwaiting⟩ :=
          (helperClosure_asking scope depth helper definition taken).extends
        refine ih _ ?_ (hclosure taken hregistry)
        rw [hrequested, hwaiting]
        exact List.append_subset.mpr ⟨List.Subset.trans hrest (List.subset_append_left _ _),
          List.subset_append_right _ _⟩

theorem withHelpers_kinds {kinds : HelperKind → Prop} (hcheck : kinds .check) {α : Type}
    {step : Generate α} (h : Asking scope.definitions step) (hstep : AsksOnly kinds step) :
    ∀ helper ∈ ((scope.withHelpers depth step).run .empty).2.requested, kinds helper.kind := by
  obtain ⟨added, hrequested, hpending⟩ := (h .empty).extends
  exact scope.drainWithin_kinds depth hcheck scope.helperBound (step.run .empty).2
    (by rw [hrequested, hpending]; exact List.Subset.refl _)
    (hstep .empty fun _ hhelper => nomatch hhelper)

end Scope

end TypedRoutes
