import TypedRoutes.Artifact.Closure
import Mathlib.Data.List.Nodup

/-!
# Requests

A step of generation does one thing to the registry: it asks for helpers of named types. Everything
that holds of a registry later follows from what a single request does to it.
-/

namespace TypedRoutes

namespace Registry

/-- The later registry comes from the earlier one by requests for helpers of defined types. -/
inductive Asks (definitions : TypeTable) : Registry → Registry → Prop where
  | refl (registry : Registry) : Asks definitions registry registry
  | request {earlier later : Registry} {kind : HelperKind} {name : String}
      (before : Asks definitions earlier later) (defined : definitions.contains name = true) :
      Asks definitions earlier (later.request kind name).2

variable {definitions : TypeTable} {first second third : Registry}

/-- Requests are put one behind the other. -/
theorem Asks.trans (h : Asks definitions first second) (hs : Asks definitions second third) :
    Asks definitions first third := by
  induction hs with
  | refl => exact h
  | request _ defined ih => exact .request ih defined

/-- What a request leaves: the type is numbered, and the helper waits unless it was asked for
before. -/
theorem request_snd (registry : Registry) (kind : HelperKind) (name : String) :
    (registry.request kind name).2 =
      if ⟨kind, registry.indexOf name, name⟩ ∈ registry.requested then
        { registry with names := registry.withName name }
      else ⟨registry.withName name, registry.requested ++ [⟨kind, registry.indexOf name, name⟩],
        registry.pending ++ [⟨kind, registry.indexOf name, name⟩]⟩ := by
  simp only [request, List.contains_iff_mem]

/-- Requests add the same helpers to those that were asked for and to those that wait. -/
theorem Asks.extends (h : Asks definitions first second) :
    ∃ added, second.requested = first.requested ++ added ∧
      second.pending = first.pending ++ added := by
  induction h with
  | refl => exact ⟨[], by simp⟩
  | @request later kind name _ _ ih =>
    obtain ⟨added, hrequested, hpending⟩ := ih
    rw [request_snd]
    split
    · exact ⟨added, hrequested, hpending⟩
    · exact ⟨added ++ [⟨kind, later.indexOf name, name⟩], by simp [hrequested], by simp [hpending]⟩

/-- Nothing that was asked for is forgotten. -/
theorem Asks.requested_subset (h : Asks definitions first second) :
    first.requested ⊆ second.requested := by
  obtain ⟨added, hrequested, -⟩ := h.extends
  rw [hrequested]
  exact List.subset_append_left _ _

/-- A helper that was asked for is among the requested ones. -/
theorem mem_requested (registry : Registry) (kind : HelperKind) (name : String) :
    ⟨kind, registry.indexOf name, name⟩ ∈ (registry.request kind name).2.requested := by
  rw [request_snd]
  split
  · rename_i h
    exact h
  · simp

/-- Numbers are places among the names, no name and no helper occurs twice, and every helper is for
a defined type. -/
structure Sound (definitions : TypeTable) (registry : Registry) : Prop where
  names_nodup : registry.names.Nodup
  requested_nodup : registry.requested.Nodup
  named : ∀ helper ∈ registry.requested, helper.typeName ∈ registry.names
  index_eq : ∀ helper ∈ registry.requested, helper.index = registry.names.idxOf helper.typeName
  defined : ∀ helper ∈ registry.requested, definitions.contains helper.typeName = true

/-- A registry without requests is sound. -/
theorem Sound.empty (definitions : TypeTable) : Sound definitions Registry.empty where
  names_nodup := .nil
  requested_nodup := .nil
  named := fun _ h => nomatch h
  index_eq := fun _ h => nomatch h
  defined := fun _ h => nomatch h

/-- A name is not entered twice. -/
theorem withName_nodup {registry : Registry} (h : registry.names.Nodup) (name : String) :
    (registry.withName name).Nodup := by
  rw [withName]
  split
  · exact h
  · rename_i hnew
    rw [List.contains_iff_mem] at hnew
    refine List.nodup_append.mpr ⟨h, List.nodup_singleton name, ?_⟩
    rintro known hknown _ hname rfl
    exact hnew (List.mem_singleton.mp hname ▸ hknown)

/-- A name that is entered is there. -/
theorem mem_withName_self (registry : Registry) (name : String) :
    name ∈ registry.withName name := by
  rw [withName]
  split
  · rename_i h
    exact List.contains_iff_mem.mp h
  · simp

/-- A name that was there is still there. -/
theorem mem_withName {registry : Registry} {known : String} (h : known ∈ registry.names)
    (name : String) : known ∈ registry.withName name := by
  rw [withName]
  split
  · exact h
  · exact List.mem_append_left _ h

/-- A type keeps its number. -/
theorem idxOf_withName {registry : Registry} {known : String} (h : known ∈ registry.names)
    (name : String) : (registry.withName name).idxOf known = registry.names.idxOf known := by
  rw [withName]
  split
  · rfl
  · exact List.idxOf_append_of_mem h

/-- A new type gets the next number. -/
theorem idxOf_withName_self (registry : Registry) (name : String) :
    (registry.withName name).idxOf name = registry.indexOf name := by
  rw [withName, indexOf]
  split
  · rfl
  · rename_i hnew
    have hnew : name ∉ registry.names := fun h => hnew (List.contains_iff_mem.mpr h)
    rw [List.idxOf_append_of_notMem hnew, List.idxOf_cons_self, Nat.add_zero,
      List.idxOf_eq_length hnew]

/-- One request keeps a registry sound. -/
theorem Sound.request {registry : Registry} (h : Sound definitions registry) (kind : HelperKind)
    {name : String} (hname : definitions.contains name = true) :
    Sound definitions (registry.request kind name).2 := by
  rw [request_snd]
  split
  · exact
      { names_nodup := withName_nodup h.names_nodup name
        requested_nodup := h.requested_nodup
        named := fun helper hh => mem_withName (h.named helper hh) name
        index_eq := fun helper hh =>
          (h.index_eq helper hh).trans (idxOf_withName (h.named helper hh) name).symm
        defined := h.defined }
  · rename_i hnew
    refine
      { names_nodup := withName_nodup h.names_nodup name
        requested_nodup := ?_
        named := ?_
        index_eq := ?_
        defined := ?_ }
    · refine List.nodup_append.mpr ⟨h.requested_nodup, List.nodup_singleton _, ?_⟩
      rintro helper hh _ hnamed rfl
      exact hnew (List.mem_singleton.mp hnamed ▸ hh)
    all_goals
      intro helper hh
      rcases List.mem_append.mp hh with hold | hadded
    · exact mem_withName (h.named helper hold) name
    · rw [List.mem_singleton.mp hadded]
      exact mem_withName_self registry name
    · exact (h.index_eq helper hold).trans (idxOf_withName (h.named helper hold) name).symm
    · rw [List.mem_singleton.mp hadded]
      exact (idxOf_withName_self registry name).symm
    · exact h.defined helper hold
    · rw [List.mem_singleton.mp hadded]
      exact hname

/-- Any number of requests keep a registry sound. -/
theorem Sound.asks (h : Sound definitions first) (hs : Asks definitions first second) :
    Sound definitions second := by
  induction hs with
  | refl => exact h
  | request _ defined ih => exact ih.request _ defined

/-- In a sound registry the number tells the type, so kind and number tell the helper. -/
theorem Sound.helper_ext {registry : Registry} (h : Sound definitions registry) {a b : Helper}
    (ha : a ∈ registry.requested) (hb : b ∈ registry.requested) (hkind : a.kind = b.kind)
    (hindex : a.index = b.index) : a = b := by
  have htype : a.typeName = b.typeName := by
    rw [h.index_eq a ha, h.index_eq b hb] at hindex
    exact (List.idxOf_inj (h.named a ha)).mp hindex
  obtain ⟨_, _, _⟩ := a
  obtain ⟨_, _, _⟩ := b
  simp_all

end Registry

namespace Generate

variable {definitions : TypeTable} {α β : Type}

/-- The step only asks for helpers of defined types. -/
def Asking (definitions : TypeTable) (step : Generate α) : Prop :=
  ∀ registry, Registry.Asks definitions registry (step.run registry).2

/-- A value asks for nothing. -/
theorem Asking.pure (value : α) : Asking definitions (Pure.pure value : Generate α) :=
  fun registry => .refl registry

/-- Two steps ask for what each of them asks for. -/
theorem Asking.bind {step : Generate α} {next : α → Generate β} (h : Asking definitions step)
    (hn : ∀ value, Asking definitions (next value)) : Asking definitions (step >>= next) :=
  fun registry => (h registry).trans (hn _ _)

/-- A call of a helper asks for that helper of a defined name. -/
theorem Asking.callHelper (scope : Scope) (kind : HelperKind) (name : String)
    (arguments : List Expr) : Asking scope.definitions (scope.callHelper kind name arguments) := by
  rw [Scope.callHelper]
  split
  · exact .pure _
  · rename_i definition hget
    have hdefined : scope.definitions.contains name = true := by
      simp [KeyMap.contains, hget]
    exact .bind (fun registry => .request (.refl registry) hdefined) fun _ => .pure _

/-- The step gave the value in a run in which all helpers that it asked for are among those of the
final registry. -/
def Gives (final : Registry) (step : Generate α) (value : α) : Prop :=
  ∃ registry, (step.run registry).1 = value ∧ (step.run registry).2.requested ⊆ final.requested

variable {final : Registry}

/-- A value is what it is. -/
theorem Gives.of_pure {a b : α} (h : Gives final (Pure.pure a) b) : a = b := by
  obtain ⟨_, hvalue, -⟩ := h
  exact hvalue

/-- A step that asks for nothing on either branch. -/
theorem Gives.of_ite_pure {c : Prop} [Decidable c] {a b result : α}
    (h : Gives final (if c then Pure.pure a else Pure.pure b) result) :
    (if c then a else b) = result := by
  split at h
  · rw [if_pos ‹c›, h.of_pure]
  · rw [if_neg ‹¬ c›, h.of_pure]

/-- What two steps give comes from what the first one gives. -/
theorem Gives.of_bind {step : Generate α} {next : α → Generate β} {b : β}
    (h : Gives final (step >>= next) b) (definitions : TypeTable)
    (hn : ∀ value, Asking definitions (next value)) :
    ∃ a, Gives final step a ∧ Gives final (next a) b := by
  obtain ⟨registry, hvalue, hsubset⟩ := h
  refine ⟨(step.run registry).1, ⟨registry, rfl, fun helper hh => hsubset ?_⟩,
    ⟨(step.run registry).2, hvalue, hsubset⟩⟩
  exact (hn _ (step.run registry).2).requested_subset hh

/-- What is made of the result of a step comes from one. -/
theorem Gives.of_bind_pure {step : Generate α} {f : α → β} {b : β}
    (h : Gives final (do let a ← step; Pure.pure (f a)) b) : ∃ a, Gives final step a ∧ f a = b := by
  obtain ⟨registry, hvalue, hsubset⟩ := h
  exact ⟨(step.run registry).1, ⟨registry, rfl, hsubset⟩, hvalue⟩

/-- The image of a step comes from a result of it. -/
theorem Gives.of_map {step : Generate α} {f : α → β} {b : β} (h : Gives final (f <$> step) b) :
    ∃ a, Gives final step a ∧ f a = b := by
  obtain ⟨registry, hvalue, hsubset⟩ := h
  exact ⟨(step.run registry).1, ⟨registry, rfl, hsubset⟩, hvalue⟩

/-- A type without definition has no helper; for any other a requested helper is called. -/
theorem Gives.of_callHelper {scope : Scope} {kind : HelperKind} {name : String}
    {arguments : List Expr} {result : Option Expr}
    (h : Gives final (scope.callHelper kind name arguments) result) :
    (scope.definitions.get? name = none ∧ result = none) ∨
      ∃ definition index, scope.definitions.get? name = some definition ∧
        ⟨kind, index, name⟩ ∈ final.requested ∧
        result = some (.invoke (.identifier (kind.helperName index)) arguments) := by
  rw [Scope.callHelper] at h
  split at h
  · rename_i hget
    exact .inl ⟨hget, h.of_pure.symm⟩
  · rename_i definition hget
    obtain ⟨registry, hvalue, hsubset⟩ := h
    exact .inr ⟨definition, registry.indexOf name, hget,
      hsubset (registry.mem_requested kind name), hvalue.symm⟩

variable {holds : α → Prop} {given : β → Prop}

/-- The step gives a value with the property, whatever was asked for before. -/
def Ensures (holds : α → Prop) (step : Generate α) : Prop :=
  ∀ registry, holds (step.run registry).1

/-- A value has what it is to have. -/
theorem Ensures.pure {value : α} (h : holds value) : Ensures holds (Pure.pure value) :=
  fun _ => h

theorem Ensures.trivial {step : Generate α} : Ensures (fun _ => True) step :=
  fun _ => True.intro

/-- Two steps have what the second one makes of what the first one has. -/
theorem Ensures.bind {step : Generate β} {next : β → Generate α} (h : Ensures given step)
    (hn : ∀ value, given value → Ensures holds (next value)) : Ensures holds (step >>= next) :=
  fun registry => hn _ (h registry) _

/-- What a step gives has what the step ensures. -/
theorem Ensures.of_gives {step : Generate α} {value : α} (h : Ensures holds step)
    (hgives : Gives final step value) : holds value := by
  obtain ⟨registry, rfl, -⟩ := hgives
  exact h registry

end Generate

end TypedRoutes
