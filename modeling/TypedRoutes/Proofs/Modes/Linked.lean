import TypedRoutes.Proofs.Modes.Closures
import TypedRoutes.Proofs.Runtime.Simulation

/-!
# Linked closures

Two closures for the same type number their helpers each on its own. Helpers of the same kind for
the same type are renamings of one another, and so are the serializers that the closures end with:
what the one yields, the other yields too.
-/

namespace TypedRoutes

open TypedRoutes.Runtime

/-- The names of helpers of the same kind for the same type, validators apart. -/
def Registry.Pairs (first second : Registry) : Naming := fun a b =>
  ∃ kind i j name, kind ≠ HelperKind.validate ∧ ⟨kind, i, name⟩ ∈ first.requested ∧
    ⟨kind, j, name⟩ ∈ second.requested ∧ a = kind.helperName i ∧ b = kind.helperName j

namespace Scope

open Generate

/-- The names that mean the same in every closure. -/
def Shared (scope : Scope) (name : String) : Prop :=
  name = "input" ∨ name ∈ standardNames ∨ name ∈ scope.factory.identifiers

/-- Which names of one closure stand for which names of the other. -/
def naming (scope : Scope) (final final' : Registry) : Naming := fun a b =>
  final.Pairs final' a b ∨ (a = b ∧ scope.Shared a)

variable {scope : Scope} {final final' : Registry} {base base' : Env} {value : Data}

theorem pairs_linkedBy (hkinds : ∀ helper ∈ final.requested, helper.kind ≠ .validate) :
    final.LinkedBy (scope.naming final final') final' :=
  fun kind i j name hfirst hsecond =>
    .inl ⟨kind, i, j, name, hkinds _ hfirst, hfirst, hsecond, rfl, rfl⟩

theorem naming_links {a b : String} (h : final.Pairs final' a b ∨ a = b) :
    a = b ∨ ¬ Local a ∧ ¬ Local b := by
  rcases h with ⟨kind, i, j, name, -, -, -, rfl, rfl⟩ | h
  · exact .inr ⟨kind.not_local_helperName i, kind.not_local_helperName j⟩
  · exact .inl h

/-- Alike expressions are renamed by the naming of their closures. -/
theorem renames_of_alike {params : List String} {expr expr' : Expr}
    (h : Alike scope.factory (scope.naming final final') params expr expr')
    (hparams : ∀ name ∈ params, Local name) :
    Expr.Renames ((scope.naming final final').under params) expr expr' :=
  h.renames (fun _ _ hlink => ⟨hlink, naming_links (hlink.imp_right And.left)⟩)
    (fun _ hname => .inr ⟨rfl, .inr (.inl hname)⟩) (fun _ hname => .inr ⟨rfl, .inr (.inr hname)⟩)
    hparams

/-- The serializers of two closures. -/
theorem serialize_renames (hkinds : ∀ helper ∈ final.requested, helper.kind ≠ .validate)
    {type : Ty} {depth : Nat} {text text' : Expr}
    (hgives : Gives final (scope.serialize type depth input) text)
    (hgives' : Gives final' (scope.serialize type depth input) text') :
    Expr.Renames (scope.naming final final') text text' := by
  have hinput : Alike scope.factory (scope.naming final final') [] input input :=
    .linked (.inr ⟨rfl, .inl rfl⟩)
  have halike := serialize_alike scope (pairs_linkedBy hkinds) type depth hinput _ _ hgives hgives'
  have hrenames := renames_of_alike halike fun _ hname => nomatch hname
  rwa [Naming.under_nil] at hrenames

/-- Helpers of the same kind for the same type. -/
theorem helper_renames (hkinds : ∀ helper ∈ final.requested, helper.kind ≠ .validate)
    {kind : HelperKind} (hkind : kind ≠ .validate) {i j : Nat} {name : String} {definition : Ty}
    {params params' : List String} {body body' : Expr}
    (hgives : Gives final (scope.helperClosure 0 ⟨kind, i, name⟩ definition) (.lambda params body))
    (hgives' : Gives final' (scope.helperClosure 0 ⟨kind, j, name⟩ definition)
      (.lambda params' body')) :
    params = params' ∧ Expr.Renames ((scope.naming final final').under params) body body' := by
  have hinput : Alike scope.factory (scope.naming final final') ["input"] (.identifier "input")
      (.identifier "input") :=
    .parameter List.mem_cons_self (.inl (by simp [parameters]))
  have hlocal : ∀ name ∈ ["input"], Local name := by
    intro name hname
    rw [List.mem_singleton.mp hname]
    exact .inl (by simp [parameters])
  cases kind with
  | check =>
    obtain ⟨condition, hcondition, heq⟩ := hgives.of_map
    obtain ⟨condition', hcondition', heq'⟩ := hgives'.of_map
    cases heq
    cases heq'
    refine ⟨rfl, renames_of_alike ?_ hlocal⟩
    exact check_alike scope (pairs_linkedBy hkinds) _ 0 hinput _ _ hcondition hcondition'
  | serialize =>
    obtain ⟨text, htext, heq⟩ := hgives.of_map
    obtain ⟨text', htext', heq'⟩ := hgives'.of_map
    cases heq
    cases heq'
    refine ⟨rfl, renames_of_alike ?_ hlocal⟩
    exact serialize_alike scope (pairs_linkedBy hkinds) _ 0 hinput _ _ htext htext'
  | validate => exact absurd rfl hkind

theorem standard?_isSome {name : String} (h : name ∈ standardNames) :
    (standard? name).isSome = true := by
  simp only [standardNames, List.mem_cons, List.not_mem_nil, or_false] at h
  rcases h with rfl | rfl | rfl | rfl | rfl | rfl | rfl <;> rfl

/-- The two closures side by side. -/
def linkage (scope : Scope) (final final' : Registry) (base base' : Env) (lead lead' : Heap) :
    Linkage :=
  ⟨scope.naming final final', base, base', lead, lead'⟩

theorem Hosts.linked (h : scope.Hosts value final base) (h' : scope.Hosts value final' base')
    (hkinds : ∀ helper ∈ final.requested, helper.kind ≠ .validate) (lead lead' : Heap) :
    (scope.linkage final final' base base' lead lead').Linked := by
  rintro a b (⟨kind, i, j, name, hkind, hfirst, hsecond, rfl, rfl⟩ | ⟨rfl, hshared⟩)
  · obtain ⟨definition, params, body, hdefinition, hgives, hlookup⟩ := h.ready.links _ hfirst
    obtain ⟨definition', params', body', hdefinition', hgives', hlookup'⟩ :=
      h'.ready.links _ hsecond
    obtain rfl : definition = definition' := Option.some.inj (hdefinition.symm.trans hdefinition')
    obtain ⟨rfl, hbody⟩ := helper_renames hkinds hkind hgives hgives'
    exact .inr ⟨_, _, hlookup, hlookup', .closure .base (.concise hbody)⟩
  · rcases hshared with rfl | hstandard | hfactory
    · exact .inr ⟨_, _, h.input, h'.input, .data value⟩
    · obtain ⟨found, hfound⟩ := Option.isSome_iff_exists.mp (standard?_isSome hstandard)
      exact .inl ⟨rfl, h.ready.standard a found hfound, h'.ready.standard a found hfound⟩
    · exact .inl ⟨rfl, h.free a hfactory, h'.free a hfactory⟩

end Scope

end TypedRoutes
