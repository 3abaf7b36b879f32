import TypedRoutes.Types.Table
import Mathlib.Data.Fintype.EquivFin
import Mathlib.Order.WellFounded
import Mathlib.Data.Set.Finite.Basic
import Mathlib.Logic.Relation

/-!
# Guarded definitions

A reference stands for its definition on the same value, and so do the members of unions and
intersections. A definition that comes back to itself on the same value says nothing about it. Where
no definition does that, references can be resolved one after the other until none is left.
-/

namespace TypedRoutes

mutual

/-- The names that a type stands for, or a member of it, on the same value. -/
def Ty.direct : Ty → List String
  | .mk kind _ => kind.direct

/-- The names that a kind of type stands for on the same value. -/
def TyKind.direct : TyKind → List String
  | .reference name => [name]
  | .union members => Ty.directOf members
  | .intersection members => Ty.directOf members
  | _ => []

/-- The names that the members of a type stand for on the same value. -/
def Ty.directOf : List Ty → List String
  | [] => []
  | type :: rest => type.direct ++ Ty.directOf rest

end

theorem Ty.directOf_eq_flatMap (types : List Ty) : Ty.directOf types = types.flatMap Ty.direct := by
  induction types with
  | nil => rfl
  | cons type rest ih => simp [Ty.directOf, ih]

mutual

theorem Ty.direct_subset (type : Ty) : type.direct ⊆ type.references := by
  cases type with
  | mk kind _ =>
    rw [Ty.direct, Ty.references]
    exact TyKind.direct_subset kind

theorem TyKind.direct_subset (kind : TyKind) : kind.direct ⊆ kind.references := by
  cases kind with
  | reference name => exact List.Subset.refl _
  | union members =>
    rw [TyKind.direct, TyKind.references]
    exact Ty.directOf_subset members
  | intersection members =>
    rw [TyKind.direct, TyKind.references]
    exact Ty.directOf_subset members
  | _ => exact List.nil_subset _

theorem Ty.directOf_subset (types : List Ty) : Ty.directOf types ⊆ Ty.referencesOf types := by
  cases types with
  | nil => exact List.nil_subset _
  | cons type rest =>
    rw [Ty.directOf, Ty.referencesOf]
    exact List.append_subset.mpr
      ⟨List.subset_append_of_subset_left _ (Ty.direct_subset type),
        List.subset_append_of_subset_right _ (Ty.directOf_subset rest)⟩

end

namespace TypeTable

/-- The definition of the second name stands for the first one on the same value. -/
def Leads (definitions : TypeTable) (inner outer : String) : Prop :=
  ∃ definition, definitions.get? outer = some definition ∧ inner ∈ definition.direct

/-- The names that a type refers to, itself or through definitions. -/
inductive Reaches (definitions : TypeTable) (type : Ty) : String → Prop where
  | here {name : String} (mem : name ∈ type.references) : Reaches definitions type name
  | through {name inner : String} {definition : Ty} (outer : Reaches definitions type name)
      (defined : definitions.get? name = some definition) (mem : inner ∈ definition.references) :
      Reaches definitions type inner

/-- No definition that the type reaches comes back to itself on the same value. -/
def Guarded (definitions : TypeTable) (type : Ty) : Prop :=
  ∀ name, definitions.Reaches type name → ¬ Relation.TransGen definitions.Leads name name

variable {definitions : TypeTable} {type : Ty}

theorem Reaches.leads {inner outer : String} (h : definitions.Reaches type outer)
    (hleads : definitions.Leads inner outer) : definitions.Reaches type inner := by
  obtain ⟨definition, hdefined, hmem⟩ := hleads
  exact .through h hdefined (Ty.direct_subset definition hmem)

/-- A name without definition stands for nothing else. -/
theorem acc_of_not_mem_keys {name : String} (h : name ∉ definitions.keys) :
    Acc definitions.Leads name := by
  refine ⟨_, fun inner ⟨definition, hdefined, _⟩ => absurd ?_ h⟩
  obtain ⟨front, rest, hentries, -⟩ := List.lookup_eq_some_iff.mp hdefined
  rw [KeyMap.keys, hentries]
  simp

/-- There are finitely many definitions, so resolving references on the same value ends. -/
theorem Guarded.acc (h : definitions.Guarded type) {name : String}
    (hname : definitions.Reaches type name) : Acc definitions.Leads name := by
  let Known := { name : String // name ∈ definitions.keys ∧ definitions.Reaches type name }
  let inside : Known → Known → Prop := fun a b => Relation.TransGen definitions.Leads a.1 b.1
  have hfinite : Finite Known :=
    Set.Finite.subset (List.finite_toSet definitions.keys) fun name hname => hname.1
  have htrans : IsTrans Known inside := ⟨fun _ _ _ => Relation.TransGen.trans⟩
  have hirrefl : Std.Irrefl inside := ⟨fun a => h a.1 a.2.2⟩
  have hwf : WellFounded inside := Finite.wellFounded_of_trans_of_irrefl inside
  have hacc : ∀ known : Known, Acc definitions.Leads known.1 := by
    intro known
    induction known using hwf.induction with
    | _ known ih =>
      refine ⟨_, fun inner hleads => ?_⟩
      by_cases hdefined : inner ∈ definitions.keys
      · exact ih ⟨inner, hdefined, known.2.2.leads hleads⟩ (.single hleads)
      · exact acc_of_not_mem_keys hdefined
  by_cases hdefined : name ∈ definitions.keys
  · exact hacc ⟨name, hdefined, hname⟩
  · exact acc_of_not_mem_keys hdefined

end TypeTable

end TypedRoutes
