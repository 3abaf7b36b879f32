import Mathlib.Data.List.Basic
import TypedRoutes.Script.TypeExpr

/-!
# Flattened types

In a flattened type no union is a member of a union, no intersection is a part of an intersection,
and neither of them has exactly one member. A type is flattened from the inside to the outside, so
that what comes up when a union or an intersection of one type gives way is flattened as well.
-/

namespace TypedRoutes

/-- The type of a member. -/
def TypeMember.type : TypeMember → TypeExpr
  | .mk _ _ type => type

namespace TypeExpr

/-- The types that a type is directly made of, in order. -/
def parts : TypeExpr → List TypeExpr
  | .reference _ arguments => arguments
  | .array element => [element]
  | .tuple elements => elements
  | .object members => members.map TypeMember.type
  | .union types => types
  | .intersection types => types
  | _ => []

/-- Parts are smaller than the type. -/
theorem sizeOf_lt_of_mem_parts {type part : TypeExpr} (h : part ∈ type.parts) :
    sizeOf part < sizeOf type := by
  cases type <;> simp only [parts, List.not_mem_nil, List.mem_singleton, List.mem_map] at h
  case object members =>
    obtain ⟨⟨_, _, _⟩, hmem, rfl⟩ := h
    have hlt := List.sizeOf_lt_of_mem hmem
    simp only [TypeMember.type, TypeMember.mk.sizeOf_spec, object.sizeOf_spec] at hlt ⊢
    omega
  case array =>
    subst h
    simp
  all_goals
    have hlt := List.sizeOf_lt_of_mem h
    simp
    omega

/-- What holds of a type whenever it holds of its parts holds of every type. -/
theorem parts_induction {motive : TypeExpr → Prop}
    (step : ∀ type : TypeExpr, (∀ part ∈ type.parts, motive part) → motive type) (type : TypeExpr) :
    motive type :=
  step type fun part _ => parts_induction step part
termination_by sizeOf type
decreasing_by exact sizeOf_lt_of_mem_parts ‹_›

end TypeExpr

/-- The two kinds of types that are put together from any number of others. -/
inductive Junction where
  | union
  | intersection

namespace Junction

/-- The types, put together. -/
def type : Junction → List TypeExpr → TypeExpr
  | .union, types => .union types
  | .intersection, types => .intersection types

/-- Whether a type is put together in this way. -/
def owns : Junction → TypeExpr → Bool
  | .union, .union _ => true
  | .intersection, .intersection _ => true
  | _, _ => false

/-- The types that a type adds where it is put together with others. -/
def spread : Junction → TypeExpr → List TypeExpr
  | .union, .union types => types
  | .intersection, .intersection types => types
  | _, type => [type]

/-- The types, put together if they are not just one. -/
def join (junction : Junction) : List TypeExpr → TypeExpr
  | [type] => type
  | types => junction.type types

end Junction

mutual

/-- The type with nested unions and intersections made one, and without those of one type. -/
def TypeExpr.flat : TypeExpr → TypeExpr
  | .keyword name => .keyword name
  | .literal text => .literal text
  | .reference name arguments => .reference name (TypeExpr.flats arguments)
  | .array element => .array element.flat
  | .tuple elements => .tuple (TypeExpr.flats elements)
  | .object members => .object (TypeMember.flats members)
  | .union types => Junction.union.join ((TypeExpr.flats types).flatMap Junction.union.spread)
  | .intersection types =>
    Junction.intersection.join ((TypeExpr.flats types).flatMap Junction.intersection.spread)

/-- Several types flattened. -/
def TypeExpr.flats : List TypeExpr → List TypeExpr
  | [] => []
  | type :: rest => type.flat :: TypeExpr.flats rest

/-- A member with its type flattened. -/
def TypeMember.flat : TypeMember → TypeMember
  | .mk name optional type => .mk name optional type.flat

/-- Several members with their types flattened. -/
def TypeMember.flats : List TypeMember → List TypeMember
  | [] => []
  | member :: rest => member.flat :: TypeMember.flats rest

end

/-- The type of a member is flattened with it. -/
theorem TypeMember.type_flat (member : TypeMember) : member.flat.type = member.type.flat := by
  cases member
  rfl

/-- Members are flattened one by one. -/
theorem TypeMember.flats_eq_map (members : List TypeMember) :
    TypeMember.flats members = members.map TypeMember.flat := by
  induction members with
  | nil => rfl
  | cons member rest ih => rw [flats, ih, List.map_cons]

namespace TypeExpr

/-- Types are flattened one by one. -/
theorem flats_eq_map (types : List TypeExpr) : flats types = types.map flat := by
  induction types with
  | nil => rfl
  | cons type rest ih => rw [flats, ih, List.map_cons]

/-- The type is flattened, at every depth. -/
inductive IsFlat : TypeExpr → Prop
  | keyword (name : String) : IsFlat (.keyword name)
  | literal (text : String) : IsFlat (.literal text)
  | reference (name : String) {arguments : List TypeExpr}
      (hflat : ∀ type ∈ arguments, IsFlat type) : IsFlat (.reference name arguments)
  | array {element : TypeExpr} (hflat : IsFlat element) : IsFlat (.array element)
  | tuple {elements : List TypeExpr} (hflat : ∀ type ∈ elements, IsFlat type) :
      IsFlat (.tuple elements)
  | object {members : List TypeMember} (hflat : ∀ member ∈ members, IsFlat member.type) :
      IsFlat (.object members)
  | union {types : List TypeExpr} (hcount : types.length ≠ 1)
      (hplain : ∀ type ∈ types, Junction.union.owns type = false)
      (hflat : ∀ type ∈ types, IsFlat type) : IsFlat (.union types)
  | intersection {types : List TypeExpr} (hcount : types.length ≠ 1)
      (hplain : ∀ type ∈ types, Junction.intersection.owns type = false)
      (hflat : ∀ type ∈ types, IsFlat type) : IsFlat (.intersection types)

end TypeExpr

/-! ## Taking types apart and putting them together -/

variable {junction : Junction} {type : TypeExpr} {types : List TypeExpr}

namespace Junction

/-- What is no junction of the kind stays as it is. -/
theorem spread_of_not_owns (h : junction.owns type = false) : junction.spread type = [type] := by
  fun_cases Junction.spread junction type with
  | case1 types => cases h
  | case2 types => cases h
  | case3 => rfl

/-- The members of a junction are spread. -/
theorem spread_type (types : List TypeExpr) : junction.spread (junction.type types) = types := by
  cases junction <;> rfl

/-- A junction of the kind has members. -/
theorem exists_of_owns (h : junction.owns type = true) : ∃ types, type = junction.type types := by
  revert h
  fun_cases Junction.owns junction type with
  | case1 types => exact fun _ => ⟨types, rfl⟩
  | case2 types => exact fun _ => ⟨types, rfl⟩
  | case3 => exact nofun

/-- Joined types are spread again if none of them is such a junction. -/
theorem spread_join (h : ∀ type ∈ types, junction.owns type = false) :
    junction.spread (junction.join types) = types := by
  match types with
  | [type] => exact spread_of_not_owns (h type List.mem_cons_self)
  | [] | _ :: _ :: _ => exact spread_type _

/-- Unless there is one type only, joined types are a junction. -/
theorem join_of_length (h : types.length ≠ 1) : junction.join types = junction.type types := by
  match types with
  | [_] => exact absurd rfl h
  | [] | _ :: _ :: _ => rfl

/-- A junction of flat types that are no such junctions is flat. -/
theorem isFlat_type (hcount : types.length ≠ 1)
    (h : ∀ type ∈ types, type.IsFlat ∧ junction.owns type = false) :
    (junction.type types).IsFlat := by
  have hflat : ∀ type ∈ types, type.IsFlat := fun type htype => (h type htype).1
  have hplain : ∀ type ∈ types, junction.owns type = false := fun type htype => (h type htype).2
  cases junction with
  | union => exact .union hcount hplain hflat
  | intersection => exact .intersection hcount hplain hflat

/-- The same for joined types. -/
theorem isFlat_join (h : ∀ type ∈ types, type.IsFlat ∧ junction.owns type = false) :
    (junction.join types).IsFlat := by
  match types with
  | [type] => exact (h type List.mem_cons_self).1
  | [] | _ :: _ :: _ => exact isFlat_type (by simp) h

end Junction

namespace TypeExpr

namespace IsFlat

/-- The members of a flat junction are flat and no such junctions, and there is not just one. -/
theorem of_type (h : (junction.type types).IsFlat) : types.length ≠ 1 ∧
    ∀ type ∈ types, type.IsFlat ∧ junction.owns type = false := by
  cases junction with
  | union =>
    cases h with
    | union hcount hplain hflat =>
      exact ⟨hcount, fun type htype => ⟨hflat type htype, hplain type htype⟩⟩
  | intersection =>
    cases h with
    | intersection hcount hplain hflat =>
      exact ⟨hcount, fun type htype => ⟨hflat type htype, hplain type htype⟩⟩

/-- What a flattened type adds is flattened, and is not put together in the same way. -/
theorem spread (h : type.IsFlat) (junction : Junction) :
    ∀ part ∈ junction.spread type, part.IsFlat ∧ junction.owns part = false := by
  cases howns : junction.owns type with
  | true =>
    obtain ⟨types, rfl⟩ := Junction.exists_of_owns howns
    rw [Junction.spread_type]
    exact h.of_type.2
  | false =>
    rw [Junction.spread_of_not_owns howns]
    exact List.forall_mem_singleton.mpr ⟨h, howns⟩

/-- A flat type is joined from its members again. -/
theorem join_spread (h : type.IsFlat) (junction : Junction) :
    junction.join (junction.spread type) = type := by
  cases howns : junction.owns type with
  | true =>
    obtain ⟨types, rfl⟩ := Junction.exists_of_owns howns
    rw [Junction.spread_type, Junction.join_of_length h.of_type.1]
  | false =>
    rw [Junction.spread_of_not_owns howns]
    rfl

end IsFlat

/-! ## The normal form -/

/-- What flattened types add is flattened, and is not put together in the same way. -/
theorem spread_map_flat (h : ∀ type ∈ types, type.flat.IsFlat) (junction : Junction) :
    ∀ part ∈ (types.map flat).flatMap junction.spread, part.IsFlat ∧
    junction.owns part = false := by
  intro part hpart
  obtain ⟨_, htype, hpart⟩ := List.mem_flatMap.mp hpart
  obtain ⟨type, hmem, rfl⟩ := List.mem_map.mp htype
  exact (h type hmem).spread junction part hpart

/-- Flattening gives a flattened type. -/
theorem isFlat_flat (type : TypeExpr) : type.flat.IsFlat := by
  induction type using parts_induction with
  | step type ih =>
    cases type with
    | keyword name => exact .keyword name
    | literal text => exact .literal text
    | reference name arguments =>
      rw [flat, flats_eq_map]
      exact .reference name (List.forall_mem_map.mpr ih)
    | array element => exact .array (ih element List.mem_cons_self)
    | tuple elements =>
      rw [flat, flats_eq_map]
      exact .tuple (List.forall_mem_map.mpr ih)
    | object members =>
      rw [flat, TypeMember.flats_eq_map]
      refine .object (List.forall_mem_map.mpr fun member hmember => ?_)
      rw [TypeMember.type_flat]
      exact ih member.type (List.mem_map_of_mem hmember)
    | union types =>
      rw [flat, flats_eq_map]
      exact Junction.isFlat_join (spread_map_flat ih .union)
    | intersection types =>
      rw [flat, flats_eq_map]
      exact Junction.isFlat_join (spread_map_flat ih .intersection)

/-- Types that are put together add what they add themselves, flattened. -/
theorem spread_flat (junction : Junction) (types : List TypeExpr) :
    junction.spread (junction.type types).flat = (types.map flat).flatMap junction.spread := by
  have hflat : (junction.type types).flat = junction.join
      ((types.map flat).flatMap junction.spread) := by
    cases junction <;> rw [Junction.type, flat, flats_eq_map]
  rw [hflat]
  exact Junction.spread_join fun part hpart =>
    (spread_map_flat (fun type _ => isFlat_flat type) junction part hpart).2

/-- Flattening leaves a flattened type as it is. -/
theorem IsFlat.flat_eq (h : type.IsFlat) : type.flat = type := by
  induction h with
  | keyword name => rfl
  | literal text => rfl
  | reference name _ ih => rw [flat, flats_eq_map, List.map_congr_left ih, List.map_id']
  | array _ ih => rw [flat, ih]
  | tuple _ ih => rw [flat, flats_eq_map, List.map_congr_left ih, List.map_id']
  | object _ ih =>
    rw [flat, TypeMember.flats_eq_map]
    refine congrArg _ ((List.map_congr_left fun member hmember => ?_).trans (List.map_id' _))
    obtain ⟨name, optional, type⟩ := member
    exact congrArg _ (ih _ hmember)
  | @union types hcount hplain hflat ih | @intersection types hcount hplain hflat ih =>
    rw [flat, flats_eq_map, List.map_congr_left ih, List.map_id',
      List.flatMap_congr fun type htype => Junction.spread_of_not_owns (hplain type htype),
      List.flatMap_singleton']
    exact Junction.join_of_length hcount

end TypeExpr

end TypedRoutes
