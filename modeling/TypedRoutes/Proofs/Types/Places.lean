import TypedRoutes.Types.References

/-!
# Places inside a type

A place is the way from a type to a part of it, as the numbers of the parts that are passed. Places
are ordered as the tree is visited, first parts first, and the references of a type are listed in
the order of their places.
-/

namespace TypedRoutes

namespace Ty

/-- The types that a type is directly made of, in order. -/
def parts (type : Ty) : List Ty :=
  match type.kind with
  | .array element => [element]
  | .promise inner => [inner]
  | .record value => [value]
  | .tuple elements => elements
  | .union members => members
  | .intersection members => members
  | .object properties => properties.map TyProperty.type
  | _ => []

/-- The part of a type at a place. -/
def partAt? : List Nat → Ty → Option Ty
  | [], type => some type
  | index :: place, type => type.parts[index]?.bind (partAt? place)

/-- At the place inside the type stands a reference to the name. -/
def RefersAt (type : Ty) (place : List Nat) (name : String) : Prop :=
  ∃ part, type.partAt? place = some part ∧ part.kind = .reference name

/-- The name that a type itself refers to, if it is a reference. -/
def ownName? (type : Ty) : Option String :=
  match type.kind with
  | .reference name => some name
  | _ => none

variable {type : Ty} {index : Nat} {place : List Nat} {name : String}

theorem sizeOf_lt_of_mem_parts {part : Ty} (h : part ∈ type.parts) : sizeOf part < sizeOf type := by
  obtain ⟨kind, aliasName⟩ := type
  cases kind <;> simp only [parts, kind, List.not_mem_nil, List.mem_singleton, List.mem_map] at h
  case object properties =>
    obtain ⟨⟨_, _, _, _⟩, hmem, rfl⟩ := h
    have hlt := List.sizeOf_lt_of_mem hmem
    simp only [TyProperty.type, TyProperty.mk.sizeOf_spec, mk.sizeOf_spec,
      TyKind.object.sizeOf_spec] at hlt ⊢
    omega
  case tuple | union | intersection =>
    have hlt := List.sizeOf_lt_of_mem h
    simp
    omega
  all_goals
    subst h
    simp
    omega

/-- What holds of a type whenever it holds of its parts holds of every type. -/
theorem parts_induction {motive : Ty → Prop}
    (step : ∀ type : Ty, (∀ part ∈ type.parts, motive part) → motive type) (type : Ty) :
    motive type :=
  step type fun part _ => parts_induction step part
termination_by sizeOf type
decreasing_by exact sizeOf_lt_of_mem_parts ‹_›

/-- A type refers to its own name if it has one, and otherwise to what its parts refer to. -/
theorem references_eq_parts (type : Ty) :
    type.references = type.ownName?.toList ++ type.parts.flatMap references := by
  obtain ⟨kind, aliasName⟩ := type
  cases kind <;>
    simp [references, TyKind.references, ownName?, parts, Ty.kind, referencesOf_eq_flatMap,
      TyProperty.referencesOf_eq_flatMap, List.flatMap_map]

theorem refersAt_nil : type.RefersAt [] name ↔ type.ownName? = some name := by
  obtain ⟨kind, aliasName⟩ := type
  cases kind <;> simp [RefersAt, partAt?, ownName?, Ty.kind]

theorem refersAt_cons : type.RefersAt (index :: place) name ↔
    ∃ part, type.parts[index]? = some part ∧ part.RefersAt place name := by
  simp only [RefersAt, partAt?, Option.bind_eq_some_iff]
  constructor
  · rintro ⟨found, ⟨part, hpart, hfound⟩, hname⟩
    exact ⟨part, hpart, found, hfound, hname⟩
  · rintro ⟨part, hpart, found, hfound, hname⟩
    exact ⟨found, ⟨part, hpart, hfound⟩, hname⟩

/-- A reference has no parts. -/
theorem parts_of_ownName? (h : type.ownName? = some name) : type.parts = [] := by
  obtain ⟨kind, aliasName⟩ := type
  cases kind <;> simp_all [ownName?, parts, Ty.kind]

end Ty

/-! ## Listings -/

/-- The names in a list, with where they stand: exactly those that stand somewhere, in the order in
which they stand. -/
structure Listing {P : Type} (before : P → P → Prop) (stands : P → String → Prop)
    (names : List String) (items : List (P × String)) : Prop where
  names_eq : items.map Prod.snd = names
  ordered : items.Pairwise fun a b => before a.1 b.1
  mem_iff : ∀ place name, (place, name) ∈ items ↔ stands place name

namespace Listing

variable {P Q E L : Type} {before : P → P → Prop} {names : List String} {items : List (P × String)}

/-- The names in a listing are those that stand somewhere. -/
theorem mem_names_iff {stands : P → String → Prop} (h : Listing before stands names items)
    {name : String} : name ∈ names ↔ ∃ place, stands place name := by
  rw [← h.names_eq, List.mem_map]
  constructor
  · rintro ⟨⟨place, _⟩, hmem, rfl⟩
    exact ⟨place, (h.mem_iff place _).mp hmem⟩
  · rintro ⟨place, hstands⟩
    exact ⟨(place, name), (h.mem_iff place name).mpr hstands, rfl⟩

/-- Renaming the places keeps a listing. -/
theorem map {stands : P → String → Prop} (h : Listing before stands names items)
    (later : Q → Q → Prop) (rename : P → Q)
    (horder : ∀ a b, before a b → later (rename a) (rename b)) :
    Listing later (fun place name => ∃ inner, rename inner = place ∧ stands inner name) names
      (items.map fun item => (rename item.1, item.2)) where
  names_eq := by
    rw [List.map_map]
    exact h.names_eq
  ordered := List.pairwise_map.mpr (h.ordered.imp fun hab => horder _ _ hab)
  mem_iff := by
    intro place name
    rw [List.mem_map]
    constructor
    · rintro ⟨⟨inner, found⟩, hmem, heq⟩
      cases heq
      exact ⟨inner, rfl, (h.mem_iff inner found).mp hmem⟩
    · rintro ⟨inner, rfl, hstands⟩
      exact ⟨(inner, name), (h.mem_iff inner name).mpr hstands, rfl⟩

/-- Trees that are labelled in increasing order are listed one behind the other. -/
theorem exists_flatMap {stands : E → P → String → Prop} {namesOf : E → List String} {label : E → L}
    {lower : L → L → Prop} : ∀ {trees : List E},
    trees.Pairwise (fun a b => lower (label a) (label b)) →
    (∀ tree ∈ trees, ∃ items, Listing before (stands tree) (namesOf tree) items) →
    ∃ items, Listing (Prod.Lex lower before)
      (fun place name => ∃ tree ∈ trees, label tree = place.1 ∧ stands tree place.2 name)
      (trees.flatMap namesOf) items
  | [], _, _ => ⟨[], rfl, .nil, by simp⟩
  | tree :: rest, hlabels, hlist => by
    obtain ⟨hlower, hrest⟩ := List.pairwise_cons.mp hlabels
    obtain ⟨⟨first, hfirst⟩, hothers⟩ := List.forall_mem_cons.mp hlist
    obtain ⟨others, hothers⟩ := exists_flatMap hrest hothers
    have hfront := hfirst.map (Prod.Lex lower before) (fun place => (label tree, place))
      fun a b hab => .right _ hab
    refine ⟨_ ++ others, ?_, List.pairwise_append.mpr ⟨hfront.ordered, hothers.ordered, ?_⟩, ?_⟩
    · rw [List.map_append, hfront.names_eq, hothers.names_eq, List.flatMap_cons]
    · rintro ⟨place, name⟩ hplace ⟨⟨other, inner⟩, found⟩ hother
      obtain ⟨inside, rfl, -⟩ := (hfront.mem_iff _ _).mp hplace
      obtain ⟨second, hsecond, rfl, -⟩ := (hothers.mem_iff _ _).mp hother
      exact .left _ _ (hlower second hsecond)
    · rintro ⟨key, place⟩ name
      rw [List.mem_append, hfront.mem_iff, hothers.mem_iff]
      simp only [List.mem_cons, exists_eq_or_imp, Prod.mk.injEq]
      refine or_congr_left ?_
      constructor
      · rintro ⟨inner, ⟨rfl, rfl⟩, hstands⟩
        exact ⟨rfl, hstands⟩
      · rintro ⟨rfl, hstands⟩
        exact ⟨place, ⟨rfl, rfl⟩, hstands⟩

end Listing

/-- The references of a type are listed in the order of their places. -/
theorem Ty.exists_listing (type : Ty) :
    ∃ items, Listing (· < ·) type.RefersAt type.references items := by
  induction type using Ty.parts_induction with
  | step type ih =>
    rw [references_eq_parts]
    cases hown : type.ownName? with
    | some name =>
      rw [parts_of_ownName? hown]
      refine ⟨[([], name)], rfl, List.pairwise_singleton _ _, fun place other => ?_⟩
      cases place with
      | nil => simp [refersAt_nil, hown, eq_comm]
      | cons index place => simp [refersAt_cons, parts_of_ownName? hown]
    | none =>
      have hlabels : type.parts.zipIdx.Pairwise fun a b => a.2 < b.2 := by
        have hrange := List.pairwise_lt_range' (s := 0) (n := type.parts.length)
        rw [← List.zipIdx_map_snd, List.pairwise_map] at hrange
        exact hrange
      have hparts : ∀ part ∈ type.parts.zipIdx,
          ∃ items, Listing (· < ·) part.1.RefersAt part.1.references items :=
        fun part hpart => ih part.1 (List.fst_mem_of_mem_zipIdx hpart)
      obtain ⟨items, hitems⟩ := Listing.exists_flatMap hlabels hparts
      have hwhole := hitems.map (· < ·) (fun place => place.1 :: place.2) fun a b hab =>
        List.cons_lt_cons_iff.mpr (Prod.lex_def.mp hab)
      refine ⟨_, hwhole.names_eq.trans ?_, hwhole.ordered, fun place name => ?_⟩
      · rw [Option.toList_none, List.nil_append, ← List.flatMap_map Prod.fst references,
          List.zipIdx_map_fst]
      · rw [hwhole.mem_iff]
        cases place with
        | nil => simp [refersAt_nil, hown]
        | cons index place =>
          rw [refersAt_cons]
          constructor
          · rintro ⟨_, hplace, ⟨part, found⟩, hpart, rfl, hrefers⟩
            cases hplace
            exact ⟨part, List.mk_mem_zipIdx_iff_getElem?.mp hpart, hrefers⟩
          · rintro ⟨part, hpart, hrefers⟩
            exact ⟨(index, place), rfl, (part, index),
              List.mk_mem_zipIdx_iff_getElem?.mpr hpart, rfl,
              hrefers⟩

theorem Ty.mem_references_iff {type : Ty} {name : String} :
    name ∈ type.references ↔ ∃ place, type.RefersAt place name := by
  obtain ⟨items, hitems⟩ := type.exists_listing
  exact hitems.mem_names_iff

end TypedRoutes
