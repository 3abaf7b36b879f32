import TypedRoutes.Proofs.Runtime.Machine
import TypedRoutes.Text.NumberLiteral

/-!
# Isolated surroundings

Surroundings in which values inherit nothing, so that the rank of a value is how deep it is nested.
-/

namespace TypedRoutes.Runtime

mutual

/-- How deep a value is nested. -/
def Data.depth : Data → Nat
  | .array items => Data.depthOfItems items + 1
  | .object members => Data.depthOfMembers members + 1
  | .date _ => 1
  | _ => 0

/-- How deep the deepest of several values is nested. -/
def Data.depthOfItems : List Data → Nat
  | [] => 0
  | item :: rest => max item.depth (Data.depthOfItems rest)

/-- How deep the deepest member of an object is nested. -/
def Data.depthOfMembers : List (String × Data) → Nat
  | [] => 0
  | (_, value) :: rest => max value.depth (Data.depthOfMembers rest)

end

namespace Data

theorem depth_le_depthOfItems {items : List Data} {item : Data} (h : item ∈ items) :
    item.depth ≤ depthOfItems items := by
  induction items with
  | nil => cases h
  | cons first rest ih =>
    rw [depthOfItems]
    rcases List.mem_cons.mp h with rfl | hrest
    · exact Nat.le_max_left _ _
    · exact Nat.le_trans (ih hrest) (Nat.le_max_right _ _)

theorem depth_le_depthOfMembers {members : List (String × Data)} {member : String × Data}
    (h : member ∈ members) : member.2.depth ≤ depthOfMembers members := by
  induction members with
  | nil => cases h
  | cons first rest ih =>
    obtain ⟨key, value⟩ := first
    rw [depthOfMembers]
    rcases List.mem_cons.mp h with rfl | hrest
    · exact Nat.le_max_left _ _
    · exact Nat.le_trans (ih hrest) (Nat.le_max_right _ _)

theorem depth_own?_lt {value part : Data} {name : String} (hobject : value.isObject = true)
    (h : value.own? name = some part) : part.depth < value.depth := by
  cases value with
  | array items =>
    rw [depth, Nat.lt_succ_iff]
    rw [own?] at h
    split at h
    · cases h
      exact Nat.zero_le _
    · rcases Option.or_eq_some_iff.mp h with hitem | ⟨-, hmethod⟩
      · obtain ⟨⟨item, position⟩, hfind, rfl⟩ := Option.map_eq_some_iff.mp hitem
        exact depth_le_depthOfItems (List.fst_mem_of_mem_zipIdx (List.mem_of_find?_eq_some hfind))
      · obtain ⟨method, -, rfl⟩ := Option.map_eq_some_iff.mp hmethod
        exact Nat.zero_le _
  | object members =>
    rw [depth, Nat.lt_succ_iff]
    obtain ⟨front, rest, rfl, -⟩ := List.lookup_eq_some_iff.mp h
    have hmember : (name, part) ∈ front ++ (name, part) :: rest := by simp
    exact depth_le_depthOfMembers hmember
  | date time =>
    by_cases hname : name = "toJSON"
    · subst hname
      cases h
      exact Nat.zero_lt_one
    · simp [own?, hname] at h
  | _ => cases hobject

theorem depth_value_lt {value part : Data} (h : part ∈ value.values) :
    part.depth < value.depth := by
  cases value with
  | array items =>
    rw [depth, Nat.lt_succ_iff]
    exact depth_le_depthOfItems h
  | object members =>
    rw [depth, Nat.lt_succ_iff]
    obtain ⟨member, hmember, rfl⟩ := List.mem_map.mp h
    exact depth_le_depthOfMembers hmember
  | _ => cases h

end Data

/-- Surroundings with the given functions from outside and nothing inherited. -/
def World.isolated (global? : String → Option Data)
    (call : String → Data → List Data → Except Failure Data) : World where
  global? := global?
  inherited _ _ := .undefined
  call := call
  numberText := numberLiteral
  dateJson _ := .null
  json _ := .ok .undefined
  rank := Data.depth
  rank_property := by
    intro value name hobject
    cases hown : value.own? name with
    | none => cases value <;> first | exact Nat.succ_pos _ | cases hobject
    | some part => exact Data.depth_own?_lt hobject hown
  rank_value _ _ := Data.depth_value_lt
  inherited_wellFormed _ _ := .undefined

/-- Surroundings without functions from outside. -/
def World.bare : World :=
  .isolated (fun _ => none) fun _ _ _ => .error .typeError

end TypedRoutes.Runtime
