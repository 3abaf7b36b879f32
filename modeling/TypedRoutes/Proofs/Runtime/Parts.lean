import TypedRoutes.Proofs.Runtime.Positions

/-!
# Parts of values

What is read from a value that can exist can exist too, and is further down.
-/

namespace TypedRoutes.Runtime

variable {world : World} {value part : Data}

/-- An object is neither null nor undefined. -/
theorem Data.isPresent_of_isObject (h : value.isObject = true) : value.isPresent = true := by
  cases value <;> first | rfl | cases h

theorem Data.WellFormed.own? {name : String} (h : value.WellFormed)
    (hown : value.own? name = some part) : part.WellFormed := by
  cases h with
  | array bounded each =>
    rw [Data.own?] at hown
    split at hown
    · cases hown
      exact .number _
    · rcases Option.or_eq_some_iff.mp hown with hitem | ⟨-, hmethod⟩
      · obtain ⟨⟨item, position⟩, hfind, rfl⟩ := Option.map_eq_some_iff.mp hitem
        exact each _ (List.fst_mem_of_mem_zipIdx (List.mem_of_find?_eq_some hfind))
      · obtain ⟨method, -, rfl⟩ := Option.map_eq_some_iff.mp hmethod
        exact .function _
  | object distinct each =>
    obtain ⟨front, rest, rfl, -⟩ := List.lookup_eq_some_iff.mp hown
    exact each (name, part) (by simp)
  | function callable =>
    cases callable with
    | native holder =>
      obtain ⟨method, -, rfl⟩ := Option.map_eq_some_iff.mp hown
      exact .function _
    | host name => cases hown
  | date time =>
    by_cases hname : name = "toJSON"
    · subst hname
      cases hown
      exact .function _
    · simp [Data.own?, hname] at hown
  | _ => cases hown

/-- A property of a value that can exist can exist. -/
theorem World.get_wellFormed (h : value.WellFormed) (name : String) :
    (world.get value name).WellFormed := by
  rw [World.get]
  cases hown : value.own? name with
  | none => exact world.inherited_wellFormed value name
  | some part => exact h.own? hown

/-- The parts of a well-formed value are well formed. -/
theorem Data.WellFormed.values (h : value.WellFormed) (hpart : part ∈ value.values) :
    part.WellFormed := by
  cases h with
  | array bounded each => exact each part hpart
  | object distinct each =>
    obtain ⟨member, hmember, rfl⟩ := List.mem_map.mp hpart
    exact each member hmember
  | _ => cases hpart

theorem Data.WellFormed.length_lt {items : List Data} (h : (Data.array items).WellFormed) :
    items.length < arrayBound := by
  cases h with
  | array bounded each => exact bounded

/-- What is taken from an object ranks below it. -/
theorem World.rank_get (h : value.isObject = true) (name : String) :
    world.rank (world.get value name) < world.rank value :=
  world.rank_property value name h

/-- An item ranks below its array. -/
theorem World.rank_item {items : List Data} {item : Data} (h : item ∈ items) :
    world.rank item < world.rank (.array items) :=
  world.rank_value (.array items) item h

/-! ## Keys -/

/-- Among members of different names each one is found by its own. -/
theorem lookup_of_mem {members : List (String × Data)} (hdistinct : (members.map Prod.fst).Nodup)
    {member : String × Data} (h : member ∈ members) : members.lookup member.1 = some member.2 := by
  induction members with
  | nil => cases h
  | cons first rest ih =>
    obtain ⟨key, value⟩ := first
    rw [List.map_cons, List.nodup_cons] at hdistinct
    rcases List.mem_cons.mp h with rfl | hrest
    · simp
    · have hne : member.1 ≠ key := by
        intro hkey
        exact hdistinct.1 (List.mem_map.mpr ⟨member, hrest, hkey⟩)
      rw [List.lookup_cons, beq_false_of_ne hne]
      exact ih hdistinct.2 hrest

theorem naturalText_ne_length (n : Nat) : Decimal.naturalText n ≠ "length" := by
  intro h
  have hlist := congrArg String.toList h
  rw [Decimal.toList_naturalText] at hlist
  have hdigit := Nat.isDigit_of_mem_toDigits (by decide) (by decide)
    (hlist ▸ (by simp : 'l' ∈ "length".toList) : 'l' ∈ Nat.toDigits 10 n)
  exact absurd hdigit (by decide)

/-- Behind its keys an object has its values. -/
theorem World.map_get_keys (world : World) (h : value.WellFormed) :
    value.keys.map (world.get value) = value.values := by
  cases h with
  | array bounded each =>
    rename_i items
    have hitem (n : Nat) (hn : n < items.length) :
        world.get (.array items) (Decimal.naturalText n) = items[n] := by
      have hnamed : itemNamed? items (Decimal.naturalText n) = some items[n] := by
        rw [itemNamed?_naturalText, List.getElem?_eq_getElem hn]
      simp [World.get, Data.own?, naturalText_ne_length, hnamed]
    rw [Data.keys, Data.values, List.map_map]
    refine List.ext_getElem (by simp) fun n _ hn => ?_
    simp [hitem n hn]
  | object distinct each =>
    rename_i members
    simp only [Data.keys, Data.values, List.map_map]
    refine List.map_congr_left fun member hmember => ?_
    simp [World.get, Data.own?, lookup_of_mem distinct hmember]
  | _ => rfl

/-- What is taken from a value under one of its keys is one of its parts. -/
theorem World.get_key_mem (world : World) (h : value.WellFormed) {key : String}
    (hkey : key ∈ value.keys) : world.get value key ∈ value.values := by
  rw [← world.map_get_keys h]
  exact List.mem_map_of_mem hkey

end TypedRoutes.Runtime
