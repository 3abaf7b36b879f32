/-!
# Maps in key order

A finite map from texts, kept as a list of pairs in strictly increasing order of the keys. The
order is that of code points, which is also the order of the bytes of the written keys. A map is
determined by what it looks up.
-/

namespace TypedRoutes

/-- A map whose entries stand in strictly increasing key order. -/
structure KeyMap (α : Type) where
  entries : List (String × α)
  sorted : entries.Pairwise fun a b => a.1 < b.1

namespace KeyMap

variable {α : Type}

/-- The map without entries. -/
def empty : KeyMap α := ⟨[], .nil⟩

instance : Inhabited (KeyMap α) := ⟨empty⟩

/-- Puts an entry in its place; an entry with the same key is replaced. -/
def insertEntry (key : String) (value : α) : List (String × α) → List (String × α)
  | [] => [(key, value)]
  | (k, v) :: rest =>
    if key < k then (key, value) :: (k, v) :: rest
    else if key = k then (key, value) :: rest
    else (k, v) :: insertEntry key value rest

/-- Inserting an entry brings in no other. -/
theorem mem_insertEntry {key : String} {value : α} {entries : List (String × α)}
    {entry : String × α} (h : entry ∈ insertEntry key value entries) :
    entry = (key, value) ∨ entry ∈ entries := by
  induction entries with
  | nil => simp_all [insertEntry]
  | cons head rest ih =>
    simp only [insertEntry] at h
    split at h
    · simp only [List.mem_cons] at h ⊢
      rcases h with rfl | h
      · exact .inl rfl
      · exact .inr h
    · split at h
      · simp only [List.mem_cons] at h ⊢
        rcases h with rfl | h
        · exact .inl rfl
        · exact .inr (.inr h)
      · simp only [List.mem_cons] at h ⊢
        rcases h with rfl | h
        · exact .inr (.inl rfl)
        · exact (ih h).imp_right .inr

/-- Inserting keeps the order. -/
theorem sorted_insertEntry {key : String} {value : α} {entries : List (String × α)}
    (h : entries.Pairwise fun a b => a.1 < b.1) :
    (insertEntry key value entries).Pairwise fun a b => a.1 < b.1 := by
  induction entries with
  | nil => simp [insertEntry]
  | cons head rest ih =>
    obtain ⟨hhead, hrest⟩ := List.pairwise_cons.mp h
    simp only [insertEntry]
    split
    · rename_i hlt
      refine List.pairwise_cons.mpr ⟨fun entry he => ?_, h⟩
      rcases List.mem_cons.mp he with rfl | he
      · exact hlt
      · exact String.lt_trans hlt (hhead entry he)
    · rename_i hnlt
      split
      · rename_i heq
        exact List.pairwise_cons.mpr ⟨fun entry he => heq ▸ hhead entry he, hrest⟩
      · rename_i hne
        refine List.pairwise_cons.mpr ⟨fun entry he => ?_, ih hrest⟩
        rcases mem_insertEntry he with rfl | he
        · exact Std.lt_of_le_of_ne (String.not_lt.mp hnlt) (Ne.symm hne)
        · exact hhead entry he

/-- The map with one more entry; an entry with the same key is replaced. -/
def insert (map : KeyMap α) (key : String) (value : α) : KeyMap α :=
  ⟨insertEntry key value map.entries, sorted_insertEntry map.sorted⟩

/-- The value of a key. -/
def get? (map : KeyMap α) (key : String) : Option α :=
  map.entries.lookup key

/-- Whether a key has a value. -/
def contains (map : KeyMap α) (key : String) : Bool :=
  (map.get? key).isSome

/-- The keys in order. -/
def keys (map : KeyMap α) : List String :=
  map.entries.map Prod.fst

/-- The number of entries. -/
def size (map : KeyMap α) : Nat :=
  map.entries.length

/-- A key with a value is among the keys. -/
theorem mem_keys_of_contains {map : KeyMap α} {key : String} (h : map.contains key = true) :
    key ∈ map.keys := by
  rw [contains, get?, List.lookup_isSome_iff] at h
  obtain ⟨entry, hentry, hkey⟩ := h
  exact List.mem_map.mpr ⟨entry, hentry, (beq_iff_eq.mp hkey).symm⟩

/-- A key has the value that stands with it in an entry. -/
theorem get?_eq_some_iff {map : KeyMap α} {key : String} {value : α} :
    map.get? key = some value ↔ (key, value) ∈ map.entries := by
  rw [get?, List.lookup_eq_some_iff]
  constructor
  · rintro ⟨front, rest, hentries, -⟩
    rw [hentries]
    exact List.mem_append_right _ List.mem_cons_self
  · intro hmem
    obtain ⟨front, rest, hentries⟩ := List.append_of_mem hmem
    refine ⟨front, rest, hentries, fun entry hentry => ?_⟩
    have hsorted := map.sorted
    rw [hentries, List.pairwise_append] at hsorted
    have hlt : entry.1 < key := hsorted.2.2 entry hentry _ List.mem_cons_self
    rw [bne_iff_ne]
    rintro rfl
    exact String.lt_irrefl _ hlt

theorem lookup_cons (key : String) (value : α) (rest : List (String × α)) (other : String) :
    ((key, value) :: rest).lookup other =
      if other = key then some value else rest.lookup other := by
  by_cases h : other = key
  · rw [if_pos h, h, List.lookup_cons_self]
  · rw [if_neg h, List.lookup_cons, beq_false_of_ne h]

/-- Inserting decides on one key and on no other. -/
theorem get?_insert (map : KeyMap α) (key : String) (value : α) (other : String) :
    (map.insert key value).get? other = if other = key then some value else map.get? other := by
  change (insertEntry key value map.entries).lookup other =
    if other = key then some value else map.entries.lookup other
  induction map.entries with
  | nil => rw [insertEntry, lookup_cons]
  | cons head rest ih =>
    obtain ⟨k, v⟩ := head
    simp only [insertEntry]
    split
    · rw [lookup_cons]
    · split
      · rename_i heq
        subst heq
        rw [lookup_cons, lookup_cons]
        split <;> rfl
      · rename_i hne
        rw [lookup_cons, lookup_cons, ih]
        by_cases hother : other = key
        · rw [if_neg (hother ▸ hne), if_pos hother, if_pos hother]
        · rw [if_neg hother, if_neg hother]

/-- The map that holds the last value given to each key. -/
def ofList (entries : List (String × α)) : KeyMap α :=
  entries.foldl (fun map entry => map.insert entry.1 entry.2) empty

end KeyMap

end TypedRoutes
