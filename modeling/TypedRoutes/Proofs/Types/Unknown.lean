import TypedRoutes.Proofs.Types.Places
import TypedRoutes.Source.Snapshot

/-!
# Unknown references

Which references have no definition, and which of them is reported. Definitions and recorded values
are searched in different ways, but both searches find the unknown reference that stands first, by
key and then by place, and the names that are missing are listed as they stand first.
-/

namespace TypedRoutes

/-! ## Entries of a map -/

namespace KeyMap

variable {α : Type} {map : KeyMap α}

theorem contains_eq_false_iff {key : String} : map.contains key = false ↔ map.get? key = none := by
  rw [contains, Option.isSome_eq_false_iff, Option.isNone_iff_eq_none]

end KeyMap

/-! ## First occurrences -/

theorem head?_firstOccurrences (names : List String) :
    (firstOccurrences names).head? = names.head? := by
  cases names <;> rfl

theorem mem_firstOccurrences {names : List String} {name : String} :
    name ∈ firstOccurrences names ↔ name ∈ names := by
  induction names with
  | nil => rfl
  | cons first rest ih =>
    rw [firstOccurrences, List.mem_cons, List.mem_filter, ih, List.mem_cons, bne_iff_ne]
    by_cases hfirst : name = first <;> simp [hfirst]

theorem nodup_firstOccurrences (names : List String) : (firstOccurrences names).Nodup := by
  induction names with
  | nil => exact .nil
  | cons first rest ih =>
    rw [firstOccurrences, List.nodup_cons, List.mem_filter, bne_iff_ne]
    exact ⟨fun h => h.2 rfl, ih.filter _⟩

/-- Names keep the order in which they stand first. -/
theorem Listing.pairwise_firstOccurrences {P : Type} {before : P → P → Prop}
    {items : List (P × String)} (h : items.Pairwise fun a b => before a.1 b.1) :
    (firstOccurrences (items.map Prod.snd)).Pairwise fun name other =>
      ∃ place, (place, name) ∈ items ∧ ∀ later, (later, other) ∈ items → before place later := by
  induction items with
  | nil => exact .nil
  | cons item rest ih =>
    obtain ⟨hitem, hrest⟩ := List.pairwise_cons.mp h
    rw [List.map_cons, firstOccurrences, List.pairwise_cons]
    -- the first item stands before the others, and no other item has its name any more
    have hothers {other : String} {later : P} (hne : other ≠ item.2)
        (hlater : (later, other) ∈ item :: rest) : (later, other) ∈ rest := by
      rcases List.mem_cons.mp hlater with heq | hmem
      · exact absurd (congrArg Prod.snd heq) hne
      · exact hmem
    constructor
    · intro other hother
      rw [List.mem_filter, bne_iff_ne] at hother
      exact ⟨item.1, List.mem_cons_self, fun later hlater => hitem _ (hothers hother.2 hlater)⟩
    · refine ((ih hrest).filter _).imp_of_mem fun _ hother ⟨place, hplace, hbefore⟩ => ?_
      rw [List.mem_filter, bne_iff_ne] at hother
      exact ⟨place, List.mem_cons_of_mem _ hplace,
        fun later hlater => hbefore later (hothers hother.2 hlater)⟩

/-- The first name that is found in a listing stands before all others that could be found. -/
theorem Listing.find? {P : Type} {before : P → P → Prop} {stands : P → String → Prop}
    {names : List String} {items : List (P × String)} (h : Listing before stands names items)
    {wanted : String → Bool} {name : String} (hfind : names.find? wanted = some name) :
    ∃ place, stands place name ∧ wanted name = true ∧ ∀ later other, stands later other →
      wanted other = true → later = place ∨ before place later := by
  rw [← h.names_eq, List.find?_map, Option.map_eq_some_iff] at hfind
  obtain ⟨⟨place, _⟩, hitem, rfl⟩ := hfind
  obtain ⟨hwanted, front, rest, hitems, hfront⟩ := List.find?_eq_some_iff_append.mp hitem
  have hmem (later : P) (other : String) := h.mem_iff later other
  have hordered := h.ordered
  rw [hitems] at hmem hordered
  have hrest := (List.pairwise_cons.mp (List.pairwise_append.mp hordered).2.1).1
  refine ⟨place, (hmem _ _).mp (by simp), hwanted, fun later other hstands hother => ?_⟩
  rcases List.mem_append.mp ((hmem later other).mpr hstands) with hbefore | hbehind
  · have hskipped := hfront _ hbefore
    simp [hother] at hskipped
  · rcases List.mem_cons.mp hbehind with heq | hlater
    · exact .inl (congrArg Prod.fst heq)
    · exact .inr (hrest _ hlater)

/-! ## Tables -/

namespace TypeTable

/-- Under the key, at the place inside its type, stands a reference to the name. -/
def RefersAt (table : TypeTable) (position : String × List Nat) (name : String) : Prop :=
  ∃ type, table.get? position.1 = some type ∧ type.RefersAt position.2 name

/-- One position comes before another: its key does, or its place under the same key. -/
abbrev Before : String × List Nat → String × List Nat → Prop := Prod.Lex (· < ·) (· < ·)

/-- The references of a table are listed by key and then by place. -/
theorem exists_listing (table : TypeTable) :
    ∃ items, Listing Before table.RefersAt table.references items := by
  obtain ⟨items, hitems⟩ :=
    Listing.exists_flatMap table.sorted fun entry _ => entry.2.exists_listing
  refine ⟨items, hitems.names_eq, hitems.ordered, fun position name =>
    (hitems.mem_iff _ _).trans ?_⟩
  constructor
  · rintro ⟨⟨key, type⟩, hmem, rfl, hrefers⟩
    exact ⟨type, KeyMap.get?_eq_some_iff.mpr hmem, hrefers⟩
  · rintro ⟨type, hget, hrefers⟩
    exact ⟨_, KeyMap.get?_eq_some_iff.mp hget, rfl, hrefers⟩

theorem mem_references_iff {table : TypeTable} {name : String} :
    name ∈ table.references ↔ ∃ position, table.RefersAt position name := by
  obtain ⟨items, hitems⟩ := table.exists_listing
  exact hitems.mem_names_iff

theorem Before.asymm {first second : String × List Nat} (h : Before first second) :
    ¬ Before second first := by
  intro hback
  rcases Prod.lex_def.mp h with hkey | ⟨hsame, hplace⟩ <;>
    rcases Prod.lex_def.mp hback with hkey' | ⟨hsame', hplace'⟩
  · exact String.lt_asymm hkey hkey'
  · exact String.lt_irrefl _ (hsame' ▸ hkey)
  · exact String.lt_irrefl _ (hsame ▸ hkey')
  · exact List.lt_asymm hplace hplace'

/-- At one position stands one reference. -/
theorem RefersAt.unique {table : TypeTable} {position : String × List Nat} {name other : String}
    (h : table.RefersAt position name) (hother : table.RefersAt position other) : name = other := by
  obtain ⟨type, hget, part, hpart, hname⟩ := h
  obtain ⟨type', hget', part', hpart', hother⟩ := hother
  cases hget.symm.trans hget'
  cases hpart.symm.trans hpart'
  exact TyKind.reference.inj (hname.symm.trans hother)

end TypeTable

/-! ## What is reported -/

namespace Snapshot

variable {snapshot : Snapshot} {table : TypeTable} {type : Ty} {name : String}
  {unknown : UnknownReference}

/-- Every reference in the table has a definition. -/
def AllKnown (snapshot : Snapshot) (table : TypeTable) : Prop :=
  ∀ position name, table.RefersAt position name →
    ∃ definition, snapshot.definitions.get? name = some definition

/-- The reference stands in the table under its key, it has no definition, and no other unknown
reference of the table stands before it. -/
def FirstUnknown (snapshot : Snapshot) (table : TypeTable) (unknown : UnknownReference) : Prop :=
  ∃ place, table.RefersAt (unknown.referencedBy, place) unknown.name ∧
    snapshot.definitions.get? unknown.name = none ∧
    ∀ position name, table.RefersAt position name → snapshot.definitions.get? name = none →
      position = (unknown.referencedBy, place) ∨
        TypeTable.Before (unknown.referencedBy, place) position

theorem isUnknown_iff : (!snapshot.definitions.contains name) = true ↔
    snapshot.definitions.get? name = none := by
  rw [Bool.not_eq_true', KeyMap.contains_eq_false_iff]

theorem FirstUnknown.unique {other : UnknownReference} (h : snapshot.FirstUnknown table unknown)
    (hother : snapshot.FirstUnknown table other) : unknown = other := by
  obtain ⟨place, hrefers, hnone, hfirst⟩ := h
  obtain ⟨place', hrefers', hnone', hfirst'⟩ := hother
  have hposition : (unknown.referencedBy, place) = (other.referencedBy, place') := by
    rcases hfirst _ _ hrefers' hnone' with heq | hbefore
    · exact heq.symm
    rcases hfirst' _ _ hrefers hnone with heq | hafter
    · exact heq
    · exact absurd hafter hbefore.asymm
  have hname := hrefers.unique (hposition ▸ hrefers')
  obtain ⟨key, name⟩ := unknown
  cases hposition
  cases hname
  rfl

/-- No entry has an unknown reference exactly when all references are known. -/
theorem unknownAmong?_eq_none_iff :
    snapshot.unknownAmong? table.entries = none ↔ snapshot.AllKnown table := by
  simp only [unknownAmong?, unknownIn?, List.findSome?_eq_none_iff, Option.map_eq_none_iff,
    List.find?_eq_none, Bool.not_eq_true', Bool.not_eq_false, KeyMap.contains,
    Option.isSome_iff_exists]
  constructor
  · rintro h position name ⟨type, hget, hrefers⟩
    exact h _ (KeyMap.get?_eq_some_iff.mp hget) name (Ty.mem_references_iff.mpr ⟨_, hrefers⟩)
  · intro h entry hentry name hname
    obtain ⟨place, hrefers⟩ := Ty.mem_references_iff.mp hname
    exact h (entry.1, place) name ⟨entry.2, KeyMap.get?_eq_some_iff.mpr hentry, hrefers⟩

/-- The reference that is found among the entries is the first unknown one. -/
theorem firstUnknown_of_unknownAmong? (h : snapshot.unknownAmong? table.entries = some unknown) :
    snapshot.FirstUnknown table unknown := by
  obtain ⟨front, ⟨key, type⟩, rest, hentries, hfound, hfront⟩ := List.findSome?_eq_some_iff.mp h
  obtain ⟨name, hname, rfl⟩ := Option.map_eq_some_iff.mp hfound
  obtain ⟨items, hitems⟩ := type.exists_listing
  obtain ⟨place, hrefers, hnone, hfirst⟩ := hitems.find? hname
  have hget : table.get? key = some type := by
    rw [KeyMap.get?_eq_some_iff, hentries]
    exact List.mem_append_right _ List.mem_cons_self
  refine ⟨place, ⟨type, hget, hrefers⟩, isUnknown_iff.mp hnone, ?_⟩
  rintro ⟨other, later⟩ missing ⟨second, hsecond, hmissing⟩ hundefined
  have hmem := KeyMap.get?_eq_some_iff.mp hsecond
  have hsorted := table.sorted
  rw [hentries] at hmem hsorted
  rcases List.mem_append.mp hmem with hbefore | hbehind
  · -- entries in front have no unknown reference
    have hnone := hfront _ hbefore
    rw [Option.map_eq_none_iff] at hnone
    have hlisted : missing ∈ second.references := Ty.mem_references_iff.mpr ⟨_, hmissing⟩
    exact absurd (isUnknown_iff.mpr hundefined) (List.find?_eq_none.mp hnone missing hlisted)
  · rcases List.mem_cons.mp hbehind with heq | hrest
    · cases heq
      rcases hfirst later missing hmissing (isUnknown_iff.mpr hundefined) with rfl | hlt
      · exact .inl rfl
      · exact .inr (.right _ hlt)
    · have hlt := (List.pairwise_cons.mp (List.pairwise_append.mp hsorted).2.1).1 _ hrest
      exact .inr (.left _ _ hlt)

theorem unknownAmong?_eq_some_iff : snapshot.unknownAmong? table.entries = some unknown ↔
    snapshot.FirstUnknown table unknown := by
  refine ⟨firstUnknown_of_unknownAmong?, fun h => ?_⟩
  cases hamong : snapshot.unknownAmong? table.entries with
  | none =>
    obtain ⟨place, hrefers, hnone, -⟩ := h
    obtain ⟨definition, hsome⟩ := unknownAmong?_eq_none_iff.mp hamong _ _ hrefers
    cases hnone.symm.trans hsome
  | some other => rw [(firstUnknown_of_unknownAmong? hamong).unique h]

/-- The first missing name and the first definition that refers to it make the first unknown
reference of the definitions. -/
theorem unknownDefinition?_eq (snapshot : Snapshot) :
    snapshot.unknownDefinition? = snapshot.unknownAmong? snapshot.definitions.entries := by
  have hhead : snapshot.definitions.dangling.head? =
      snapshot.definitions.entries.findSome? fun entry => snapshot.unknownIn? entry.2 := by
    rw [TypeTable.dangling, head?_firstOccurrences, List.head?_filter, TypeTable.references,
      List.find?_flatMap]
    rfl
  rw [unknownDefinition?, hhead, unknownAmong?]
  cases hfirst : snapshot.definitions.entries.findSome? fun entry =>
    snapshot.unknownIn? entry.2 with
  | none =>
    rw [List.findSome?_eq_none_iff] at hfirst
    refine (List.findSome?_eq_none_iff.mpr fun entry hentry => ?_).symm
    rw [hfirst entry hentry, Option.map_none]
  | some name =>
    obtain ⟨front, entry, rest, hentries, hfound, hfront⟩ := List.findSome?_eq_some_iff.mp hfirst
    have hunknown := List.find?_some hfound
    -- no definition in front of the first that misses a name can refer to this name
    have hreferrer : snapshot.definitions.referrer? name = some entry.1 := by
      rw [TypeTable.referrer?, hentries, List.find?_append, List.find?_eq_none.mpr]
      · have hmentions := List.contains_iff_mem.mpr (List.mem_of_find?_eq_some hfound)
        rw [Option.none_or, List.find?_cons, hmentions]
        rfl
      · intro other hother hmentions
        have hnone := List.find?_eq_none.mp (hfront other hother) name
        exact hnone (List.contains_iff_mem.mp hmentions) hunknown
    have hamong : (snapshot.definitions.entries.findSome? fun entry =>
        (snapshot.unknownIn? entry.2).map fun name => (⟨entry.1, name⟩ : UnknownReference)) =
          some ⟨entry.1, name⟩ := by
      refine List.findSome?_eq_some_iff.mpr ⟨front, entry, rest, hentries, ?_,
        fun other hother => ?_⟩
      · rw [hfound, Option.map_some]
      · rw [hfront other hother, Option.map_none]
    rw [hamong, Option.map_some, hreferrer, Option.getD_some]

/-- Validation is exact. It finds nothing exactly when every reference in the definitions and in the
recorded values has a definition. The missing names are those that stand in the definitions, each
once, in the order in which they stand first. What is found is the first unknown reference of the
definitions, and that of the values only if the definitions have none. -/
theorem unknownReference?_exact (snapshot : Snapshot) :
    (snapshot.unknownReference? = none ↔
      snapshot.AllKnown snapshot.definitions ∧ snapshot.AllKnown snapshot.values) ∧
    snapshot.definitions.dangling.Nodup ∧
    (∀ name, name ∈ snapshot.definitions.dangling ↔ snapshot.definitions.get? name = none ∧
      ∃ position, snapshot.definitions.RefersAt position name) ∧
    (snapshot.definitions.dangling.Pairwise fun name other =>
      ∃ position, snapshot.definitions.RefersAt position name ∧
        ∀ later, snapshot.definitions.RefersAt later other → TypeTable.Before position later) ∧
    ∀ unknown, snapshot.unknownReference? = some unknown ↔
      snapshot.FirstUnknown snapshot.definitions unknown ∨
        snapshot.AllKnown snapshot.definitions ∧ snapshot.FirstUnknown snapshot.values unknown := by
  refine ⟨?_, nodup_firstOccurrences _, fun name => ?_, ?_, fun unknown => ?_⟩
  · rw [unknownReference?, unknownDefinition?_eq, Option.or_eq_none_iff, unknownAmong?_eq_none_iff,
      unknownAmong?_eq_none_iff]
  · rw [TypeTable.dangling, mem_firstOccurrences, List.mem_filter, isUnknown_iff,
      TypeTable.mem_references_iff, and_comm]
  · obtain ⟨items, hitems⟩ := snapshot.definitions.exists_listing
    rw [TypeTable.dangling, ← hitems.names_eq, List.filter_map]
    have hordered := hitems.ordered.filter
      ((fun name => !snapshot.definitions.contains name) ∘ Prod.snd)
    refine (Listing.pairwise_firstOccurrences hordered).imp_of_mem ?_
    intro name other _ hother ⟨position, hposition, hbefore⟩
    rw [mem_firstOccurrences, List.mem_map] at hother
    obtain ⟨item, hitem, rfl⟩ := hother
    refine ⟨position, (hitems.mem_iff _ _).mp (List.mem_filter.mp hposition).1, ?_⟩
    intro later hlater
    refine hbefore later (List.mem_filter.mpr ⟨(hitems.mem_iff _ _).mpr hlater, ?_⟩)
    exact (List.mem_filter.mp hitem).2
  · rw [unknownReference?, unknownDefinition?_eq, Option.or_eq_some_iff, unknownAmong?_eq_some_iff,
      unknownAmong?_eq_some_iff, unknownAmong?_eq_none_iff]

end Snapshot

end TypedRoutes
