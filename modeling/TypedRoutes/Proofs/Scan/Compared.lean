import TypedRoutes.Proofs.Scan.Found
import TypedRoutes.Scan.Ignore

/-!
# Walks of two volumes

Two things are asked of a walk: that it is blind for what lies inside a directory and for
directories on the way to it, as far as files elsewhere are concerned; and that it overlooks a file
that is gone. A walk that looks at lists of names is blind for any directory that has none of the
names of the lists on its path, and overlooks any file that is named like a snapshot.
-/

namespace TypedRoutes

/-! ## What is asked of walks -/

/-- Another volume that differs at most inside a directory, and in that directories on the way to it
have been made. -/
structure Volume.SameOutside (volume : Volume) (output : Place) (other : Volume) : Prop where
  home : other.home = volume.home
  directory {place : Place} : volume.node? place = some .directory →
    other.node? place = some .directory
  node {place : Place} : ¬ output <+: place → other.node? place = volume.node? place ∨
    (place <+: output ∧ volume.node? place = none ∧ other.node? place = some .directory)

/-- No walk through the volume meets other problems or yields other files outside of a directory if
the volume changes inside the directory or if directories on the way to it are made. -/
def Walker.Blind [Walker] (volume : Volume) (output : Place) : Prop :=
  ∀ other, volume.SameOutside output other → ∀ path repositories,
    ((∀ message, .error message ∉ Walker.walk volume path repositories) →
      ∀ message, .error message ∉ Walker.walk other path repositories) ∧
    ∀ root file content, volume.placeAt? path = some root →
      volume.node? (root ++ file) = some (.file content) → ¬ output <+: root ++ file →
        (.ok file ∈ Walker.walk other path repositories ↔
          .ok file ∈ Walker.walk volume path repositories)

/-- No walk from elsewhere meets other problems or yields other files if the file at a place is
removed. -/
def Walker.Overlooks [Walker] (volume : Volume) (place : Place) : Prop :=
  ∀ path repositories root, volume.placeAt? path = some root → root ≠ place →
    ((∀ message, .error message ∉ Walker.walk volume path repositories) →
      ∀ message, .error message ∉ Walker.walk (volume.remove place) path repositories) ∧
    ∀ file content, volume.node? (root ++ file) = some (.file content) → root ++ file ≠ place →
      (.ok file ∈ Walker.walk (volume.remove place) path repositories ↔
        .ok file ∈ Walker.walk volume path repositories)

/-! ## Lists of ignored entries -/

/-- The names of the entries that a walk looks for in a directory. -/
def IgnoreTable.listNames : List String := [generalListName, repositoryListName] ++ repositoryNames

theorem isEntryName_repositoryNames : ∀ name ∈ repositoryNames, IsEntryName name := by decide

namespace Volume

variable {volume other : Volume} {place : Place}

/-- The rules of the list at a place. -/
def rulesAt (volume : Volume) (place : Place) : List IgnoreRule :=
  match volume.read place.path with
  | .ok text => IgnoreRule.ofText text
  | .error _ => []

/-- The lists of a directory, those of repositories only where they are wanted. -/
def listsAt (volume : Volume) (repositories : Bool) (place : Place) : IgnoreLists :=
  let general := volume.rulesAt (place ++ [generalListName])
  if repositories then
    { place, general
      hasRepository := repositoryNames.any fun name =>
        (volume.nodeAt? (Place.path (place ++ [name]))).isSome
      repository := volume.rulesAt (place ++ [repositoryListName])
      excluded := volume.rulesAt (place ++ excludedListPlace) }
  else { place, general }

@[simp] theorem place_listsAt (repositories : Bool) (place : Place) :
    (volume.listsAt repositories place).place = place := by
  rw [listsAt]
  split <;> rfl

/-- The path of a place reads the file that stands there. -/
theorem read_path_eq_ok_iff (hnames : ∀ name ∈ place, IsEntryName name) {content : String} :
    volume.read place.path = .ok content ↔
      place.path.flaw? = none ∧ volume.node? place = some (.file content) := by
  rw [read_eq_ok_iff]
  constructor
  · rintro ⟨found, hlocate, hnode⟩
    obtain ⟨hflaw, -, -, hfound⟩ := (locate_eq_ok_iff (Place.neverUp_path hnames)).mp hlocate
    rw [target_path hnames] at hfound
    exact ⟨hflaw, hfound ▸ hnode⟩
  · rintro ⟨hflaw, hnode⟩
    exact ⟨place, locate_path hnames hnode hflaw, hnode⟩

theorem nodeAt?_path_isSome_iff (hnames : ∀ name ∈ place, IsEntryName name) :
    (volume.nodeAt? place.path).isSome = true ↔
      place.path.flaw? = none ∧ (volume.node? place).isSome = true := by
  constructor
  · rw [nodeAt?]
    cases hlocate : volume.locate place.path with
    | error problem => simp
    | ok found =>
      obtain ⟨hflaw, -, -, rfl⟩ := (locate_eq_ok_iff (Place.neverUp_path hnames)).mp hlocate
      rw [target_path hnames]
      exact fun h => ⟨hflaw, h⟩
  · rintro ⟨hflaw, hsome⟩
    obtain ⟨node, hnode⟩ := Option.isSome_iff_exists.mp hsome
    rw [nodeAt?, locate_path hnames hnode hflaw]
    exact hsome

/-- Two volumes hold the same file at a place, or none. -/
def SameFile (volume other : Volume) (place : Place) : Prop :=
  ∀ content, other.node? place = some (.file content) ↔ volume.node? place = some (.file content)

theorem rulesAt_congr (hnames : ∀ name ∈ place, IsEntryName name)
    (h : volume.SameFile other place) : other.rulesAt place = volume.rulesAt place := by
  have hread : ∀ content, other.read place.path = .ok content ↔
      volume.read place.path = .ok content := by
    intro content
    rw [read_path_eq_ok_iff hnames, read_path_eq_ok_iff hnames, h content]
  rw [rulesAt, rulesAt]
  cases hvolume : volume.read place.path with
  | ok content => rw [(hread content).mpr hvolume]
  | error problem =>
    cases hother : other.read place.path with
    | ok content => rw [(hread content).mp hother] at hvolume; cases hvolume
    | error _ => rfl

/-- The lists of a directory are the same where its files that hold them are, and where it is the
root of a repository in both volumes or in none. -/
theorem listsAt_congr {repositories : Bool} (hnames : ∀ name ∈ place, IsEntryName name)
    (hgeneral : volume.SameFile other (place ++ [generalListName]))
    (hrepository : volume.SameFile other (place ++ [repositoryListName]))
    (hexcluded : volume.SameFile other (place ++ excludedListPlace))
    (hmark : ∀ name ∈ repositoryNames, (other.node? (place ++ [name])).isSome =
      (volume.node? (place ++ [name])).isSome) :
    volume.listsAt repositories place = other.listsAt repositories place := by
  have hbelow : ∀ {names : Place}, (∀ name ∈ names, IsEntryName name) →
      ∀ name ∈ place ++ names, IsEntryName name := by
    intro names h name hmem
    exact (List.mem_append.mp hmem).elim (hnames name) (h name)
  have hmarked : (repositoryNames.any fun name =>
        (other.nodeAt? (Place.path (place ++ [name]))).isSome) =
      repositoryNames.any fun name =>
        (volume.nodeAt? (Place.path (place ++ [name]))).isSome := by
    rw [Bool.eq_iff_iff, List.any_eq_true, List.any_eq_true]
    refine exists_congr fun name => and_congr_right fun hmem => ?_
    have hname : ∀ part ∈ place ++ [name], IsEntryName part :=
      hbelow fun part hpart => List.mem_singleton.mp hpart ▸ isEntryName_repositoryNames name hmem
    rw [nodeAt?_path_isSome_iff hname, nodeAt?_path_isSome_iff hname, hmark name hmem]
  rw [listsAt, listsAt, rulesAt_congr (hbelow (by decide)) hgeneral,
    rulesAt_congr (hbelow (by decide)) hrepository,
    rulesAt_congr (hbelow (by decide)) hexcluded, hmarked]

end Volume

section Looking

variable {volume : Volume} {α β : Type}

theorem mapM_on {look : α → StateM Volume β} {answer : α → β}
    (h : ∀ item, look item volume = (answer item, volume)) (items : List α) :
    (items.mapM look) volume = (items.map answer, volume) := by
  induction items with
  | nil => rfl
  | cons first rest ih =>
    rw [List.mapM_cons]
    simp only [bind_on, pure_on, h, ih, List.map_cons]

theorem anyM_on {look : α → StateM Volume Bool} {answer : α → Bool}
    (h : ∀ item, look item volume = (answer item, volume)) (items : List α) :
    (items.anyM look) volume = (items.any answer, volume) := by
  induction items with
  | nil => rfl
  | cons first rest ih =>
    rw [List.anyM, List.any_cons, bind_on, h]
    cases answer first with
    | false => exact ih
    | true => rfl

theorem readRules_on (place : Place) :
    (readRules place : StateM Volume _) volume = (volume.rulesAt place, volume) := by
  change (match volume.read place.path with
    | .ok text => (pure (IgnoreRule.ofText text) : StateM Volume _)
    | .error _ => pure []) volume = _
  rw [Volume.rulesAt]
  cases volume.read place.path <;> rfl

theorem readTable_on (repositories : Bool) (places : List Place) :
    (readTable repositories places : StateM Volume _) volume =
      (places.map (volume.listsAt repositories), volume) := by
  refine mapM_on (fun place => ?_) places
  rw [readLists, Volume.listsAt]
  cases repositories with
  | false => simp only [bind_on, pure_on, readRules_on, Bool.false_eq_true, if_false]
  | true =>
    have hentry (name : String) : (MonadDisk.hasEntry (Place.path (place ++ [name])) :
        StateM Volume Bool) volume =
        ((volume.nodeAt? (Place.path (place ++ [name]))).isSome, volume) := by
      change ((_ : Option EntryKind).isSome, volume) = _
      rw [Option.isSome_map]
    simp only [bind_on, pure_on, readRules_on, anyM_on hentry, if_true]

end Looking

/-! ## The lists above a file -/

namespace IgnoreTable

theorem mem_above {place folder : Place} :
    folder ∈ above place ↔ folder <+: place ∧ folder ≠ place := by
  rw [above, List.mem_reverse, List.mem_map]
  constructor
  · rintro ⟨count, hcount, rfl⟩
    rw [List.mem_range] at hcount
    refine ⟨List.take_prefix count place, fun h => ?_⟩
    have := congrArg List.length h
    rw [List.length_take] at this
    omega
  · rintro ⟨hbegins, hne⟩
    refine ⟨folder.length, List.mem_range.mpr ?_, (List.prefix_iff_eq_take.mp hbegins).symm⟩
    exact lt_of_le_of_ne hbegins.length_le fun h => hne (hbegins.eq_of_length h)

/-- Whether a file is reached depends on the lists of the directories above it. -/
theorem reaches_congr {table table' : IgnoreTable} {root file : Place}
    (h : ∀ folder ∈ above (root ++ file), table.listsOf folder = table'.listsOf folder) :
    table.reaches root file = table'.reaches root file := by
  rw [reaches, reaches]
  refine List.all_congr rfl fun count => ?_
  have hlists : (above (root ++ file.take (count + 1))).map table.listsOf =
      (above (root ++ file.take (count + 1))).map table'.listsOf := by
    refine List.map_congr_left fun folder hfolder => h folder ?_
    obtain ⟨hbegins, hne⟩ := mem_above.mp hfolder
    have htake : root ++ file.take (count + 1) <+: root ++ file :=
      (List.prefix_append_right_inj root).mpr (List.take_prefix _ file)
    refine mem_above.mpr ⟨hbegins.trans htake, ?_⟩
    rintro rfl
    exact hne (htake.eq_of_length (le_antisymm htake.length_le hbegins.length_le)).symm
  simp only [ignores, hlists]

/-- A table holds the lists of the directories that it was read from. -/
theorem listsOf_map {volume : Volume} {repositories : Bool} {places : List Place} {folder : Place}
    (h : folder ∈ places) :
    listsOf (places.map (volume.listsAt repositories)) folder =
      volume.listsAt repositories folder := by
  rw [listsOf]
  cases hfind : (places.map (volume.listsAt repositories)).find?
      (fun lists => lists.place == folder) with
  | none =>
    rw [List.find?_eq_none] at hfind
    exact absurd (by simp) (hfind _ (List.mem_map_of_mem h))
  | some lists =>
    obtain ⟨place, -, rfl⟩ := List.mem_map.mp (List.mem_of_find?_eq_some hfind)
    have heq := List.find?_some hfind
    rw [Volume.place_listsAt, beq_iff_eq] at heq
    rw [Option.getD_some, heq]

end IgnoreTable

/-! ## Volumes without a file -/

namespace Volume

variable {volume : Volume} {place other : Place} {content : ByteText}

/-- Removing a file removes nothing else. -/
theorem node?_remove (hfile : volume.node? place = some (.file content)) (other : Place) :
    (volume.remove place).node? other = if other = place then none else volume.node? other := by
  have hplace : place ≠ [] := by
    rintro rfl
    rw [node?_root] at hfile
    cases hfile
  by_cases hroot : other = []
  · rw [hroot, if_neg hplace.symm, node?_root, node?_root]
  · refine Option.ext fun node => ?_
    rw [node?_eq_some_iff hroot]
    change (other, node) ∈ volume.entries.filter (fun entry => !place.isPrefixOf entry.1) ↔ _
    rw [List.mem_filter, ← node?_eq_some_iff hroot]
    simp only [Bool.not_eq_true', Bool.eq_false_iff, ne_eq, List.isPrefixOf_iff_prefix]
    split
    · rename_i heq
      simp [heq]
    · rename_i hne
      refine ⟨fun h => h.1, fun hnode => ⟨hnode, fun hbegins => ?_⟩⟩
      have := directory_above hbegins (Ne.symm hne) hnode
      rw [hfile] at this
      cases this

section Remove

variable (hfile : volume.node? place = some (.file content))

include hfile

/-- Removing a file removes no directory. -/
theorem directory_remove_iff : (volume.remove place).node? other = some .directory ↔
    volume.node? other = some .directory := by
  rw [node?_remove hfile]
  split
  · rename_i heq
    simp [heq, hfile]
  · rfl

/-- Paths lead where they led, since files lead nowhere. -/
theorem locate_remove_iff {path : DiskPath} {target : Place} :
    (volume.remove place).locate path = .ok target ↔ volume.locate path = .ok target := by
  have hhome : (volume.remove place).home = volume.home := rfl
  exact ⟨locate_kept hhome.symm fun _ => (directory_remove_iff hfile).mp,
    locate_kept hhome fun _ => (directory_remove_iff hfile).mpr⟩

/-- A path that does not lead to the file leads to what it led to. -/
theorem placeAt?_remove {path : DiskPath} (h : volume.placeAt? path ≠ some place) :
    (volume.remove place).placeAt? path = volume.placeAt? path := by
  refine Option.ext fun found => ?_
  rw [placeAt?_eq_some_iff, placeAt?_eq_some_iff, locate_remove_iff hfile, node?_remove hfile]
  by_cases heq : found = place
  · rw [if_pos heq]
    refine ⟨fun h => by simp at h, fun hfound => absurd ?_ h⟩
    rw [← heq]
    exact placeAt?_eq_some_iff.mpr hfound
  · rw [if_neg heq]

/-- The other files are those that were there. -/
theorem sameFile_remove (hne : other ≠ place) : volume.SameFile (volume.remove place) other := by
  intro text
  rw [node?_remove hfile, if_neg hne]

/-- A snapshot holds no list, and it does not mark a repository. -/
theorem listsAt_remove {repositories : Bool} {folder : Place}
    (hnames : ∀ name ∈ folder, IsEntryName name)
    (hlast : ∃ name, place.getLast? = some name ∧ isSnapshotName name.toList = true) :
    volume.listsAt repositories folder = (volume.remove place).listsAt repositories folder := by
  have hother : ∀ (front : Place) {name : String}, isSnapshotName name.toList = false →
      folder ++ (front ++ [name]) ≠ place := by
    rintro front name hname rfl
    obtain ⟨last, hlast, hsnapshot⟩ := hlast
    rw [← List.append_assoc, List.getLast?_concat] at hlast
    rw [← Option.some.inj hlast, hname] at hsnapshot
    cases hsnapshot
  refine listsAt_congr hnames (sameFile_remove hfile (hother [] (by decide)))
    (sameFile_remove hfile (hother [] (by decide)))
    (sameFile_remove hfile (hother [".git", "info"] (by decide))) fun name hmem => ?_
  have hplain : ∀ name ∈ repositoryNames, isSnapshotName name.toList = false := by decide
  have hmark : folder ++ [name] ≠ place := hother [] (hplain name hmem)
  rw [node?_remove hfile, if_neg hmark]

end Remove

end Volume

/-! ## Volumes that differ inside a directory -/

namespace Volume.SameOutside

variable {volume other : Volume} {output place : Place} (h : volume.SameOutside output other)

include h

/-- Outside of the directory the files are the same. -/
theorem sameFile (houtside : ¬ output <+: place) : volume.SameFile other place := by
  intro content
  rcases h.node houtside with hsame | ⟨-, hnone, hdirectory⟩
  · rw [hsame]
  · simp [hnone, hdirectory]

/-- A path that led somewhere leads there. -/
theorem placeAt? {path : DiskPath} (hplace : volume.placeAt? path = some place) :
    other.placeAt? path = some place ∨ output <+: place := by
  obtain ⟨hlocate, hsome⟩ := placeAt?_eq_some_iff.mp hplace
  by_cases houtside : output <+: place
  · exact .inr houtside
  · refine .inl (placeAt?_eq_some_iff.mpr ⟨locate_kept h.home (fun _ => h.directory) hlocate, ?_⟩)
    rcases h.node houtside with hsame | ⟨-, hnone, -⟩
    · rw [hsame, hsome]
    · rw [hnone] at hsome
      cases hsome

end Volume.SameOutside

/-- Where a name that is not on the path of a directory is put, it is not put into the directory. -/
theorem not_prefix_append {output folder names : Place} (hfolder : ¬ output <+: folder)
    {name : String} (hfirst : names.head? = some name) (hname : name ∉ output) :
    ¬ output <+: folder ++ names := by
  intro hbegins
  rcases List.prefix_or_prefix_of_prefix hbegins (List.prefix_append folder names) with
    hbelow | ⟨rest, rfl⟩
  · exact hfolder hbelow
  · rw [List.prefix_append_right_inj] at hbegins
    cases rest with
    | nil => exact hfolder (by simp)
    | cons first rest =>
      obtain ⟨more, rfl⟩ := hbegins
      rw [List.cons_append, List.head?_cons] at hfirst
      exact hname (by simp [Option.some.inj hfirst])

/-- The lists above an entry outside of a directory say what they said, unless their names are on
the path of the directory. -/
theorem Volume.SameOutside.listsAt {volume other : Volume} {output file folder : Place}
    {repositories : Bool} (h : volume.SameOutside output other)
    (hlists : ∀ name ∈ IgnoreTable.listNames, name ∉ output)
    (hnames : ∀ name ∈ folder, IsEntryName name) (hfolder : folder <+: file)
    (houtside : ¬ output <+: file) :
    volume.listsAt repositories folder = other.listsAt repositories folder := by
  have hapart {names : Place} {name : String} (hfirst : names.head? = some name)
      (hname : name ∈ IgnoreTable.listNames) :
      ¬ output <+: folder ++ names :=
    not_prefix_append (fun hbegins => houtside (hbegins.trans hfolder)) hfirst (hlists name hname)
  refine listsAt_congr hnames (h.sameFile (hapart rfl (by decide)))
    (h.sameFile (hapart rfl (by decide))) (h.sameFile (hapart rfl (by decide)))
    fun name hmem => ?_
  have hlisted : name ∈ IgnoreTable.listNames := List.mem_append_right _ hmem
  have hmark : ¬ output <+: folder ++ [name] := hapart rfl hlisted
  rcases h.node hmark with hsame | ⟨hbegins, -, -⟩
  · rw [hsame]
  · exact absurd (hbegins.subset List.mem_concat_self) (hlists _ hlisted)

/-! ## Walks that look at lists -/

namespace IgnoreTable

open scoped IgnoreTable

variable {volume other : Volume} {path : DiskPath} {repositories : Bool} {root file : Place}

theorem tableFrom_eq (volume : Volume) (repositories : Bool) (root : Place) :
    volume.tableFrom repositories root =
      (listPlaces root (volume.filesFrom root)).map (volume.listsAt repositories) :=
  congrArg Prod.fst (readTable_on repositories _)

/-- Whether a file is reached is the same in two volumes with the same lists above it. -/
theorem reaches_tableFrom_congr (hfile : file ∈ volume.filesFrom root)
    (hfile' : file ∈ other.filesFrom root)
    (h : ∀ folder ∈ above (root ++ file),
      volume.listsAt repositories folder = other.listsAt repositories folder) :
    (volume.tableFrom repositories root).reaches root file =
      (other.tableFrom repositories root).reaches root file := by
  refine reaches_congr fun folder hfolder => ?_
  have hplaces : ∀ {files : List Place}, file ∈ files → folder ∈ listPlaces root files := by
    intro files hmem
    rw [listPlaces, List.mem_eraseDups]
    exact List.mem_flatMap.mpr ⟨file, hmem, hfolder⟩
  rw [tableFrom_eq, tableFrom_eq, listsOf_map (hplaces hfile), listsOf_map (hplaces hfile'),
    h folder hfolder]

theorem mem_walk : .ok file ∈ Walker.walk volume path repositories ↔
    ∃ root, volume.placeAt? path = some root ∧ file ∈ volume.filesFrom root ∧
      (volume.tableFrom repositories root).reaches root file = true := by
  rw [← Volume.mem_reachedFrom]
  exact List.mem_map_of_injective fun _ _ => Except.ok.inj

/-- Such a walk meets no problems. -/
theorem error_not_mem_walk (message : String) :
    .error message ∉ Walker.walk volume path repositories := by
  intro hmem
  obtain ⟨_, -, h⟩ := List.mem_map.mp hmem
  cases h

/-- A file is walked to in two volumes alike when the lists above it are the same. -/
theorem mem_walk_congr (hroot : volume.placeAt? path = some root)
    (hroot' : other.placeAt? path = some root) (hfile : file ∈ volume.filesFrom root)
    (hfile' : file ∈ other.filesFrom root)
    (h : ∀ folder ∈ above (root ++ file),
      volume.listsAt repositories folder = other.listsAt repositories folder) :
    .ok file ∈ Walker.walk other path repositories ↔
      .ok file ∈ Walker.walk volume path repositories := by
  rw [mem_walk, mem_walk, hroot, hroot']
  simp [hfile, hfile', reaches_tableFrom_congr hfile hfile' h]

/-- A walk that looks at lists is blind for a directory with none of their names on its path. -/
theorem blind {output : Place} (hnamed : volume.IsNamed)
    (hlists : ∀ name ∈ listNames, name ∉ output) :
    Walker.Blind volume output := by
  refine fun other h path repositories => ⟨fun _ => error_not_mem_walk, ?_⟩
  intro root file content hroot hnode houtside
  have hroot' : other.placeAt? path = some root :=
    (h.placeAt? hroot).resolve_right fun hbegins =>
      houtside (hbegins.trans (List.prefix_append _ _))
  refine mem_walk_congr hroot hroot' (Volume.mem_filesFrom.mpr ⟨content, hnode⟩)
    (Volume.mem_filesFrom.mpr ⟨content, (h.sameFile houtside content).mpr hnode⟩) ?_
  intro folder hfolder
  have hbegins := (mem_above.mp hfolder).1
  exact h.listsAt hlists (fun name hmem => hnamed.names hnode name (hbegins.subset hmem)) hbegins
    houtside

/-- A walk that looks at lists overlooks files that are named like snapshots. -/
theorem overlooks {place : Place} {content : ByteText} (hnamed : volume.IsNamed)
    (hfile : volume.node? place = some (.file content))
    (hlast : ∃ name, place.getLast? = some name ∧ isSnapshotName name.toList = true) :
    Walker.Overlooks volume place := by
  refine fun path repositories root hroot hne => ⟨fun _ => error_not_mem_walk, ?_⟩
  intro file text hnode hother
  have hroot' : (volume.remove place).placeAt? path = some root := by
    rw [Volume.placeAt?_remove hfile, hroot]
    rw [hroot]
    exact fun heq => hne (Option.some.inj heq)
  refine mem_walk_congr hroot hroot' (Volume.mem_filesFrom.mpr ⟨text, hnode⟩)
    (Volume.mem_filesFrom.mpr ⟨text, (Volume.sameFile_remove hfile hother text).mpr hnode⟩) ?_
  intro folder hfolder
  refine Volume.listsAt_remove hfile (fun name hmem => ?_) hlast
  exact hnamed.names hnode name ((mem_above.mp hfolder).1.subset hmem)

/-- Given files are those that are found if exactly they are reached and wanted. -/
theorem foundOn_eq {request : ScanRequest} {places : List Place}
    (hroot : volume.placeAt? request.root = some root)
    (hsorted : places.Pairwise fun a b => a.precedes b = true) (hnodup : places.Nodup)
    (hall : ∀ file ∈ places, file ∈ volume.filesFrom root)
    (h : ∀ file ∈ volume.filesFrom root,
      ((volume.tableFrom request.repositories root).reaches root file &&
        request.wantsOn volume file) = places.contains file) :
    request.foundOn volume = places := by
  refine ScanRequest.eq_of_same_members (request.pairwise_foundOn volume) hsorted
    (request.nodup_foundOn volume) hnodup fun file => ?_
  rw [ScanRequest.mem_foundOn, ScanRequest.walkOn, mem_walk, hroot]
  simp only [Option.some.injEq, exists_eq_left', and_assoc, ← Bool.and_eq_true]
  constructor
  · rintro ⟨hfile, hfound⟩
    rwa [h file hfile, List.contains_iff_mem] at hfound
  · intro hmem
    exact ⟨hall file hmem, by rw [h file (hall file hmem), List.contains_iff_mem]; exact hmem⟩

end IgnoreTable

end TypedRoutes
