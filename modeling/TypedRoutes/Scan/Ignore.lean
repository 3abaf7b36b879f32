import TypedRoutes.Disk.Volume

/-!
# Ignored entries

A walk that passes over what lists in the directories say. Names are listed as they are, without
wildcards. A list speaks about everything below its directory; a list that is nearer to an entry is
heard first. There are three kinds of list: one that always counts, and two that count only inside a
repository. An ignored directory hides everything below it.
-/

namespace TypedRoutes

/-- One line of a list. A name without slashes speaks about entries at any depth, a path about the
one entry that it leads to. -/
structure IgnoreRule where
  /-- Takes entries back that an earlier line ignores. -/
  keeps : Bool
  /-- Speaks about directories only. -/
  directoryOnly : Bool
  /-- Speaks about a path from the directory of the list. -/
  anchored : Bool
  names : Place
  deriving DecidableEq, Repr

namespace IgnoreRule

/-- A line without the blanks at its end. -/
def trimEnd (line : List Char) : List Char :=
  (line.reverse.dropWhile fun c => c == ' ' || c == '\t' || c == '\r').reverse

/-- The body of a line and whether it takes entries back. -/
def splitKeeps : List Char → Bool × List Char
  | '!' :: rest => (true, rest)
  | '\\' :: '!' :: rest => (false, '!' :: rest)
  | '\\' :: '#' :: rest => (false, '#' :: rest)
  | line => (false, line)

/-- A line without the slash at its end, and whether there is one. -/
def splitDirectory (line : List Char) : Bool × List Char :=
  if line.getLast? == some '/' then (true, line.dropLast) else (false, line)

/-- The rule of a line, if it holds one. -/
def ofLine? (line : List Char) : Option IgnoreRule :=
  match trimEnd line with
  | [] | '#' :: _ => none
  | trimmed =>
    let (keeps, body) := splitKeeps trimmed
    let (directoryOnly, path) := splitDirectory body
    match (pieces '/' path).filter fun piece => !piece.isEmpty with
    | [] => none
    | names => some ⟨keeps, directoryOnly, path.contains '/', names.map String.ofList⟩

/-- The rules of a list. -/
def ofText (text : String) : List IgnoreRule :=
  (pieces '\n' text.toList).filterMap ofLine?

/-- Whether a rule speaks about an entry, given by its place from the directory of the list. -/
def concerns (rule : IgnoreRule) (place : Place) (isDirectory : Bool) : Bool :=
  (isDirectory || !rule.directoryOnly) &&
    if rule.anchored then place == rule.names
    else place.getLast?.toList == rule.names

/-- What a list says about an entry, if anything: the last line that speaks about it counts. -/
def verdict? (rules : List IgnoreRule) (place : Place) (isDirectory : Bool) : Option Bool :=
  (rules.reverse.find? fun rule => rule.concerns place isDirectory).map fun rule => !rule.keeps

end IgnoreRule

/-- The lists of one directory. -/
structure IgnoreLists where
  place : Place
  general : List IgnoreRule := []
  repository : List IgnoreRule := []
  excluded : List IgnoreRule := []
  /-- Whether a repository has its root here. -/
  hasRepository : Bool := false
  deriving Repr

/-- What is known about the lists of directories. -/
abbrev IgnoreTable := List IgnoreLists

namespace IgnoreTable

/-- The lists of a directory. -/
def listsOf (table : IgnoreTable) (place : Place) : IgnoreLists :=
  (table.find? fun lists => lists.place == place).getD { place }

/-- The directories above an entry, the nearest one first. -/
def above (place : Place) : List Place :=
  ((List.range place.length).map fun count => place.take count).reverse

/-- The directories up to and with the nearest one that is the root of a repository; none outside
of repositories. -/
def insideRepository : List IgnoreLists → List IgnoreLists
  | [] => []
  | lists :: rest =>
    if lists.hasRepository then [lists]
    else match insideRepository rest with
      | [] => []
      | inner => lists :: inner

/-- What the nearest of several lists says about an entry. -/
def nearestVerdict? (rules : IgnoreLists → List IgnoreRule) (lists : List IgnoreLists)
    (place : Place) (isDirectory : Bool) : Option Bool :=
  lists.findSome? fun lists =>
    IgnoreRule.verdict? (rules lists) (place.drop lists.place.length) isDirectory

/-- Whether an entry is ignored. Lists that always count are heard before those of repositories. -/
def ignores (table : IgnoreTable) (place : Place) (isDirectory : Bool) : Bool :=
  let lists := (above place).map table.listsOf
  let repository := insideRepository lists
  (((nearestVerdict? IgnoreLists.general lists place isDirectory).or
    (nearestVerdict? IgnoreLists.repository repository place isDirectory)).or
    (nearestVerdict? IgnoreLists.excluded repository place isDirectory)).getD false

/-- Whether a file below `root` is reached: neither it nor a directory on the way is ignored. The
root itself is never ignored. -/
def reaches (table : IgnoreTable) (root file : Place) : Bool :=
  (List.range file.length).all fun count =>
    !table.ignores (root ++ file.take (count + 1)) (count + 1 < file.length)

end IgnoreTable

/-- The names of the lists. -/
def generalListName : String := ".ignore"

/-- The name of the list that counts inside a repository. -/
def repositoryListName : String := ".gitignore"

/-- The entries that mark the root of a repository. -/
def repositoryNames : List String := [".git", ".jj"]

/-- Where the list of a whole repository stands, from its root. -/
def excludedListPlace : Place := [".git", "info", "exclude"]

section

variable {m : Type → Type} [Monad m] [MonadDisk m]

/-- Reads the rules of a list; a list that cannot be read has none. -/
def readRules (place : Place) : m (List IgnoreRule) := do
  match ← MonadDisk.read place.path with
  | .ok text => return IgnoreRule.ofText text
  | .error _ => return []

/-- Reads the lists of a directory, those of repositories only where they are wanted. -/
def readLists (repositories : Bool) (place : Place) : m IgnoreLists := do
  let general ← readRules (place ++ [generalListName])
  if repositories then
    let hasRepository ← repositoryNames.anyM fun name =>
      MonadDisk.hasEntry (Place.path (place ++ [name]))
    let repository ← readRules (place ++ [repositoryListName])
    let excluded ← readRules (place ++ excludedListPlace)
    return { place, general, repository, excluded, hasRepository }
  else return { place, general }

/-- Reads the lists of several directories. -/
def readTable (repositories : Bool) (places : List Place) : m IgnoreTable :=
  places.mapM (readLists repositories)

/-- The directories whose lists matter: those above the files, up to the root directory. -/
def listPlaces (root : Place) (files : List Place) : List Place :=
  (files.flatMap fun file => IgnoreTable.above (root ++ file)).eraseDups

/-- The files below a root that no list hides. -/
def readReached (repositories : Bool) (root : Place) (files : List Place) : m (List Place) := do
  let table ← readTable repositories (listPlaces root files)
  return files.filter (table.reaches root)

end

/-! ## Volumes -/

namespace Volume

variable {volume : Volume}

/-- The files at a place or below it, by what leads to them from there. -/
def filesFrom (volume : Volume) (place : Place) : List Place :=
  volume.entries.filterMap fun entry =>
    match entry.2 with
    | .directory => none
    | .file _ => if place.isPrefixOf entry.1 then some (entry.1.drop place.length) else none

theorem mem_filesFrom {place file : Place} :
    file ∈ volume.filesFrom place ↔
      ∃ content, volume.node? (place ++ file) = some (.file content) := by
  rw [filesFrom, List.mem_filterMap]
  constructor
  · rintro ⟨⟨key, node⟩, hmem, hfile⟩
    cases node with
    | directory => cases hfile
    | file content =>
      simp only [Option.ite_none_right_eq_some, List.isPrefixOf_iff_prefix, Option.some.injEq]
        at hfile
      obtain ⟨⟨below, rfl⟩, hbelow⟩ := hfile
      rw [List.drop_left] at hbelow
      exact ⟨content, hbelow ▸ (node?_eq_some_iff (volume.rootless _ hmem)).mpr hmem⟩
  · rintro ⟨content, hnode⟩
    have hne : place ++ file ≠ [] := by
      intro hnil
      rw [hnil, node?, if_pos rfl] at hnode
      cases hnode
    refine ⟨(place ++ file, .file content), (node?_eq_some_iff hne).mp hnode, ?_⟩
    simp

theorem nodup_filesFrom (volume : Volume) (place : Place) : (volume.filesFrom place).Nodup := by
  have hdistinct : volume.entries.Pairwise fun a b => a.1 ≠ b.1 :=
    List.pairwise_map.mp volume.distinct
  refine List.Pairwise.filterMap _ ?_ hdistinct
  rintro ⟨key, node⟩ ⟨key', node'⟩ hne file hfile file' hfile' rfl
  cases node with
  | directory => cases hfile
  | file content =>
    cases node' with
    | directory => cases hfile'
    | file content' =>
      simp only [Option.ite_none_right_eq_some, List.isPrefixOf_iff_prefix, Option.some.injEq]
        at hfile hfile'
      obtain ⟨⟨below, rfl⟩, hbelow⟩ := hfile
      obtain ⟨⟨below', rfl⟩, hbelow'⟩ := hfile'
      rw [List.drop_left] at hbelow hbelow'
      exact hne (by rw [hbelow, hbelow'])

/-- The files at or below a path that a walk reaches. -/
def reachedFrom (volume : Volume) (path : DiskPath) (repositories : Bool) : List Place :=
  match volume.placeAt? path with
  | none => []
  | some root =>
    ((readReached repositories root (volume.filesFrom root) : StateM Volume _).run volume).1

/-- The lists are looked at on the volume as it is. -/
def tableFrom (volume : Volume) (repositories : Bool) (root : Place) : IgnoreTable :=
  ((readTable repositories (listPlaces root (volume.filesFrom root)) : StateM Volume _).run
    volume).1

theorem mem_reachedFrom {path : DiskPath} {repositories : Bool} {file : Place} :
    file ∈ volume.reachedFrom path repositories ↔ ∃ root, volume.placeAt? path = some root ∧
      file ∈ volume.filesFrom root ∧
        (volume.tableFrom repositories root).reaches root file = true := by
  rw [reachedFrom]
  cases volume.placeAt? path with
  | none => simp
  | some root =>
    simp only [Option.some.injEq, exists_eq_left']
    exact List.mem_filter

theorem nodup_reachedFrom (volume : Volume) (path : DiskPath) (repositories : Bool) :
    (volume.reachedFrom path repositories).Nodup := by
  rw [reachedFrom]
  cases volume.placeAt? path with
  | none => exact .nil
  | some root => exact List.Pairwise.filter _ (volume.nodup_filesFrom root)

end Volume

namespace IgnoreTable

/-- A walk through a volume that meets no problems. -/
scoped instance : Walker where
  walk volume path repositories := (volume.reachedFrom path repositories).map .ok
  stands {volume path repositories file} hmem := by
    obtain ⟨_, hfile, hok⟩ := List.mem_map.mp hmem
    obtain rfl := Except.ok.inj hok
    obtain ⟨root, hroot, hbelow, -⟩ := Volume.mem_reachedFrom.mp hfile
    obtain ⟨content, hnode⟩ := Volume.mem_filesFrom.mp hbelow
    exact ⟨root, hroot, by rw [hnode]; rfl⟩
  once volume path repositories := by
    have hall : Except.toOption ∘ (Except.ok : Place → Except String Place) = some := rfl
    rw [List.filterMap_map, hall, List.filterMap_some]
    exact volume.nodup_reachedFrom path repositories

end IgnoreTable

end TypedRoutes
