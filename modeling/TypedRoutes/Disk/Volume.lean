import TypedRoutes.Disk.Access

/-!
# Volumes

A disk as a value: the entries by their places, and the directory that relative paths start from.
No two entries share a place, and every entry stands in a directory. Requests are pure functions
that answer, and change the volume where they succeed.
-/

namespace TypedRoutes

/-- What stands at a place. -/
inductive DiskNode where
  | file (content : ByteText)
  | directory
  deriving DecidableEq, Repr

/-- The kind of a node. -/
def DiskNode.kind : DiskNode → EntryKind
  | .file _ => .file
  | .directory => .directory

/-- All entries of a disk but its root directory, and the working directory. -/
structure Volume where
  entries : List (Place × DiskNode)
  home : Place
  distinct : (entries.map Prod.fst).Nodup
  rootless : ∀ entry ∈ entries, entry.1 ≠ []
  closed : ∀ entry ∈ entries,
    entry.1.dropLast = [] ∨ (entry.1.dropLast, DiskNode.directory) ∈ entries

namespace Volume

/-- The disk that has nothing but its root directory. -/
def bare : Volume where
  entries := []
  home := []
  distinct := .nil
  rootless := by simp
  closed := by simp

instance : Inhabited Volume := ⟨bare⟩

/-- What stands at a place. -/
def node? (volume : Volume) (place : Place) : Option DiskNode :=
  if place = [] then some .directory else volume.entries.lookup place

/-- The entry of a place is what stands there. -/
theorem mem_of_lookup {entries : List (Place × DiskNode)} {place : Place} {node : DiskNode}
    (h : entries.lookup place = some node) : (place, node) ∈ entries := by
  induction entries with
  | nil => simp at h
  | cons entry rest ih =>
    obtain ⟨key, value⟩ := entry
    rw [List.lookup_cons] at h
    split at h
    · rename_i heq
      simp_all
    · exact List.mem_cons_of_mem _ (ih h)

/-- With distinct places an entry is found at its place. -/
theorem lookup_of_mem {entries : List (Place × DiskNode)} {place : Place} {node : DiskNode}
    (hd : (entries.map Prod.fst).Nodup) (h : (place, node) ∈ entries) :
    entries.lookup place = some node := by
  induction entries with
  | nil => simp at h
  | cons entry rest ih =>
    obtain ⟨key, value⟩ := entry
    rw [List.map_cons, List.nodup_cons] at hd
    rw [List.lookup_cons]
    rcases List.mem_cons.mp h with heq | hmem
    · simp_all
    · have hne : place ≠ key := fun he => hd.1 (he ▸ List.mem_map.mpr ⟨_, hmem, rfl⟩)
      rw [beq_false_of_ne hne]
      exact ih hd.2 hmem

/-- An entry other than the root directory stands at a place exactly when it is listed. -/
theorem node?_eq_some_iff {volume : Volume} {place : Place} {node : DiskNode} (h : place ≠ []) :
    volume.node? place = some node ↔ (place, node) ∈ volume.entries := by
  rw [node?, if_neg h]
  exact ⟨mem_of_lookup, lookup_of_mem volume.distinct⟩

/-- Where an entry may be put: not in place of the root directory, and in a directory. -/
def admits (volume : Volume) (place : Place) : Prop :=
  place ≠ [] ∧ volume.node? place.dropLast = some .directory

instance (volume : Volume) (place : Place) : Decidable (volume.admits place) :=
  inferInstanceAs (Decidable (_ ∧ _))

/-- The listed entries without the one at a place. -/
def others (volume : Volume) (place : Place) : List (Place × DiskNode) :=
  volume.entries.filter fun entry => entry.1 != place

/-- A directory that an admitted place stands in is listed, or is the root. -/
theorem parent_listed {volume : Volume} {place : Place} (h : volume.admits place) :
    place.dropLast = [] ∨ (place.dropLast, .directory) ∈ volume.entries := by
  by_cases hp : place.dropLast = []
  · exact .inl hp
  · exact .inr ((node?_eq_some_iff hp).mp h.2)

/-- The volume with another node at a place where no directory stands. -/
def put (volume : Volume) (place : Place) (node : DiskNode) (admitted : volume.admits place)
    (free : volume.node? place ≠ some .directory) : Volume where
  entries := (place, node) :: volume.others place
  home := volume.home
  distinct := by
    rw [List.map_cons, List.nodup_cons]
    refine ⟨by simp [others], ?_⟩
    exact List.Nodup.sublist (List.filter_sublist.map _) volume.distinct
  rootless := by
    intro entry he
    rcases List.mem_cons.mp he with rfl | he
    · exact admitted.1
    · exact volume.rootless entry (List.mem_filter.mp he).1
  closed := by
    have hkeep : ∀ parent : Place, parent ≠ [] →
        (parent, DiskNode.directory) ∈ volume.entries →
        (parent, DiskNode.directory) ∈ volume.others place := by
      intro parent hne hmem
      refine List.mem_filter.mpr ⟨hmem, ?_⟩
      rw [bne_iff_ne]
      rintro rfl
      exact free ((node?_eq_some_iff hne).mpr hmem)
    intro entry he
    have hlisted : entry.1.dropLast = [] ∨
        (entry.1.dropLast, DiskNode.directory) ∈ volume.entries := by
      rcases List.mem_cons.mp he with rfl | he
      · exact parent_listed admitted
      · exact volume.closed entry (List.mem_filter.mp he).1
    by_cases hp : entry.1.dropLast = []
    · exact .inl hp
    · exact .inr (List.mem_cons_of_mem _ (hkeep _ hp (hlisted.resolve_left hp)))

/-- The volume with a directory at an admitted place where nothing stands. -/
def addDirectory (volume : Volume) (place : Place) : Volume :=
  if h : volume.admits place ∧ volume.node? place = none then
    volume.put place .directory h.1 (by rw [h.2]; simp)
  else volume

/-- The volume with a file at an admitted place where no directory stands. -/
def putFile (volume : Volume) (place : Place) (content : ByteText) : Volume :=
  if h : volume.admits place ∧ volume.node? place ≠ some .directory then
    volume.put place (.file content) h.1 h.2
  else volume

/-- The volume without what stands at a place and below it. -/
def remove (volume : Volume) (place : Place) : Volume where
  entries := volume.entries.filter fun entry => !place.isPrefixOf entry.1
  home := volume.home
  distinct := List.Nodup.sublist (List.filter_sublist.map _) volume.distinct
  rootless entry he := volume.rootless entry (List.mem_filter.mp he).1
  closed := by
    intro entry he
    obtain ⟨hmem, hkept⟩ := List.mem_filter.mp he
    rcases volume.closed entry hmem with hp | hp
    · exact .inl hp
    · refine .inr (List.mem_filter.mpr ⟨hp, ?_⟩)
      simp only [Bool.not_eq_true', Bool.eq_false_iff, ne_eq, List.isPrefixOf_iff_prefix] at hkept ⊢
      exact fun hpre => hkept (hpre.trans (List.dropLast_prefix _))

/-- Follows one piece of a path from a place, which has to be a directory. -/
def follow (volume : Volume) (place : Place) (piece : List Char) : Except DiskProblem Place :=
  match volume.node? place with
  | none => .error .missing
  | some (.file _) => .error .notADirectory
  | some .directory =>
    if isSilent piece then .ok place
    else if piece = ['.', '.'] then .ok place.dropLast
    else if nameLimit < byteCount piece then .error .tooLong
    else .ok (place ++ [String.ofList piece])

/-- Where a path starts, and its pieces from there. -/
def origin (volume : Volume) (path : DiskPath) : Place × List (List Char) :=
  match path.chars with
  | '/' :: rest => ([], pieces '/' rest)
  | cs => (volume.home, pieces '/' cs)

/-- The place that a path leads to; only its last step may lead to nothing. -/
def locate (volume : Volume) (path : DiskPath) : Except DiskProblem Place :=
  match path.flaw? with
  | some problem => .error problem
  | none => (volume.origin path).2.foldlM volume.follow (volume.origin path).1

/-- The directory that the last step of a path is taken from, and the piece of that step. Slashes at
the end say nothing here; without them the root directory has no last step. -/
def approach (volume : Volume) (path : DiskPath) :
    Except DiskProblem (Place × Option (List Char)) :=
  match path.flaw? with
  | some problem => .error problem
  | none =>
    let (start, pieces) := volume.origin path
    let pieces := (pieces.reverse.dropWhile List.isEmpty).reverse
    do
      let folder ← pieces.dropLast.foldlM volume.follow start
      return (← volume.follow folder [], pieces.getLast?)

/-- What stands at a path. -/
def nodeAt? (volume : Volume) (path : DiskPath) : Option DiskNode :=
  match volume.locate path with
  | .ok place => volume.node? place
  | .error _ => none

/-- The place of what stands at a path. -/
def placeAt? (volume : Volume) (path : DiskPath) : Option Place :=
  match volume.locate path with
  | .ok place => if (volume.node? place).isSome then some place else none
  | .error _ => none

/-- The content of the file at a path. -/
def read (volume : Volume) (path : DiskPath) : Except DiskProblem String := do
  match volume.node? (← volume.locate path) with
  | none => .error .missing
  | some .directory => .error .isADirectory
  | some (.file content) => content.decode

/-- Gives the file at a path its content. A path that ends with a slash names a directory, and so
does the root. -/
def write (volume : Volume) (path : DiskPath) (content : String) : Except DiskProblem Volume := do
  match ← volume.approach path with
  | (_, none) => .error .isADirectory
  | (folder, some piece) =>
    if path.chars.getLast? == some '/' then .error .isADirectory
    else
      let place ← volume.follow folder piece
      if volume.node? place == some .directory then .error .isADirectory
      else .ok (volume.putFile place content)

/-- Makes a directory where nothing stands yet. -/
def makeDirectory (volume : Volume) (path : DiskPath) : Except DiskProblem Volume := do
  match ← volume.approach path with
  | (_, none) => .error .taken
  | (folder, some piece) =>
    let place ← volume.follow folder piece
    if (volume.node? place).isSome then .error .taken
    else .ok (volume.addDirectory place)

/-- Makes a directory unless it is there already. -/
def ensureDirectory (volume : Volume) (path : DiskPath) : Except DiskProblem Volume :=
  match volume.makeDirectory path with
  | .error .taken => if volume.nodeAt? path = some .directory then .ok volume else .error .taken
  | result => result

/-- Makes the directory at the first path of a list; the paths behind it lead to it, the nearest one
first, and are made only if it cannot be made without them. What was made stays, also when the
directory itself cannot be made in the end. -/
def ensureAlong (volume : Volume) : List DiskPath → Volume × Except DiskProblem Unit
  | [] => (volume, .ok ())
  | path :: above =>
    match volume.ensureDirectory path with
    | .ok volume => (volume, .ok ())
    | .error .missing =>
      match volume.ensureAlong above with
      | (volume, .error problem) => (volume, .error problem)
      | (volume, .ok ()) =>
        match volume.ensureDirectory path with
        | .ok volume => (volume, .ok ())
        | .error problem => (volume, .error problem)
    | .error problem => (volume, .error problem)

/-- Makes the missing directories on the way to a path, and the path itself; the empty path needs
none. -/
def makeDirectories (volume : Volume) (path : DiskPath) : Volume × Except DiskProblem Unit :=
  volume.ensureAlong path.prefixes

/-- A volume that relative paths of a command start from the given directory of. -/
def withHome (home : Place) : Volume :=
  let volume := (List.range home.length).foldl
    (fun volume count => volume.addDirectory (home.take (count + 1))) bare
  { volume with home }

/-- Commands that run on a volume. -/
instance : MonadDisk (StateM Volume) where
  kind? path := fun volume => ((volume.nodeAt? path).map DiskNode.kind, volume)
  place? path := fun volume => (volume.placeAt? path, volume)
  read path := fun volume => (volume.read path, volume)
  write path content := fun volume =>
    match volume.write path content with
    | .ok volume => (.ok (), volume)
    | .error problem => (.error problem, volume)
  makeDirectories path := fun volume =>
    let (volume, result) := volume.makeDirectories path
    (result, volume)

end Volume

/-- What walks through volumes. Which entries it passes over is its own affair. -/
class Walker where
  /-- What a walk from a path yields, in its order. -/
  walk : Volume → DiskPath → Bool → List (Except String Place)
  /-- Entries that a walk yields stand at or below the path. -/
  stands {volume path repositories file} : .ok file ∈ walk volume path repositories →
    ∃ root, volume.placeAt? path = some root ∧ (volume.node? (root ++ file)).isSome = true
  /-- A walk yields each entry once. -/
  once (volume path repositories) :
    ((walk volume path repositories).filterMap Except.toOption).Nodup

instance [Walker] : MonadWalk (StateM Volume) where
  walk path repositories := fun volume => (Walker.walk volume path repositories, volume)

end TypedRoutes
