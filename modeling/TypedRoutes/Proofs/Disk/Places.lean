import TypedRoutes.Disk.Volume
import TypedRoutes.Proofs.Disk.Paths
import Mathlib.Data.List.Induction

/-!
# Where paths lead

A path that never steps up leads to one place whatever stands there: to the place of its start with
its names behind it. Whether it leads anywhere is decided by the directory of its last step alone,
since everything above a directory is a directory.
-/

namespace TypedRoutes

/-- Two steps give a result if the first one does and the second does from there. -/
theorem except_bind_eq_ok {ε α β : Type} {x : Except ε α} {f : α → Except ε β} {b : β} :
    x >>= f = .ok b ↔ ∃ a, x = .ok a ∧ f a = .ok b := by
  cases x with
  | error problem => simp [bind, Except.bind]
  | ok a => simp [bind, Except.bind]

theorem except_ok_bind {ε α β : Type} (a : α) (f : α → Except ε β) :
    (Except.ok a >>= f) = f a := rfl

namespace Volume

variable {volume : Volume}

/-! ## Entries and the directories above them -/

@[simp] theorem node?_root : volume.node? [] = some .directory := if_pos rfl

/-- What stands at a place stands in a directory. -/
theorem parent_directory {place : Place} {node : DiskNode} (h : volume.node? place = some node) :
    volume.node? place.dropLast = some .directory := by
  by_cases hplace : place = []
  · rw [hplace]
    exact node?_root
  · rcases volume.closed _ ((node?_eq_some_iff hplace).mp h) with hroot | hmem
    · rw [hroot]
      exact node?_root
    · by_cases hparent : place.dropLast = []
      · rw [hparent]
        exact node?_root
      · exact (node?_eq_some_iff hparent).mpr hmem

/-- Only directories have something below them. -/
theorem directory_above {above place : Place} {node : DiskNode} (h : above <+: place)
    (hne : above ≠ place) (hnode : volume.node? place = some node) :
    volume.node? above = some .directory := by
  obtain ⟨below, rfl⟩ := h
  induction below using List.reverseRecOn generalizing node with
  | nil => exact absurd (List.append_nil above).symm hne
  | append_singleton front name ih =>
    have hparent := parent_directory hnode
    rw [← List.append_assoc, List.dropLast_concat] at hparent
    by_cases hfront : front = []
    · simpa [hfront] using hparent
    · exact ih (by simpa using hfront) hparent

/-- What stands above a directory is one as well. -/
theorem directory_of_directory {above place : Place} (h : above <+: place)
    (hnode : volume.node? place = some .directory) : volume.node? above = some .directory := by
  by_cases hne : above = place
  · rw [hne]
    exact hnode
  · exact directory_above h hne hnode

/-- Every name on the way to an entry is one that an entry can have. -/
def IsNamed (volume : Volume) : Prop :=
  ∀ entry ∈ volume.entries, ∀ name ∈ entry.1, IsEntryName name

instance (volume : Volume) : Decidable volume.IsNamed :=
  inferInstanceAs (Decidable (∀ entry ∈ volume.entries, ∀ name ∈ entry.1, IsEntryName name))

/-- Whatever stands in a volume with proper names stands under such names. -/
theorem IsNamed.names {place : Place} {node : DiskNode} (h : volume.IsNamed)
    (hnode : volume.node? place = some node) : ∀ name ∈ place, IsEntryName name := by
  by_cases hplace : place = []
  · simp [hplace]
  · exact h _ ((node?_eq_some_iff hplace).mp hnode)

/-! ## Volumes after a change -/

/-- Putting something changes what stands at its place only. -/
theorem node?_put {place : Place} {node : DiskNode} {admitted : volume.admits place}
    {free : volume.node? place ≠ some .directory} (other : Place) :
    (volume.put place node admitted free).node? other =
      if other = place then some node else volume.node? other := by
  rw [node?, node?]
  split
  · rename_i hroot
    rw [if_neg fun h : other = place => admitted.1 (h.symm.trans hroot)]
  · change ((place, node) :: volume.others place).lookup other = _
    rw [List.lookup_cons]
    split
    · rename_i heq
      rw [if_pos (by simpa using heq)]
    · rename_i heq
      have hne : other ≠ place := by simpa using heq
      rw [if_neg hne, others]
      refine Option.ext fun found => ⟨fun hfound => ?_, fun hfound => ?_⟩
      · exact lookup_of_mem volume.distinct (List.mem_filter.mp (mem_of_lookup hfound)).1
      · refine lookup_of_mem (List.Nodup.sublist (List.filter_sublist.map _) volume.distinct) ?_
        exact List.mem_filter.mpr ⟨mem_of_lookup hfound, by simpa using hne⟩

/-- A volume has the same home afterwards. -/
@[simp] theorem home_put {place : Place} {node : DiskNode} {admitted : volume.admits place}
    {free : volume.node? place ≠ some .directory} :
    (volume.put place node admitted free).home = volume.home := rfl

/-- Making directories does not move the home. -/
@[simp] theorem home_addDirectory (place : Place) :
    (volume.addDirectory place).home = volume.home := by
  rw [addDirectory]
  split <;> rfl

/-- Writing a file does not move the home. -/
@[simp] theorem home_putFile (place : Place) (content : ByteText) :
    (volume.putFile place content).home = volume.home := by
  rw [putFile]
  split <;> rfl

/-! ## Following pieces -/

/-- Pieces that entries can be named by. -/
def AreShort (segments : List (List Char)) : Prop :=
  ∀ piece ∈ segments, isSilent piece = false → byteCount piece ≤ nameLimit

/-- A step that does not go up leads from a directory to the name it gives, whether that exists or
not. -/
theorem follow_eq_ok_iff {place target : Place} {piece : List Char} (hup : piece ≠ ['.', '.']) :
    volume.follow place piece = .ok target ↔
      volume.node? place = some .directory ∧ AreShort [piece] ∧
        target = place ++ namesOf [piece] := by
  rw [follow]
  cases hnode : volume.node? place with
  | none => simp
  | some node =>
    cases node with
    | file content => simp
    | directory =>
      by_cases hsilent : isSilent piece = true
      · have hshort : AreShort [piece] := by simp [AreShort, hsilent]
        simp [hsilent, namesOf_silent hsilent, hshort, eq_comm]
      · rw [Bool.not_eq_true] at hsilent
        simp only [hsilent, Bool.false_eq_true, if_false, if_neg hup, namesOf_name hsilent,
          AreShort, List.mem_singleton, forall_eq]
        split
        · simp
          omega
        · simp only [Except.ok.injEq, true_and, forall_const]
          exact ⟨fun h => ⟨by omega, h.symm⟩, fun h => h.2.symm⟩

/-- Names are short if the first ones and the last one are. -/
theorem areShort_concat {front : List (List Char)} {last : List Char} :
    AreShort (front ++ [last]) ↔ AreShort front ∧ AreShort [last] := by
  simp only [AreShort, List.mem_append, or_imp, forall_and]

/-- To follow several steps is to follow all but the last and then that one. -/
theorem foldlM_follow_concat {start target : Place} {front : List (List Char)}
    {last : List Char} :
    (front ++ [last]).foldlM volume.follow start = .ok target ↔
      ∃ middle, front.foldlM volume.follow start = .ok middle ∧
        volume.follow middle last = .ok target := by
  rw [List.foldlM_append, except_bind_eq_ok]
  simp only [List.foldlM_cons, List.foldlM_nil, bind_pure]

/-- Pieces can be followed exactly when they are short and the last step is taken from a
directory. -/
theorem foldlM_follow_eq_ok_iff {start target : Place} {front : List (List Char)}
    {last : List Char} (hup : ['.', '.'] ∉ front ++ [last]) :
    (front ++ [last]).foldlM volume.follow start = .ok target ↔
      AreShort (front ++ [last]) ∧ volume.node? (start ++ namesOf front) = some .directory ∧
        target = start ++ namesOf (front ++ [last]) := by
  have hlast : last ≠ ['.', '.'] := fun h => hup (by simp [h])
  induction front using List.reverseRecOn generalizing target last with
  | nil =>
    rw [List.nil_append, List.foldlM_cons, namesOf_nil, List.append_nil]
    simp only [List.foldlM_nil, bind_pure]
    rw [follow_eq_ok_iff hlast, and_left_comm]
  | append_singleton others piece ih =>
    have hfront : ∀ middle, (others ++ [piece]).foldlM volume.follow start = .ok middle ↔ _ :=
      fun middle => ih (fun hmem => hup (List.mem_append_left _ hmem)) fun h => hup (by simp [h])
    have habove : start ++ namesOf others <+: start ++ namesOf (others ++ [piece]) := by
      rw [namesOf_append, ← List.append_assoc]
      exact List.prefix_append _ _
    rw [foldlM_follow_concat, areShort_concat, namesOf_append (others ++ [piece]),
      ← List.append_assoc]
    constructor
    · rintro ⟨middle, hmiddle, hfollow⟩
      obtain ⟨hshort, -, rfl⟩ := (hfront middle).mp hmiddle
      obtain ⟨hdirectory, hlastShort, rfl⟩ := (follow_eq_ok_iff hlast).mp hfollow
      exact ⟨⟨hshort, hlastShort⟩, hdirectory, rfl⟩
    · rintro ⟨⟨hshort, hlastShort⟩, hdirectory, rfl⟩
      exact ⟨_, (hfront _).mpr ⟨hshort, directory_of_directory habove hdirectory, rfl⟩,
        (follow_eq_ok_iff hlast).mpr ⟨hdirectory, hlastShort, rfl⟩⟩

/-- Where pieces lead is where their names say. -/
theorem target_of_foldlM {start target : Place} {segments : List (List Char)}
    (hup : ['.', '.'] ∉ segments) (h : segments.foldlM volume.follow start = .ok target) :
    target = start ++ namesOf segments := by
  rcases List.eq_nil_or_concat segments with rfl | ⟨front, last, rfl⟩
  · simpa using (Except.ok.inj h).symm
  · rw [List.concat_eq_append] at hup h ⊢
    exact ((foldlM_follow_eq_ok_iff hup).mp h).2.2

/-! ## Locating paths -/

/-- Where a path starts. -/
def start (volume : Volume) (path : DiskPath) : Place :=
  if path.isRooted then [] else volume.home

/-- The place that a path leads to if it leads anywhere, unless it steps up. -/
def target (volume : Volume) (path : DiskPath) : Place :=
  volume.start path ++ path.names

/-- A joined path starts where its first part does. -/
theorem start_join {base tail : DiskPath} (hbase : base.chars ≠ [])
    (htail : tail.isRooted = false) : volume.start (base.join tail) = volume.start base := by
  rw [start, start, DiskPath.isRooted_join hbase htail]

/-- A joined path leads from the target of the first part on. -/
theorem target_join {base tail : DiskPath} (hbase : base.chars ≠ [])
    (htail : tail.isRooted = false) :
    volume.target (base.join tail) = volume.target base ++ tail.names := by
  rw [target, target, start_join hbase htail, DiskPath.names_join hbase htail, List.append_assoc]

/-- The path of a place leads to the place. -/
theorem target_path {place : Place} (h : ∀ name ∈ place, IsEntryName name) :
    volume.target place.path = place := by
  have hrooted : place.path.isRooted = true := rfl
  rw [target, start, if_pos hrooted, Place.names_path h, List.nil_append]

/-- Where a path leads depends on the home only. -/
theorem target_congr {other : Volume} (h : other.home = volume.home) (path : DiskPath) :
    other.target path = volume.target path := by
  rw [target, target, start, start, h]

/-- What stands above a path leads above its target. -/
theorem target_isAbove {above path : DiskPath} (h : above.IsAbove path) :
    volume.target above <+: volume.target path := by
  rw [target, target, start, start, h.rooted]
  exact (List.prefix_append_right_inj _).mpr h.names

/-- The pieces that are followed are all pieces of a path, but for the empty one in front of a slash
at the start. -/
theorem origin_cases (volume : Volume) (path : DiskPath) :
    (volume.origin path).1 = volume.start path ∧
      (path.allPieces = (volume.origin path).2 ∨
        (volume.start path = [] ∧ path.allPieces = [] :: (volume.origin path).2)) := by
  rw [origin, start, DiskPath.allPieces]
  split
  · rename_i rest heq
    have hrooted : path.isRooted = true := by simp [DiskPath.isRooted, heq]
    refine ⟨by rw [if_pos hrooted], .inr ⟨by rw [if_pos hrooted], ?_⟩⟩
    rw [heq, pieces, if_pos rfl]
  · rename_i hroot
    have hrooted := DiskPath.isRooted_eq_false_iff.mpr hroot
    exact ⟨by rw [hrooted, if_neg Bool.false_ne_true], .inl rfl⟩

/-- A path has a first piece. -/
theorem origin_ne_nil (path : DiskPath) : (volume.origin path).2 ≠ [] := by
  rw [origin]
  split <;> exact pieces_ne_nil '/' _

/-- The pieces that are followed name the steps of the path. -/
theorem namesOf_origin (path : DiskPath) : namesOf (volume.origin path).2 = path.names := by
  rw [DiskPath.names]
  rcases (volume.origin_cases path).2 with h | ⟨-, h⟩
  · rw [h]
  · rw [h, namesOf_cons, namesOf_silent rfl, List.nil_append]

/-- No piece of a path that never goes up does. -/
theorem not_up_origin {path : DiskPath} (h : path.NeverUp) :
    ['.', '.'] ∉ (volume.origin path).2 := by
  rw [DiskPath.NeverUp] at h
  rcases (volume.origin_cases path).2 with hpieces | ⟨-, hpieces⟩
  · rwa [← hpieces]
  · exact fun hmem => h (hpieces ▸ List.mem_cons_of_mem _ hmem)

/-- A path is located by following all its pieces. -/
theorem locate_eq {path : DiskPath} (hflaw : path.flaw? = none) :
    volume.locate path = path.allPieces.foldlM volume.follow (volume.start path) := by
  obtain ⟨hstart, hpieces⟩ := volume.origin_cases path
  rw [locate, hflaw]
  simp only [hstart]
  rcases hpieces with h | ⟨hroot, h⟩
  · rw [h]
  · -- the empty piece in front of the slash stays at the root
    rw [h, hroot, List.foldlM_cons]
    have hstay : volume.follow [] [] = .ok [] := by
      rw [follow, node?_root]
      rfl
    rw [hstay]
    rfl

/-- A path leads somewhere exactly when it can be looked up and its last step is taken from a
directory. -/
theorem locate_eq_ok_iff {path : DiskPath} (hup : path.NeverUp) {place : Place} :
    volume.locate path = .ok place ↔
      path.flaw? = none ∧ AreShort path.allPieces ∧
        volume.node? (volume.start path ++ namesOf path.allPieces.dropLast) = some .directory ∧
          place = volume.target path := by
  cases hflaw : path.flaw? with
  | some problem => simp [locate, hflaw]
  | none =>
    rw [locate_eq hflaw, target, DiskPath.names]
    have hconcat := List.dropLast_concat_getLast (pieces_ne_nil '/' path.chars)
    rw [DiskPath.NeverUp, DiskPath.allPieces, ← hconcat] at hup
    rw [DiskPath.allPieces, ← hconcat, foldlM_follow_eq_ok_iff hup, List.dropLast_concat]
    simp

/-- Everything a path leads to is where its names say. -/
theorem target_of_locate {path : DiskPath} (hup : path.NeverUp) {place : Place}
    (h : volume.locate path = .ok place) : place = volume.target path :=
  ((locate_eq_ok_iff hup).mp h).2.2.2

/-- The directory of the last step stands at the target or right above it. -/
theorem last_step_above (path : DiskPath) :
    volume.start path ++ namesOf path.allPieces.dropLast <+: volume.target path := by
  rw [target, DiskPath.names, List.prefix_append_right_inj]
  exact namesOf_prefix (List.dropLast_prefix _)

/-- A path that can be looked up leads to a directory that stands at its target. -/
theorem locate_of_directory {path : DiskPath} (hup : path.NeverUp) (hflaw : path.flaw? = none)
    (hshort : AreShort path.allPieces)
    (h : volume.node? (volume.target path) = some .directory) :
    volume.locate path = .ok (volume.target path) :=
  (locate_eq_ok_iff hup).mpr ⟨hflaw, hshort, directory_of_directory (last_step_above path) h, rfl⟩

/-- The path of a place can be followed in a directory to what stands there. -/
theorem follow_place {above place : Place} {node : DiskNode}
    (hnames : ∀ name ∈ place, IsEntryName name) (hne : place ≠ [])
    (hnode : volume.node? (above ++ place) = some node) :
    place.relativePath.allPieces.foldlM volume.follow above = .ok (above ++ place) := by
  have hpieces := Place.allPieces_relativePath hne hnames
  have hconcat := List.dropLast_concat_getLast (l := place.map String.toList) (by simpa using hne)
  have hup := Place.no_up hnames
  rw [← hconcat] at hup
  rw [hpieces, ← hconcat, foldlM_follow_eq_ok_iff hup, hconcat]
  refine ⟨?_, ?_, by rw [Place.namesOf_toList hnames]⟩
  · intro piece hpiece _
    obtain ⟨name, hname, rfl⟩ := List.mem_map.mp hpiece
    exact (hnames name hname).short
  · have hparent := parent_directory hnode
    rw [List.dropLast_append_of_ne_nil hne] at hparent
    rwa [← List.map_dropLast, Place.namesOf_toList fun name hmem =>
      hnames name ((List.dropLast_sublist place).subset hmem)]

/-- The path of an entry leads to it if it can be looked up at all. -/
theorem locate_path {place : Place} {node : DiskNode} (hnames : ∀ name ∈ place, IsEntryName name)
    (hnode : volume.node? place = some node) (hflaw : place.path.flaw? = none) :
    volume.locate place.path = .ok place := by
  have hpieces : place.path.allPieces = [] :: place.relativePath.allPieces := by
    rw [DiskPath.allPieces, Place.path, pieces, if_pos rfl]
    rfl
  have hstay : volume.follow [] [] = .ok [] := by
    rw [follow, node?_root]
    rfl
  have hstart : volume.start place.path = [] := if_pos rfl
  rw [locate_eq hflaw, hpieces, hstart, List.foldlM_cons, hstay]
  by_cases hne : place = []
  · rw [hne]
    change [[]].foldlM volume.follow [] = _
    rw [List.foldlM_cons, hstay]
    rfl
  · exact follow_place hnames hne hnode

/-- A step without a name only asks for a directory. -/
theorem follow_nil_eq_ok {place target : Place} :
    volume.follow place [] = .ok target ↔
      volume.node? place = some .directory ∧ target = place := by
  rw [follow_eq_ok_iff (by simp), namesOf_silent rfl, List.append_nil]
  simp [AreShort, isSilent]

/-- Pieces are only followed from a directory. -/
theorem directory_of_foldlM {place target : Place} {segments : List (List Char)}
    (hne : segments ≠ []) (h : segments.foldlM volume.follow place = .ok target) :
    volume.node? place = some .directory := by
  obtain ⟨piece, rest, rfl⟩ := List.exists_cons_of_ne_nil hne
  rw [List.foldlM_cons, except_bind_eq_ok] at h
  obtain ⟨middle, hfollow, -⟩ := h
  rw [follow] at hfollow
  split at hfollow
  · cases hfollow
  · cases hfollow
  · assumption

/-- A path into a directory leads through that directory. -/
theorem locate_join {base tail : DiskPath} (hbase : base.chars ≠ [])
    (htail : tail.isRooted = false) {place : Place} :
    volume.locate (base.join tail) = .ok place ↔
      (base.join tail).flaw? = none ∧ ∃ folder, volume.locate base = .ok folder ∧
        volume.node? folder = some .directory ∧
          tail.allPieces.foldlM volume.follow folder = .ok place := by
  obtain ⟨front, hjoin, hfront⟩ := DiskPath.allPieces_join hbase htail
  cases hflaw : (base.join tail).flaw? with
  | some problem => simp [locate, hflaw]
  | none =>
    have hbaseFlaw := DiskPath.flaw_of_join hbase htail hflaw
    rw [locate_eq hflaw, hjoin, start_join hbase htail, List.foldlM_append, locate_eq hbaseFlaw,
      except_bind_eq_ok]
    -- an empty piece behind the directory says that it is one, which the tail says anyway
    have hbaseFold : ∀ folder, volume.node? folder = some .directory →
        (base.allPieces.foldlM volume.follow (volume.start base) = .ok folder ↔
          front.foldlM volume.follow (volume.start base) = .ok folder) := by
      intro folder hdirectory
      rcases hfront with h | h
      · rw [h]
      · rw [h, foldlM_follow_concat]
        constructor
        · rintro ⟨middle, hmiddle, hstay⟩
          rw [(follow_nil_eq_ok.mp hstay).2]
          exact hmiddle
        · exact fun hfolder => ⟨folder, hfolder, follow_nil_eq_ok.mpr ⟨hdirectory, rfl⟩⟩
    constructor
    · rintro ⟨folder, hfolder, hrest⟩
      have hdirectory := directory_of_foldlM (pieces_ne_nil '/' tail.chars) hrest
      exact ⟨rfl, folder, (hbaseFold folder hdirectory).mpr hfolder, hdirectory, hrest⟩
    · rintro ⟨-, folder, hfolder, hdirectory, hrest⟩
      exact ⟨folder, (hbaseFold folder hdirectory).mp hfolder, hrest⟩

end Volume

end TypedRoutes
