import Mathlib.Data.String.Basic
import TypedRoutes.Proofs.Disk.Changes
import TypedRoutes.Proofs.Disk.Steps
import TypedRoutes.Scan.Snapshots

/-!
# What a scan finds

A scan only looks at a volume. It goes through what a walk yields, whichever entries the walk passes
over, and finds files without repetition, in a fixed order. So what it finds is known from which
files it finds; and whether it finds a file depends on the walk, on the file and on the excluded
directory.
-/

namespace TypedRoutes

/-! ## The order of places -/

namespace Place

/-- Of two places one precedes the other. -/
theorem precedes_total (a b : Place) : (a.precedes b || b.precedes a) = true := by
  induction a generalizing b with
  | nil => simp [precedes]
  | cons first rest ih =>
    cases b with
    | nil => simp [precedes]
    | cons other others =>
      rw [precedes, precedes]
      by_cases heq : first = other
      · simpa [heq] using ih others
      · rw [if_neg heq, if_neg (Ne.symm heq)]
        simpa using lt_or_gt_of_ne heq

/-- The order of places is transitive. -/
theorem precedes_trans (a b c : Place) (hab : a.precedes b = true) (hbc : b.precedes c = true) :
    a.precedes c = true := by
  induction a generalizing b c with
  | nil => simp [precedes]
  | cons first rest ih =>
    cases b with
    | nil => simp [precedes] at hab
    | cons second others =>
      cases c with
      | nil => simp [precedes] at hbc
      | cons third more =>
        rw [precedes] at hab hbc ⊢
        split at hab
        · rename_i hfirst
          rw [hfirst]
          split at hbc
          · rename_i hsecond
            rw [if_pos hsecond]
            exact ih others more hab hbc
          · rename_i hsecond
            rw [if_neg hsecond]
            exact hbc
        · have hlt : first < second := by simpa using hab
          have hlt' : first < third := by
            split at hbc
            · rename_i hsecond
              rwa [← hsecond]
            · exact lt_trans hlt (by simpa using hbc)
          rw [if_neg hlt'.ne]
          simpa using hlt'

/-- Places that precede each other are the same. -/
theorem precedes_antisymm {a b : Place} (hab : a.precedes b = true) (hba : b.precedes a = true) :
    a = b := by
  induction a generalizing b with
  | nil =>
    cases b with
    | nil => rfl
    | cons other others => simp [precedes] at hba
  | cons first rest ih =>
    cases b with
    | nil => simp [precedes] at hab
    | cons other others =>
      rw [precedes] at hab hba
      by_cases heq : first = other
      · rw [if_pos heq] at hab
        rw [if_pos heq.symm] at hba
        rw [heq, ih hab hba]
      · rw [if_neg heq] at hab
        rw [if_neg (Ne.symm heq)] at hba
        exact absurd (of_decide_eq_true hba) (lt_asymm (of_decide_eq_true hab))

/-- What strictly comes before a place is smaller as a list of names. -/
theorem lt_of_precedes {a b : Place} (h : a.precedes b = true) (hne : a ≠ b) : a < b := by
  induction a generalizing b with
  | nil =>
    cases b with
    | nil => exact absurd rfl hne
    | cons other others => exact List.nil_lt_cons other others
  | cons first rest ih =>
    cases b with
    | nil => simp [precedes] at h
    | cons other others =>
      rw [precedes] at h
      rw [List.cons_lt_cons_iff]
      split at h
      · rename_i heq
        exact .inr ⟨heq, ih h fun hrest => hne (by rw [heq, hrest])⟩
      · exact .inl (of_decide_eq_true h)

end Place

/-! ## Looking at a volume -/

namespace Volume

variable {volume : Volume}

/-- A path leads to a place where something stands. -/
theorem placeAt?_eq_some_iff {path : DiskPath} {place : Place} :
    volume.placeAt? path = some place ↔
      volume.locate path = .ok place ∧ (volume.node? place).isSome = true := by
  rw [placeAt?]
  cases volume.locate path with
  | error problem => simp
  | ok found =>
    simp only [Option.ite_none_right_eq_some, Option.some.injEq, Except.ok.injEq]
    constructor
    · rintro ⟨hsome, rfl⟩
      exact ⟨rfl, hsome⟩
    · rintro ⟨rfl, hsome⟩
      exact ⟨hsome, rfl⟩

/-- A path that leads to a file is named like the file. -/
theorem fileName_of_file {path : DiskPath} {place : Place} {content : ByteText}
    (hlocate : volume.locate path = .ok place)
    (hnode : volume.node? place = some (.file content)) :
    ∃ name, place.getLast? = some name ∧ path.fileName? = some name.toList := by
  have hflaw : path.flaw? = none := by
    rw [locate] at hlocate
    split at hlocate
    · cases hlocate
    · assumption
  rw [locate_eq hflaw] at hlocate
  obtain ⟨front, last, hlast⟩ :=
    (List.eq_nil_or_concat path.allPieces).resolve_left (pieces_ne_nil '/' path.chars)
  rw [List.concat_eq_append] at hlast
  rw [hlast, foldlM_follow_concat] at hlocate
  obtain ⟨folder, -, hfollow⟩ := hlocate
  rw [follow] at hfollow
  split at hfollow
  · cases hfollow
  · cases hfollow
  · rename_i hdirectory
    -- a last piece that stays or steps up leads to a directory
    split at hfollow
    · rw [← Except.ok.inj hfollow, hdirectory] at hnode
      cases hnode
    · rename_i hspeaks
      split at hfollow
      · rw [← Except.ok.inj hfollow, parent_directory hdirectory] at hnode
        cases hnode
      · rename_i hup
        split at hfollow
        · cases hfollow
        · refine ⟨String.ofList last, ?_, ?_⟩
          · rw [← Except.ok.inj hfollow, List.getLast?_concat]
          · rw [String.toList_ofList]
            refine DiskPath.fileName_of_last ?_ (Bool.eq_false_iff.mpr hspeaks) hup
            rw [hlast, List.getLast?_concat]

end Volume

section Looking

variable {volume : Volume} {α β : Type}

theorem bind_on (first : StateM Volume α) (rest : α → StateM Volume β) :
    (first >>= rest) volume = rest (first volume).1 (first volume).2 := rfl

theorem pure_on (value : α) : (pure value : StateM Volume α) volume = (value, volume) := rfl

end Looking

/-! ## Scanning -/

namespace ScanRequest

variable {request : ScanRequest} {volume : Volume} {root file : Place} {content : ByteText}
  {files : List SnapshotFile} {entries : List (Except String Place)}

/-- The place of the directory that a scan leaves out. -/
def excludedOn (request : ScanRequest) (volume : Volume) : Option Place :=
  request.excluded?.bind volume.placeAt?

/-- Whether a scan wants an entry. -/
def wantsOn (request : ScanRequest) (volume : Volume) (file : Place) : Bool :=
  (volume.nodeAt? (request.pathOf file)).map DiskNode.kind == some .file &&
    (request.pathOf file).isSnapshot &&
    !(request.excludedOn volume).any (fun directory =>
      (volume.placeAt? (request.pathOf file)).any directory.isPrefixOf) &&
    request.filter?.all (fun selects => selects file.relativePath)

/-- A file that was found, as it is read. -/
def snapshotOn (request : ScanRequest) (volume : Volume) (file : Place) :
    Except ScanProblem SnapshotFile :=
  match volume.read (request.pathOf file) with
  | .ok content => .ok ⟨request.pathOf file, file.relativePath, content⟩
  | .error problem => .error (.unreadable (request.pathOf file) problem)

/-- What is collected of some entries. -/
def collectOn (request : ScanRequest) (volume : Volume) :
    List (Except String Place) → Except ScanProblem (List SnapshotFile)
  | [] => .ok []
  | .error message :: _ => .error (.walk message)
  | .ok file :: rest =>
    if request.wantsOn volume file then
      match request.snapshotOn volume file with
      | .error problem => .error problem
      | .ok snapshot => (request.collectOn volume rest).map (snapshot :: ·)
    else request.collectOn volume rest

/-- A file is read as the volume holds it. -/
theorem readSnapshot_on (file : Place) : (request.readSnapshot file : StateM Volume _) volume =
    (request.snapshotOn volume file, volume) := by
  change (match volume.read (request.pathOf file) with
    | .ok content => (pure (.ok ⟨request.pathOf file, file.relativePath, content⟩) :
        StateM Volume (Except ScanProblem SnapshotFile))
    | .error problem => pure (.error (.unreadable (request.pathOf file) problem))) volume = _
  rw [snapshotOn]
  cases volume.read (request.pathOf file) <;> rfl

/-- Collecting leaves the volume as it is. -/
theorem collect_on (entries : List (Except String Place)) :
    (request.collect (request.excludedOn volume) entries : StateM Volume _) volume =
      (request.collectOn volume entries, volume) := by
  induction entries with
  | nil => rfl
  | cons entry rest ih =>
    cases entry with
    | error message => rfl
    | ok file =>
      have hwants : (request.wants (request.excludedOn volume) file : StateM Volume _) volume =
          (request.wantsOn volume file, volume) := rfl
      rw [collect, bind_on, hwants, collectOn]
      simp only
      cases request.wantsOn volume file with
      | false => exact ih
      | true =>
        simp only [if_true]
        rw [bind_on, readSnapshot_on]
        simp only
        cases request.snapshotOn volume file with
        | error problem => rfl
        | ok snapshot =>
          simp only
          rw [bind_on, ih]
          rfl

/-- What is collected stands for the entries that are wanted, one by one. -/
theorem collectOn_eq_ok : request.collectOn volume entries = .ok files ↔
    (∀ message, .error message ∉ entries) ∧
      ((entries.filterMap Except.toOption).filter (request.wantsOn volume)).map
        (request.snapshotOn volume) = files.map .ok := by
  induction entries generalizing files with
  | nil => simp [collectOn, eq_comm]
  | cons entry rest ih =>
    cases entry with
    | error message =>
      refine iff_of_false (fun h => by cases h) fun h => h.1 message List.mem_cons_self
    | ok file =>
      have hfree : (∀ message, .error message ∉ Except.ok file :: rest) ↔
          ∀ message, .error message ∉ rest := by simp
      have hentries : (Except.ok file :: rest).filterMap Except.toOption =
          file :: rest.filterMap Except.toOption := rfl
      rw [collectOn, hfree, hentries, List.filter_cons]
      split
      · rw [List.map_cons]
        cases request.snapshotOn volume file with
        | error problem => cases files <;> simp
        | ok snapshot =>
          cases files with
          | nil => cases request.collectOn volume rest <;> simp [Except.map]
          | cons first others =>
            rw [List.map_cons, List.cons.injEq, Except.ok.injEq, and_left_comm, ← ih]
            cases request.collectOn volume rest <;> simp [Except.map]
      · exact ih

/-- A collection fails because the walk met a problem or because a file that is wanted cannot be
read. -/
theorem of_collectOn_error {problem : ScanProblem}
    (h : request.collectOn volume entries = .error problem) :
    (∃ message, .error message ∈ entries ∧ problem = .walk message) ∨
      ∃ file reason, .ok file ∈ entries ∧ request.wantsOn volume file = true ∧
        volume.read (request.pathOf file) = .error reason ∧
          problem = .unreadable (request.pathOf file) reason := by
  induction entries with
  | nil => cases h
  | cons entry rest ih =>
    have hlater (hrest : request.collectOn volume rest = .error problem) :
        (∃ message, .error message ∈ entry :: rest ∧ problem = .walk message) ∨
          ∃ file reason, .ok file ∈ entry :: rest ∧ request.wantsOn volume file = true ∧
            volume.read (request.pathOf file) = .error reason ∧
              problem = .unreadable (request.pathOf file) reason := by
      rcases ih hrest with ⟨message, hmem, hproblem⟩ | ⟨file, reason, hmem, hfile⟩
      · exact .inl ⟨message, List.mem_cons_of_mem _ hmem, hproblem⟩
      · exact .inr ⟨file, reason, List.mem_cons_of_mem _ hmem, hfile⟩
    cases entry with
    | error message => exact .inl ⟨message, List.mem_cons_self, (Except.error.inj h).symm⟩
    | ok file =>
      rw [collectOn] at h
      split at h
      · rename_i hwants
        rw [snapshotOn] at h
        cases hread : volume.read (request.pathOf file) with
        | error reason =>
          rw [hread] at h
          exact .inr ⟨file, reason, List.mem_cons_self, hwants, hread, (Except.error.inj h).symm⟩
        | ok content =>
          rw [hread] at h
          cases hrest : request.collectOn volume rest with
          | error own =>
            rw [hrest] at h
            exact hlater (hrest.trans (congrArg _ (Except.error.inj h)))
          | ok others =>
            rw [hrest] at h
            cases h
      · exact hlater h

/-! ## Walks -/

variable [Walker]

/-- What a walk from the root yields. -/
def walkOn (request : ScanRequest) (volume : Volume) : List (Except String Place) :=
  Walker.walk volume request.root request.repositories

/-- A walk from the root that meets no problem. -/
def WalksOn (request : ScanRequest) (volume : Volume) : Prop :=
  ∀ message, .error message ∉ request.walkOn volume

/-- What a scan of a volume gives. -/
def scanOn (request : ScanRequest) (volume : Volume) : Except ScanProblem (List SnapshotFile) :=
  if (volume.nodeAt? request.root).isSome then
    match request.collectOn volume (request.walkOn volume) with
    | .error problem => .error problem
    | .ok [] => .error (.noSnapshots request.root)
    | .ok snapshots => .ok (snapshots.mergeSort SnapshotFile.precedes)
  else .error (.rootMissing request.root)

/-- A scan leaves the volume as it is. -/
theorem scan_on : (request.scan : StateM Volume _) volume = (request.scanOn volume, volume) := by
  have hentry : (MonadDisk.hasEntry request.root : StateM Volume Bool) volume =
      ((volume.nodeAt? request.root).isSome, volume) := by
    change ((_ : Option EntryKind).isSome, volume) = _
    rw [Option.isSome_map]
  have hexcluded : (request.excludedPlace? : StateM Volume _) volume =
      (request.excludedOn volume, volume) := by
    rw [excludedPlace?, excludedOn]
    cases request.excluded? <;> rfl
  have hwalk : (MonadWalk.walk request.root request.repositories : StateM Volume _) volume =
      (request.walkOn volume, volume) := rfl
  rw [scan, bind_on, hentry, scanOn]
  simp only
  cases (volume.nodeAt? request.root).isSome with
  | false => rfl
  | true =>
    simp only [if_true]
    rw [bind_on, hexcluded, bind_on, hwalk, bind_on, collect_on]
    simp only
    cases request.collectOn volume (request.walkOn volume) with
    | error problem => rfl
    | ok found => cases found <;> rfl

/-- The files that a scan finds, in the order of their steps. -/
def foundOn (request : ScanRequest) (volume : Volume) : List Place :=
  (((request.walkOn volume).filterMap Except.toOption).filter
    (request.wantsOn volume)).mergeSort Place.precedes

/-- What is found is what the walk yields and the request wants. -/
theorem mem_foundOn : file ∈ request.foundOn volume ↔
    .ok file ∈ request.walkOn volume ∧ request.wantsOn volume file = true := by
  rw [foundOn, List.mem_mergeSort, List.mem_filter, List.mem_filterMap]
  refine and_congr_left fun _ => ⟨?_, fun h => ⟨_, h, rfl⟩⟩
  rintro ⟨entry, hmem, hentry⟩
  cases entry with
  | error message => cases hentry
  | ok found => rwa [← Option.some.inj hentry]

/-- What is found is in order. -/
theorem pairwise_foundOn (request : ScanRequest) (volume : Volume) :
    (request.foundOn volume).Pairwise fun a b => a.precedes b = true :=
  List.pairwise_mergeSort Place.precedes_trans Place.precedes_total _

/-- Nothing is found twice. -/
theorem nodup_foundOn (request : ScanRequest) (volume : Volume) :
    (request.foundOn volume).Nodup :=
  (List.mergeSort_perm _ _).nodup_iff.mpr
    (List.Pairwise.filter _ (Walker.once volume request.root request.repositories))

omit [Walker] in
/-- Files that are found are known from their number and order. -/
theorem eq_of_same_members {files files' : List Place}
    (hsorted : files.Pairwise fun a b => a.precedes b = true)
    (hsorted' : files'.Pairwise fun a b => a.precedes b = true)
    (hnodup : files.Nodup) (hnodup' : files'.Nodup) (h : ∀ file, file ∈ files ↔ file ∈ files') :
    files = files' :=
  List.Perm.eq_of_pairwise (fun _ _ _ _ => Place.precedes_antisymm) hsorted hsorted'
    ((List.perm_ext_iff_of_nodup hnodup hnodup').mpr h)

/-- What leads to an entry that a walk yields is names. -/
theorem names_of_walkOn (hnamed : volume.IsNamed) (h : .ok file ∈ request.walkOn volume) :
    ∀ name ∈ file, IsEntryName name := by
  obtain ⟨root, -, hstands⟩ := Walker.stands h
  obtain ⟨node, hnode⟩ := Option.isSome_iff_exists.mp hstands
  exact fun name hmem => hnamed.names hnode name (List.mem_append_right _ hmem)

/-- Entries that are found have proper names. -/
theorem names_of_found (hnamed : volume.IsNamed) (h : file ∈ request.foundOn volume) :
    ∀ name ∈ file, IsEntryName name :=
  names_of_walkOn hnamed (mem_foundOn.mp h).1

omit [Walker] in
/-- A snapshot is its path, its path from the root, and its content. -/
theorem snapshotOn_eq_ok {snapshot : SnapshotFile} :
    request.snapshotOn volume file = .ok snapshot ↔
      ∃ content, volume.read (request.pathOf file) = .ok content ∧
        snapshot = ⟨request.pathOf file, file.relativePath, content⟩ := by
  rw [snapshotOn]
  cases volume.read (request.pathOf file) with
  | error problem => simp
  | ok content => simp [eq_comm]

/-! ## Outcomes -/

/-- Whether one reading of a file comes before another one or is the same; problems do not count. -/
def readBefore : Except ScanProblem SnapshotFile → Except ScanProblem SnapshotFile → Bool
  | .ok a, .ok b => a.precedes b
  | _, _ => false

omit [Walker] in
/-- Files can be put in order before or after they are read. -/
theorem map_mergeSort_snapshotOn {places : List Place}
    (hnames : ∀ place ∈ places, ∀ name ∈ place, IsEntryName name)
    (h : places.map (request.snapshotOn volume) = files.map .ok) :
    (places.mergeSort Place.precedes).map (request.snapshotOn volume) =
      (files.mergeSort SnapshotFile.precedes).map .ok := by
  have hread (place : Place) (hplace : place ∈ places) :
      ∃ content, request.snapshotOn volume place =
        .ok ⟨request.pathOf place, place.relativePath, content⟩ := by
    obtain ⟨snapshot, -, hsnapshot⟩ := List.mem_map.mp (h ▸ List.mem_map_of_mem hplace)
    obtain ⟨content, -, rfl⟩ := snapshotOn_eq_ok.mp hsnapshot.symm
    exact ⟨content, hsnapshot.symm⟩
  rw [List.map_mergeSort (s := readBefore), h, ← List.map_mergeSort (s := readBefore)]
  · exact fun _ _ _ _ => rfl
  · intro a ha b hb
    obtain ⟨_, hfirst⟩ := hread a ha
    obtain ⟨_, hsecond⟩ := hread b hb
    rw [hfirst, hsecond, readBefore, SnapshotFile.precedes, Place.names_relativePath (hnames a ha),
      Place.names_relativePath (hnames b hb)]

/-- What a scan of a volume gives where there may be no snapshots. -/
def filesOn (request : ScanRequest) (volume : Volume) : Except ScanProblem (List SnapshotFile) :=
  match request.scanOn volume with
  | .error (.noSnapshots _) => .ok []
  | result => result

/-- A scan that may find nothing leaves the volume as it is too. -/
theorem scanAllowingNone_on :
    (request.scanAllowingNone : StateM Volume _) volume = (request.filesOn volume, volume) := by
  rw [scanAllowingNone, bind_on, scan_on, filesOn]
  cases request.scanOn volume with
  | ok files => rfl
  | error problem => cases problem <;> rfl

omit [Walker] in
/-- Files that can all be read make a list of snapshots. -/
theorem exists_snapshots {places : List Place}
    (h : ∀ place ∈ places, ∃ file, request.snapshotOn volume place = .ok file) :
    ∃ files : List SnapshotFile, places.map (request.snapshotOn volume) = files.map .ok := by
  induction places with
  | nil => exact ⟨[], rfl⟩
  | cons place rest ih =>
    obtain ⟨file, hfile⟩ := h place List.mem_cons_self
    obtain ⟨files, hfiles⟩ := ih fun other hmem => h other (List.mem_cons_of_mem _ hmem)
    exact ⟨file :: files, by rw [List.map_cons, List.map_cons, hfile, hfiles]⟩

/-- What is collected of a whole walk, put in order, is what the files that are found are read
as. -/
theorem collectOn_walkOn (hnamed : volume.IsNamed) :
    (∃ found, request.collectOn volume (request.walkOn volume) = .ok found ∧
        files = found.mergeSort SnapshotFile.precedes) ↔
      request.WalksOn volume ∧
        (request.foundOn volume).map (request.snapshotOn volume) = files.map .ok := by
  let places := ((request.walkOn volume).filterMap Except.toOption).filter (request.wantsOn volume)
  have hmem (place : Place) : place ∈ places ↔ place ∈ request.foundOn volume :=
    List.mem_mergeSort.symm
  have hnames (place : Place) (hplace : place ∈ places) : ∀ name ∈ place, IsEntryName name :=
    names_of_found hnamed ((hmem place).mp hplace)
  constructor
  · rintro ⟨found, hfound, rfl⟩
    obtain ⟨hwalks, hread⟩ := collectOn_eq_ok.mp hfound
    exact ⟨hwalks, map_mergeSort_snapshotOn hnames hread⟩
  · rintro ⟨hwalks, hfiles⟩
    obtain ⟨found, hread⟩ : ∃ found : List SnapshotFile,
        places.map (request.snapshotOn volume) = found.map .ok := by
      refine exists_snapshots fun place hplace => ?_
      obtain ⟨file, -, hfile⟩ := List.mem_map.mp
        (hfiles ▸ List.mem_map_of_mem ((hmem place).mp hplace))
      exact ⟨file, hfile.symm⟩
    refine ⟨found, collectOn_eq_ok.mpr ⟨hwalks, hread⟩, ?_⟩
    have hsorted := map_mergeSort_snapshotOn hnames hread
    exact List.map_injective_iff.mpr (fun _ _ => Except.ok.inj) (hfiles.symm.trans hsorted)

omit [Walker] in
/-- Something stands where a path leads to a place. -/
theorem nodeAt?_isSome_iff {path : DiskPath} :
    (volume.nodeAt? path).isSome = true ↔ ∃ place, volume.placeAt? path = some place := by
  simp only [Volume.placeAt?_eq_some_iff, Volume.nodeAt?]
  cases volume.locate path <;> simp

/-- A scan succeeds with what it finds, in order, if its root is there, the walk meets no problem
and everything can be read, unless there is nothing to be found. -/
theorem scanOn_eq_ok (hnamed : volume.IsNamed) :
    request.scanOn volume = .ok files ↔ files ≠ [] ∧
      ∃ root, volume.placeAt? request.root = some root ∧ request.WalksOn volume ∧
        (request.foundOn volume).map (request.snapshotOn volume) = files.map .ok := by
  rw [exists_and_right, ← nodeAt?_isSome_iff, ← collectOn_walkOn hnamed, scanOn]
  split
  · rename_i hroot
    simp only [hroot, true_and]
    cases request.collectOn volume (request.walkOn volume) with
    | error problem => simp
    | ok found =>
      have hlength := (List.mergeSort_perm found SnapshotFile.precedes).length_eq
      cases found with
      | nil => simp
      | cons first rest =>
        simp only [Except.ok.injEq, exists_eq_left', eq_comm (a := files)]
        refine (and_iff_right_of_imp ?_).symm
        rintro rfl hnil
        rw [hnil] at hlength
        cases hlength
  · rename_i hroot
    simp [hroot]

/-- Nothing is found exactly if the root is there, the walk meets no problem and there is nothing to
find. -/
theorem scanOn_eq_noSnapshots {named : DiskPath} (hnamed : volume.IsNamed) :
    request.scanOn volume = .error (.noSnapshots named) ↔ named = request.root ∧
      ∃ root, volume.placeAt? request.root = some root ∧ request.WalksOn volume ∧
        request.foundOn volume = [] := by
  have hnone : (request.WalksOn volume ∧ request.foundOn volume = []) ↔
      request.collectOn volume (request.walkOn volume) = .ok [] := by
    have hempty : _ ↔ request.WalksOn volume ∧ (request.foundOn volume).map
        (request.snapshotOn volume) = ([] : List SnapshotFile).map .ok := collectOn_walkOn hnamed
    rw [List.map_nil, List.map_eq_nil_iff] at hempty
    rw [← hempty]
    constructor
    · rintro ⟨found, hfound, hsorted⟩
      have hlength := (List.mergeSort_perm found SnapshotFile.precedes).length_eq
      rw [← hsorted] at hlength
      rwa [List.length_eq_zero_iff.mp hlength.symm] at hfound
    · exact fun h => ⟨[], h, by simp⟩
  rw [exists_and_right, ← nodeAt?_isSome_iff, hnone, scanOn]
  split
  · rename_i hroot
    simp only [hroot, true_and]
    cases hcollect : request.collectOn volume (request.walkOn volume) with
    | error problem =>
      rcases of_collectOn_error hcollect with ⟨_, -, rfl⟩ | ⟨_, _, -, -, -, rfl⟩ <;> simp
    | ok found => cases found <;> simp [eq_comm]
  · rename_i hroot
    simp [hroot]

/-- A scan gives what it finds, in the order that it finds it, when everything can be read. -/
theorem filesOn_eq_ok (hnamed : volume.IsNamed) :
    request.filesOn volume = .ok files ↔ ∃ root, volume.placeAt? request.root = some root ∧
      request.WalksOn volume ∧
        (request.foundOn volume).map (request.snapshotOn volume) = files.map .ok := by
  have hcases : request.filesOn volume = .ok files ↔ request.scanOn volume = .ok files ∨
      files = [] ∧ ∃ named, request.scanOn volume = .error (.noSnapshots named) := by
    rw [filesOn]
    cases request.scanOn volume with
    | ok found => simp
    | error problem => cases problem <;> simp [eq_comm]
  rw [hcases, scanOn_eq_ok hnamed]
  by_cases hnil : files = []
  · subst hnil
    simp [scanOn_eq_noSnapshots hnamed]
  · simp [hnil]

end ScanRequest

end TypedRoutes
