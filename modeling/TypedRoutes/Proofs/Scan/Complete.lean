import TypedRoutes.Proofs.Scan.Compared

/-!
# Scans are complete

What a scan gives is known from each file by itself: whether the walk yields it, its name, where it
stands, and what leads to it. A scan gives exactly the files that pass, in the order of the names on
their paths. It fails for want of snapshots exactly when the walk meets no problem and no file
passes.
-/

namespace TypedRoutes

namespace ScanRequest

variable {request : ScanRequest} {volume : Volume} {root file : Place} {content : ByteText}
  {snapshots : List SnapshotFile}

/-! ## Paths of files -/

/-- The root of a scan that is there has a path that is not empty. -/
theorem root_ne_nil (hroot : volume.placeAt? request.root = some root) :
    request.root.chars ≠ [] := by
  intro hnil
  have hlocate := (Volume.placeAt?_eq_some_iff.mp hroot).1
  rw [Volume.locate] at hlocate
  simp [DiskPath.flaw?, hnil] at hlocate

/-- The path of a file leads nowhere but to the file. -/
theorem locate_pathOf (hroot : volume.placeAt? request.root = some root)
    (hnames : ∀ name ∈ file, IsEntryName name) {place : Place}
    (h : volume.locate (request.pathOf file) = .ok place) : place = root ++ file := by
  have hlocate := (Volume.placeAt?_eq_some_iff.mp hroot).1
  rw [pathOf] at h
  split at h
  · rename_i hempty
    rw [hlocate] at h
    rw [List.isEmpty_iff.mp hempty, List.append_nil]
    exact (Except.ok.inj h).symm
  · obtain ⟨-, folder, hfolder, -, hfollow⟩ :=
      (Volume.locate_join (root_ne_nil hroot) (Place.isRooted_relativePath hnames)).mp h
    obtain rfl : root = folder := Except.ok.inj (hlocate.symm.trans hfolder)
    rw [Volume.target_of_foldlM (Place.neverUp_relativePath hnames) hfollow]
    exact congrArg (root ++ ·) (Place.names_relativePath hnames)

/-- The path of a file leads to it if it can be looked up at all. -/
theorem locate_pathOf_iff {node : DiskNode} (hroot : volume.placeAt? request.root = some root)
    (hnames : ∀ name ∈ file, IsEntryName name) (hnode : volume.node? (root ++ file) = some node) :
    volume.locate (request.pathOf file) = .ok (root ++ file) ↔
      (request.pathOf file).flaw? = none := by
  have hlocate := (Volume.placeAt?_eq_some_iff.mp hroot).1
  constructor
  · intro h
    rw [Volume.locate] at h
    split at h
    · cases h
    · assumption
  · rw [pathOf]
    split
    · rename_i hempty
      rw [List.isEmpty_iff.mp hempty, List.append_nil]
      exact fun _ => hlocate
    · rename_i hne
      have hfile : file ≠ [] := by simpa using hne
      have hdirectory : volume.node? root = some .directory :=
        Volume.directory_above (List.prefix_append root file)
          (fun heq => hfile (by simpa using heq.symm)) hnode
      exact fun hflaw => (Volume.locate_join (root_ne_nil hroot)
        (Place.isRooted_relativePath hnames)).mpr
          ⟨hflaw, root, hlocate, hdirectory, Volume.follow_place hnames hfile hnode⟩

/-- The path of a file below the root is named like the file. -/
theorem fileName_pathOf (hroot : volume.placeAt? request.root = some root)
    (hnames : ∀ name ∈ file, IsEntryName name) {last : String} (hlast : file.getLast? = some last) :
    (request.pathOf file).fileName? = some last.toList := by
  have hne : file ≠ [] := by
    rintro rfl
    cases hlast
  have hname := hnames last (List.mem_of_getLast? hlast)
  rw [pathOf, if_neg (by simpa using hne)]
  obtain ⟨front, hpieces, -⟩ := DiskPath.allPieces_join (root_ne_nil hroot)
    (Place.isRooted_relativePath hnames)
  refine DiskPath.fileName_of_last ?_ hname.speaks hname.notUp
  rw [hpieces, Place.allPieces_relativePath hne hnames,
    List.getLast?_append_of_ne_nil _ (by simpa using hne), List.getLast?_map, hlast]
  rfl

/-- The path of a file is that of a snapshot exactly when the file is named like one. -/
theorem isSnapshot_pathOf_iff (hnamed : volume.IsNamed)
    (hroot : volume.placeAt? request.root = some root)
    (hnode : volume.node? (root ++ file) = some (.file content)) :
    (request.pathOf file).isSnapshot = true ↔ ∃ name, (root ++ file).getLast? = some name ∧
      snapshotSuffix.length < name.toList.length ∧ snapshotSuffix <:+ name.toList := by
  have hname : ∃ name, (root ++ file).getLast? = some name ∧
      (request.pathOf file).fileName? = some name.toList := by
    by_cases hne : file = []
    · subst hne
      rw [List.append_nil] at hnode ⊢
      exact Volume.fileName_of_file (Volume.placeAt?_eq_some_iff.mp hroot).1 hnode
    · have hlast := List.getLast?_eq_some_getLast hne
      refine ⟨_, (List.getLast?_append_of_ne_nil root hne).trans hlast, ?_⟩
      exact fileName_pathOf hroot
        (fun name hmem => hnamed.names hnode name (List.mem_append_right _ hmem)) hlast
  obtain ⟨name, hlast, hfileName⟩ := hname
  rw [DiskPath.isSnapshot, hfileName, Option.any_some, isSnapshotName, Bool.and_eq_true,
    decide_eq_true_eq, List.isSuffixOf_iff_suffix, hlast]
  simp

/-! ## Files that are to be found -/

variable [Walker]

/-- What makes a file one that a scan is to find: the walk yields it and its path leads to it, its
name is longer than the suffix and ends with it, it does not stand in the excluded directory if
there is one, and the filter selects its path from the root. -/
structure Finds (request : ScanRequest) (volume : Volume) (root file : Place)
    (content : ByteText) : Prop where
  yielded : .ok file ∈ request.walkOn volume
  leads : volume.locate (request.pathOf file) = .ok (root ++ file)
  stands : volume.node? (root ++ file) = some (.file content)
  named : ∃ name, (root ++ file).getLast? = some name ∧
    snapshotSuffix.length < name.toList.length ∧ snapshotSuffix <:+ name.toList
  outside : ∀ path directory, request.excluded? = some path →
    volume.placeAt? path = some directory → ¬ directory <+: root ++ file
  matched : ∀ selects, request.filter? = some selects → selects file.relativePath = true

omit [Walker] in
/-- A wanted entry is a file, and its path leads to it. -/
theorem file_of_wantsOn (hroot : volume.placeAt? request.root = some root)
    (hnames : ∀ name ∈ file, IsEntryName name) (h : request.wantsOn volume file = true) :
    volume.locate (request.pathOf file) = .ok (root ++ file) ∧
      ∃ content, volume.node? (root ++ file) = some (.file content) := by
  simp only [wantsOn, Bool.and_eq_true, beq_iff_eq, Option.map_eq_some_iff] at h
  obtain ⟨⟨⟨⟨node, hnode, hkind⟩, -⟩, -⟩, -⟩ := h
  rw [Volume.nodeAt?] at hnode
  cases hlocate : volume.locate (request.pathOf file) with
  | error problem =>
    rw [hlocate] at hnode
    cases hnode
  | ok place =>
    obtain rfl := locate_pathOf hroot hnames hlocate
    rw [hlocate] at hnode
    refine ⟨rfl, ?_⟩
    cases node with
    | directory => cases hkind
    | file content => exact ⟨content, hnode⟩

omit [Walker] in
/-- What a scan asks of a file that its path leads to. -/
theorem wantsOn_iff (hleads : volume.locate (request.pathOf file) = .ok (root ++ file))
    (hstands : volume.node? (root ++ file) = some (.file content)) :
    request.wantsOn volume file = true ↔ (request.pathOf file).isSnapshot = true ∧
      (∀ path directory, request.excluded? = some path →
        volume.placeAt? path = some directory → ¬ directory <+: root ++ file) ∧
      ∀ selects, request.filter? = some selects → selects file.relativePath = true := by
  have hplace : volume.placeAt? (request.pathOf file) = some (root ++ file) :=
    Volume.placeAt?_eq_some_iff.mpr ⟨hleads, by rw [hstands]; rfl⟩
  have houtside : (!(request.excludedOn volume).any (·.isPrefixOf (root ++ file))) = true ↔
      ∀ path directory, request.excluded? = some path →
        volume.placeAt? path = some directory → ¬ directory <+: root ++ file := by
    rw [excludedOn, Bool.not_eq_true', Option.any_eq_false]
    simp only [← List.isPrefixOf_iff_prefix, Bool.not_eq_true, Option.bind_eq_some_iff]
    constructor
    · intro h path directory hpath hdirectory
      exact h directory ⟨path, hpath, hdirectory⟩
    · rintro h directory ⟨path, hpath, hdirectory⟩
      exact h path directory hpath hdirectory
  rw [← houtside, ← Option.all_eq_true, wantsOn, Volume.nodeAt?, hleads, hplace]
  simp [hstands, DiskNode.kind, and_assoc]

/-- A scan finds the files that it is to find. -/
theorem mem_foundOn_iff (hnamed : volume.IsNamed)
    (hroot : volume.placeAt? request.root = some root) :
    file ∈ request.foundOn volume ↔ ∃ content, request.Finds volume root file content := by
  rw [mem_foundOn]
  constructor
  · rintro ⟨hyielded, hwants⟩
    obtain ⟨hleads, content, hstands⟩ :=
      file_of_wantsOn hroot (names_of_walkOn hnamed hyielded) hwants
    obtain ⟨hsnapshot, houtside, hmatched⟩ := (wantsOn_iff hleads hstands).mp hwants
    exact ⟨content, hyielded, hleads, hstands,
      (isSnapshot_pathOf_iff hnamed hroot hstands).mp hsnapshot, houtside, hmatched⟩
  · rintro ⟨content, h⟩
    exact ⟨h.yielded, (wantsOn_iff h.leads h.stands).mpr
      ⟨(isSnapshot_pathOf_iff hnamed hroot h.stands).mpr h.named, h.outside, h.matched⟩⟩

/-- What is read of a file is what stands there, if it is a text. -/
theorem Finds.snapshotOn_eq_ok_iff (h : request.Finds volume root file content)
    {snapshot : SnapshotFile} :
    request.snapshotOn volume file = .ok snapshot ↔ ∃ text, content = .text text ∧
      snapshot = ⟨request.pathOf file, file.relativePath, text⟩ := by
  rw [snapshotOn_eq_ok]
  refine exists_congr fun text => and_congr_left fun _ => ?_
  rw [Volume.read_eq_ok_iff]
  constructor
  · rintro ⟨place, hlocate, hnode⟩
    rw [← Except.ok.inj (h.leads.symm.trans hlocate), h.stands] at hnode
    exact DiskNode.file.inj (Option.some.inj hnode)
  · rintro rfl
    exact ⟨_, h.leads, h.stands⟩

/-! ## Outcomes -/

/-- What a scan that succeeds was to find are texts. -/
theorem text_of_finds (hnamed : volume.IsNamed) (hroot : volume.placeAt? request.root = some root)
    (hfiles : (request.foundOn volume).map (request.snapshotOn volume) = snapshots.map .ok)
    (hfinds : request.Finds volume root file content) : ∃ text, content = .text text := by
  have hfound := (mem_foundOn_iff hnamed hroot).mpr ⟨content, hfinds⟩
  have hok := List.mem_map_of_mem (f := request.snapshotOn volume) hfound
  rw [hfiles] at hok
  obtain ⟨snapshot, -, hsnapshot⟩ := List.mem_map.mp hok
  exact (hfinds.snapshotOn_eq_ok_iff.mp hsnapshot.symm).imp fun _ h => h.1

/-- A scan succeeds exactly when the walk meets no problem, there is something to find and all of it
is text. -/
theorem exists_scanOn_eq_ok_iff (hnamed : volume.IsNamed) :
    (∃ snapshots, request.scanOn volume = .ok snapshots) ↔
      ∃ root, volume.placeAt? request.root = some root ∧ request.WalksOn volume ∧
        (∃ file content, request.Finds volume root file content) ∧
          ∀ file content, request.Finds volume root file content →
            ∃ text, content = .text text := by
  constructor
  · rintro ⟨snapshots, h⟩
    obtain ⟨hne, root, hroot, hwalks, hfiles⟩ := (scanOn_eq_ok hnamed).mp h
    refine ⟨root, hroot, hwalks, ?_, fun file content => text_of_finds hnamed hroot hfiles⟩
    obtain ⟨file, hmem⟩ : ∃ file, file ∈ request.foundOn volume := by
      refine List.exists_mem_of_ne_nil _ fun hnil => hne ?_
      rw [hnil] at hfiles
      exact List.map_eq_nil_iff.mp hfiles.symm
    exact ⟨file, (mem_foundOn_iff hnamed hroot).mp hmem⟩
  · rintro ⟨root, hroot, hwalks, ⟨file, content, hfinds⟩, htexts⟩
    obtain ⟨snapshots, hfiles⟩ : ∃ snapshots : List SnapshotFile,
        (request.foundOn volume).map (request.snapshotOn volume) = snapshots.map .ok := by
      refine exists_snapshots fun other hother => ?_
      obtain ⟨content, hown⟩ := (mem_foundOn_iff hnamed hroot).mp hother
      obtain ⟨text, htext⟩ := htexts other content hown
      exact ⟨_, hown.snapshotOn_eq_ok_iff.mpr ⟨text, htext, rfl⟩⟩
    refine ⟨snapshots, (scanOn_eq_ok hnamed).mpr ⟨?_, root, hroot, hwalks, hfiles⟩⟩
    rintro rfl
    have hmem := (mem_foundOn_iff hnamed hroot).mpr ⟨content, hfinds⟩
    rw [List.map_eq_nil_iff.mp hfiles] at hmem
    cases hmem

/-- What a scan that succeeds gives. -/
theorem mem_of_scanOn (hnamed : volume.IsNamed)
    (hroot : volume.placeAt? request.root = some root)
    (hfiles : (request.foundOn volume).map (request.snapshotOn volume) = snapshots.map .ok)
    (snapshot : SnapshotFile) :
    snapshot ∈ snapshots ↔ ∃ file text, request.Finds volume root file (.text text) ∧
      snapshot = ⟨request.pathOf file, file.relativePath, text⟩ := by
  have hmem : snapshot ∈ snapshots ↔ Except.ok snapshot ∈
      (request.foundOn volume).map (request.snapshotOn volume) := by
    rw [hfiles, List.mem_map]
    simp
  rw [hmem, List.mem_map]
  refine exists_congr fun file => ?_
  rw [mem_foundOn_iff hnamed hroot]
  constructor
  · rintro ⟨⟨content, hfinds⟩, hsnapshot⟩
    obtain ⟨text, rfl, heq⟩ := hfinds.snapshotOn_eq_ok_iff.mp hsnapshot
    exact ⟨text, hfinds, heq⟩
  · rintro ⟨text, hfinds, rfl⟩
    exact ⟨⟨_, hfinds⟩, hfinds.snapshotOn_eq_ok_iff.mpr ⟨text, rfl, rfl⟩⟩

omit [Walker] in
/-- Snapshots are known by what leads to them from the root. -/
theorem relatives_of_read {places : List Place}
    (h : places.map (request.snapshotOn volume) = snapshots.map .ok) :
    snapshots.map SnapshotFile.relative = places.map Place.relativePath := by
  induction places generalizing snapshots with
  | nil => rw [List.map_eq_nil_iff.mp h.symm]; rfl
  | cons place rest ih =>
    cases snapshots with
    | nil => cases h
    | cons file others =>
      obtain ⟨hfile, hrest⟩ := List.cons.inj h
      obtain ⟨text, -, rfl⟩ := snapshotOn_eq_ok.mp hfile
      rw [List.map_cons, List.map_cons, ih hrest]

/-- Snapshots strictly follow each other in the order of the names on their relative paths. -/
theorem increasing_of_scanOn (hnamed : volume.IsNamed)
    (hfiles : (request.foundOn volume).map (request.snapshotOn volume) = snapshots.map .ok) :
    snapshots.Pairwise fun a b => a.relative.names < b.relative.names := by
  have hnames : (snapshots.map SnapshotFile.relative).map DiskPath.names =
      request.foundOn volume := by
    rw [relatives_of_read hfiles, List.map_map]
    refine (List.map_congr_left fun file hfile => ?_).trans (List.map_id _)
    exact Place.names_relativePath (names_of_found hnamed hfile)
  have hincreasing : (request.foundOn volume).Pairwise (· < ·) :=
    (request.pairwise_foundOn volume).imp₂ (fun _ _ => Place.lt_of_precedes)
      (request.nodup_foundOn volume)
  rw [← hnames, List.map_map, List.pairwise_map] at hincreasing
  exact hincreasing

/-- A scan tells of a problem of the walk only if the walk met it. -/
theorem walk_of_scanOn {message : String}
    (h : request.scanOn volume = .error (.walk message)) :
    .error message ∈ request.walkOn volume := by
  rw [scanOn] at h
  split at h
  · cases hcollect : request.collectOn volume (request.walkOn volume) with
    | error problem =>
      rw [hcollect] at h
      obtain rfl : problem = .walk message := Except.error.inj h
      rcases of_collectOn_error hcollect with ⟨own, hmem, hown⟩ | ⟨_, _, -, -, -, hother⟩
      · rwa [ScanProblem.walk.inj hown]
      · cases hother
    | ok found =>
      rw [hcollect] at h
      cases found <;> cases h
  · cases h

/-- A scan leaves the volume alone and tells exactly what there is, whatever the walk passes over.
It succeeds when the walk meets no problem, there is a file to find and every such file is a text;
it gives then a snapshot of each with its content and nothing else, strictly in the order of the
names on their paths from the root. It fails for want of snapshots exactly when the root is there,
the walk meets no problem and no file is to be found, and tells only of problems that the walk
met. -/
theorem scan_complete (request : ScanRequest) (volume : Volume) (hnamed : volume.IsNamed) :
    ∃ outcome, (request.scan : StateM Volume _) volume = (outcome, volume) ∧
      ((∃ snapshots, outcome = .ok snapshots) ↔
        ∃ root, volume.placeAt? request.root = some root ∧ request.WalksOn volume ∧
          (∃ file content, request.Finds volume root file content) ∧
            ∀ file content, request.Finds volume root file content →
              ∃ text, content = .text text) ∧
      (∀ snapshots, outcome = .ok snapshots →
        ∃ root, volume.placeAt? request.root = some root ∧
          (∀ snapshot, snapshot ∈ snapshots ↔
            ∃ file text, request.Finds volume root file (.text text) ∧
              snapshot = ⟨request.pathOf file, file.relativePath, text⟩) ∧
          snapshots.Pairwise fun a b => a.relative.names < b.relative.names) ∧
      (∀ named, outcome = .error (.noSnapshots named) ↔ named = request.root ∧
        ∃ root, volume.placeAt? request.root = some root ∧ request.WalksOn volume ∧
          ∀ file content, ¬ request.Finds volume root file content) ∧
      ∀ message, outcome = .error (.walk message) → .error message ∈ request.walkOn volume := by
  refine ⟨_, scan_on, exists_scanOn_eq_ok_iff hnamed, fun snapshots h => ?_, fun named => ?_,
    fun message => walk_of_scanOn⟩
  · obtain ⟨-, root, hroot, -, hfiles⟩ := (scanOn_eq_ok hnamed).mp h
    exact ⟨root, hroot, mem_of_scanOn hnamed hroot hfiles, increasing_of_scanOn hnamed hfiles⟩
  · rw [scanOn_eq_noSnapshots hnamed]
    refine and_congr_right fun _ => exists_congr fun root => and_congr_right fun hroot =>
      and_congr_right fun _ => ?_
    rw [List.eq_nil_iff_forall_not_mem]
    simp only [mem_foundOn_iff hnamed hroot, not_exists]

end ScanRequest

namespace ScanRequest

open scoped IgnoreTable

/-- Below the root: two snapshots in directories of which one name begins with the other, one in the
directory that is left out, one that a list hides, and a file whose name is the suffix alone. -/
def crowdedVolume : Volume :=
  let folders := [["in"], ["in", "a"], ["in", "a.b"], ["in", "out"]].foldl Volume.addDirectory .bare
  (((((folders.putFile ["in", "a.b", "x.nestia.json"] "1").putFile
    ["in", "a", "x.nestia.json"] "2").putFile
      ["in", "out", "x.nestia.json"] "3").putFile ["in", ".nestia.json"] "4").putFile
        ["in", "hidden.nestia.json"] "5").putFile ["in", ".ignore"] "hidden.nestia.json"

/-- A directory is scanned but for one in it. -/
def crowdedRequest : ScanRequest where
  root := .ofString "in"
  excluded? := some (.ofString "in/out")

/-- The snapshots of that directory; a slash after a name does not count in their order. -/
def crowdedFiles : List SnapshotFile :=
  [⟨.ofString "in/a/x.nestia.json", .ofString "a/x.nestia.json", "2"⟩,
    ⟨.ofString "in/a.b/x.nestia.json", .ofString "a.b/x.nestia.json", "1"⟩]

theorem scanOn_crowdedVolume : crowdedRequest.scanOn crowdedVolume = .ok crowdedFiles := by
  have hroot : crowdedVolume.placeAt? crowdedRequest.root = some ["in"] := by decide +kernel
  have hfound : crowdedRequest.foundOn crowdedVolume =
      [["a", "x.nestia.json"], ["a.b", "x.nestia.json"]] :=
    IgnoreTable.foundOn_eq hroot (by decide +kernel) (by decide +kernel) (by decide +kernel)
      (by decide +kernel)
  refine (scanOn_eq_ok (by decide +kernel)).mpr ⟨List.cons_ne_nil _ _, ["in"], hroot,
    IgnoreTable.error_not_mem_walk, ?_⟩
  rw [hfound]
  decide +kernel

theorem scan_complete_crowdedVolume :
    crowdedVolume.IsNamed ∧
      (∀ snapshot, snapshot ∈ crowdedFiles ↔
        ∃ file text, crowdedRequest.Finds crowdedVolume ["in"] file (.text text) ∧
          snapshot = ⟨crowdedRequest.pathOf file, file.relativePath, text⟩) ∧
      crowdedFiles.Pairwise fun a b => a.relative.names < b.relative.names := by
  have hnamed : crowdedVolume.IsNamed := by decide +kernel
  have hroot : crowdedVolume.placeAt? crowdedRequest.root = some ["in"] := by decide +kernel
  obtain ⟨outcome, hscan, -, hok, -⟩ := scan_complete crowdedRequest crowdedVolume hnamed
  have houtcome : outcome = .ok crowdedFiles := by
    rw [scan_on, scanOn_crowdedVolume] at hscan
    exact (Prod.mk.inj hscan).1.symm
  obtain ⟨root, hplace, hmem, hincreasing⟩ := hok _ houtcome
  obtain rfl : root = ["in"] := Option.some.inj (hplace.symm.trans hroot)
  exact ⟨hnamed, hmem, hincreasing⟩

end ScanRequest

end TypedRoutes
