import Mathlib.Data.List.Nodup
import TypedRoutes.Proofs.Run.Writes
import TypedRoutes.Proofs.Scan.Complete

/-!
# What a run touches

A run writes outputs and makes directories on the way to them. Outputs of different snapshots stand
at different places, so what was written stays; and no snapshot that was scanned stands where an
output was written, since the output directory is left out of the scan whenever it is there.
-/

namespace TypedRoutes

/-! ## Snapshots that are found -/

namespace ScanRequest

variable {request : ScanRequest} {volume : Volume} {root file : Place}

/-- An output directory that can be reached later on is left out by a scan if it is there. -/
theorem excludedOn_of_reached {after : Volume} {output : DiskPath}
    (hexcluded : request.excluded? = some output) (hup : output.NeverUp)
    (hreached : after.locate output = .ok (after.target output))
    (hdirectory : volume.node? (volume.target output) = some .directory) :
    request.excludedOn volume = some (volume.target output) := by
  obtain ⟨hflaw, hshort, -, -⟩ := (Volume.locate_eq_ok_iff hup).mp hreached
  rw [excludedOn, hexcluded, Option.bind_some, Volume.placeAt?_eq_some_iff]
  exact ⟨Volume.locate_of_directory hup hflaw hshort hdirectory, by rw [hdirectory]; rfl⟩

/-- A file that was read is read the same where no directory is missing and it is the same. -/
theorem snapshotOn_kept {other : Volume} {snapshot : SnapshotFile}
    (hroot : volume.placeAt? request.root = some root)
    (hnames : ∀ name ∈ file, IsEntryName name) (hhome : other.home = volume.home)
    (hkept : ∀ place, volume.node? place = some .directory → other.node? place = some .directory)
    (hsame : volume.SameFile other (root ++ file))
    (h : request.snapshotOn volume file = .ok snapshot) :
    request.snapshotOn other file = .ok snapshot := by
  obtain ⟨content, hread, rfl⟩ := snapshotOn_eq_ok.mp h
  obtain ⟨place, hlocate, hnode⟩ := Volume.read_eq_ok_iff.mp hread
  obtain rfl := locate_pathOf hroot hnames hlocate
  exact snapshotOn_eq_ok.mpr ⟨content, Volume.read_eq_ok_iff.mpr
    ⟨_, Volume.locate_kept hhome hkept hlocate, (hsame content).mpr hnode⟩, rfl⟩

/-- The snapshots of a scan stand for the files that were found, one by one. -/
theorem filterMap_snapshots {α : Type} {files : List SnapshotFile} {places : List Place}
    (use : SnapshotFile → Option α)
    (h : places.map (request.snapshotOn volume) = files.map .ok) :
    files.filterMap use =
      places.filterMap fun place => (request.snapshotOn volume place).toOption.bind use := by
  calc files.filterMap use
    _ = (files.map Except.ok).filterMap
        fun read : Except ScanProblem SnapshotFile => read.toOption.bind use := by
      rw [List.filterMap_map]
      rfl
    _ = _ := by
      rw [← h, List.filterMap_map]
      rfl

variable [Walker]

/-- Files below the root are found by their names. -/
theorem isSnapshotPlace_of_found (hnamed : volume.IsNamed)
    (hroot : volume.placeAt? request.root = some root)
    (h : file ∈ request.foundOn volume) (hne : file ≠ []) :
    Settings.IsSnapshotPlace file := by
  obtain ⟨content, hfinds⟩ := (mem_foundOn_iff hnamed hroot).mp h
  obtain ⟨name, hlast, hlong, hsuffix⟩ := hfinds.named
  rw [List.getLast?_append_of_ne_nil root hne] at hlast
  refine ⟨names_of_found hnamed h, name, hlast, ?_⟩
  rw [isSnapshotName, Bool.and_eq_true, decide_eq_true_eq, List.isSuffixOf_iff_suffix]
  exact ⟨hlong, hsuffix⟩

/-- A root that is a file is all that is found. -/
theorem eq_nil_of_found (hnamed : volume.IsNamed)
    (hroot : volume.placeAt? request.root = some root) (hnil : [] ∈ request.foundOn volume)
    (h : file ∈ request.foundOn volume) : file = [] := by
  obtain ⟨content, hown⟩ := (mem_foundOn_iff hnamed hroot).mp hnil
  obtain ⟨content', hfile⟩ := (mem_foundOn_iff hnamed hroot).mp h
  have hstands := hown.stands
  rw [List.append_nil] at hstands
  by_contra hne
  have hdirectory := Volume.directory_above (List.prefix_append root file)
    (fun heq => hne (by simpa using heq.symm)) hfile.stands
  rw [hstands] at hdirectory
  cases hdirectory

/-- What is found stands outside of an output directory that is there later on. -/
theorem outside_of_found {after : Volume} {output : DiskPath}
    {files : Place → String → Prop} {folders : Place → Prop}
    (hbecomes : volume.Becomes files folders after)
    (hexcluded : request.excluded? = some output) (hup : output.NeverUp)
    (hreached : after.locate output = .ok (after.target output))
    (hdirectory : after.node? (after.target output) = some .directory)
    (hnamed : volume.IsNamed) (hroot : volume.placeAt? request.root = some root)
    (h : file ∈ request.foundOn volume) : ¬ volume.target output <+: root ++ file := by
  intro hbegins
  obtain ⟨content, hfinds⟩ := (mem_foundOn_iff hnamed hroot).mp h
  have hnode := hfinds.stands
  rw [Volume.target_congr hbecomes.home] at hdirectory
  have hne : volume.target output ≠ root ++ file := by
    intro heq
    rw [heq] at hdirectory
    rcases hbecomes.node (root ++ file) with hsame | ⟨_, _, _, hfile⟩ | ⟨_, hnone, _⟩
    · rw [hsame, hnode] at hdirectory
      cases hdirectory
    · rw [hfile] at hdirectory
      cases hdirectory
    · rw [hnone] at hnode
      cases hnode
  have hleftOut := excludedOn_of_reached hexcluded hup hreached
    (Volume.directory_above hbegins hne hnode)
  rw [excludedOn, hexcluded, Option.bind_some] at hleftOut
  exact hfinds.outside output _ hexcluded hleftOut hbegins

end ScanRequest

namespace Settings

variable {settings : Settings} {workingDirectory : String} {volume after : Volume}
  {files : List SnapshotFile}

/-- A run scans its input, and leaves out its output directory. -/
theorem scanRequest_eq_ok [Globs] {request : ScanRequest}
    (h : settings.scanRequest false = .ok request) :
    request.root = settings.input ∧ request.excluded? = some settings.output ∧
      request.repositories = true := by
  rw [scanRequest] at h
  split at h
  · rw [← Except.ok.inj h]
    exact ⟨rfl, rfl, rfl⟩
  · split at h
    · rw [← Except.ok.inj h]
      exact ⟨rfl, rfl, rfl⟩
    · cases h

/-- A run scans what its walk yields and its request wants, if all of it can be read. -/
theorem scannedOn_eq_ok [Walker] [Globs] (hnamed : volume.IsNamed) :
    settings.scannedOn volume = .ok files ↔
      ∃ request root, settings.scanRequest false = .ok request ∧
        volume.placeAt? request.root = some root ∧ request.WalksOn volume ∧
          (request.foundOn volume).map (request.snapshotOn volume) = files.map .ok := by
  rw [scannedOn, except_bind_eq_ok]
  refine exists_congr fun request => ?_
  rw [ScanRequest.filesOn_eq_ok hnamed, ← exists_and_left]

/-- Results keep the order and the relative paths of their snapshots. -/
theorem relatives_sublist (files : List SnapshotFile) :
    ((files.filterMap (settings.resultOf? workingDirectory)).map RunResult.relative).Sublist
      (files.map SnapshotFile.relative) := by
  induction files with
  | nil => exact .slnil
  | cons file rest ih =>
    rw [List.filterMap_cons]
    cases hresult : settings.resultOf? workingDirectory file with
    | none => exact ih.cons _
    | some result =>
      rw [List.map_cons, List.map_cons, relative_of_resultOf hresult]
      exact ih.cons_cons _

/-- Every snapshot that was scanned stands for a file that was found. -/
theorem found_of_snapshot {request : ScanRequest} {places : List Place} {file : SnapshotFile}
    (h : places.map (request.snapshotOn volume) = files.map .ok) (hmem : file ∈ files) :
    ∃ found ∈ places, request.snapshotOn volume found = .ok file :=
  List.mem_map.mp (h ▸ List.mem_map_of_mem hmem)

section Results

variable [Walker] {request : ScanRequest} {root : Place} {result result' : RunResult}
  (hfiles : (request.foundOn volume).map (request.snapshotOn volume) = files.map .ok)

include hfiles

/-- Every result stands for a file that was found. -/
theorem found_of_result (h : result ∈ files.filterMap (settings.resultOf? workingDirectory)) :
    ∃ file ∈ request.foundOn volume, result.relative = file.relativePath := by
  have hrelative := (relatives_sublist files).subset (List.mem_map_of_mem h)
  rw [ScanRequest.relatives_of_read hfiles] at hrelative
  obtain ⟨file, hmem, hfile⟩ := List.mem_map.mp hrelative
  exact ⟨file, hmem, hfile.symm⟩

variable (hnamed : volume.IsNamed)

include hnamed

/-- Outputs are paths into the output directory. -/
theorem leadsInto_of_result (houtput : settings.output.chars ≠ []) (hup : settings.output.NeverUp)
    (h : result ∈ files.filterMap (settings.resultOf? workingDirectory)) :
    ∃ file ∈ request.foundOn volume, result.relative = file.relativePath ∧
      LeadsInto settings.output (outputPlace settings.format file) (settings.outputOf result) := by
  obtain ⟨file, hmem, hrelative⟩ := found_of_result hfiles h
  exact ⟨file, hmem, hrelative,
    leadsInto_outputOf hrelative (ScanRequest.names_of_found hnamed hmem) houtput hup⟩

/-- Different results stand for different files. -/
theorem nodup_relatives :
    ((files.filterMap (settings.resultOf? workingDirectory)).map RunResult.relative).Nodup := by
  refine List.Nodup.sublist (relatives_sublist files) ?_
  rw [ScanRequest.relatives_of_read hfiles]
  refine List.Nodup.map_on ?_ (request.nodup_foundOn volume)
  intro file hfile file' hfile' heq
  rw [← Place.names_relativePath (ScanRequest.names_of_found hnamed hfile), heq,
    Place.names_relativePath (ScanRequest.names_of_found hnamed hfile')]

/-- Different results are written to different places. -/
theorem targets_apart (hroot : volume.placeAt? request.root = some root)
    (houtput : settings.output.chars ≠ []) (hup : settings.output.NeverUp) :
    (files.filterMap (settings.resultOf? workingDirectory)).Pairwise fun result result' =>
      volume.target (settings.outputOf result) ≠ volume.target (settings.outputOf result') := by
  have hpairs : (files.filterMap (settings.resultOf? workingDirectory)).Pairwise
      fun result result' => result.relative ≠ result'.relative :=
    List.pairwise_map.mp (nodup_relatives hfiles hnamed)
  refine hpairs.imp_of_mem fun {result result'} hmem hmem' hne heq => hne ?_
  obtain ⟨file, hfile, hrelative, hinto⟩ := leadsInto_of_result hfiles hnamed houtput hup hmem
  obtain ⟨file', hfile', hrelative', hinto'⟩ :=
    leadsInto_of_result hfiles hnamed houtput hup hmem'
  rw [hinto.target, hinto'.target, List.append_cancel_left_eq] at heq
  rw [hrelative, hrelative']
  -- a root that is a file has an output of its own, and no file is found below it
  by_cases hnil : file = []
  · rw [hnil] at hfile ⊢
    rw [ScanRequest.eq_nil_of_found hnamed hroot hfile hfile']
  · have hnil' : file' ≠ [] := by
      rintro rfl
      exact hnil (ScanRequest.eq_nil_of_found hnamed hroot hfile' hfile)
    rw [outputPlace_injective (ScanRequest.isSnapshotPlace_of_found hnamed hroot hfile hnil)
      (ScanRequest.isSnapshotPlace_of_found hnamed hroot hfile' hnil') heq]

end Results

/-! ## Results that were written -/

/-- What writing results may change, as far as `written` were written and `results` were tried. -/
abbrev Touches (settings : Settings) (volume : Volume) (written results : List RunResult)
    (after : Volume) : Prop :=
  volume.Becomes
    (fun place text => ∃ result ∈ written,
      place = volume.target (settings.outputOf result) ∧ text = settings.textOf result)
    (fun place => ∃ result ∈ results, place <+: volume.target (settings.outputOf result) ∧
      place ≠ volume.target (settings.outputOf result)) after

variable {results : List RunResult}

theorem Written.touches (h : settings.Written volume results after)
    (hup : ∀ result ∈ results, (settings.outputOf result).NeverUp) :
    settings.Touches volume results results after := by
  induction h with
  | nil volume => exact .refl volume
  | @cons volume middle after result outcome rest hwrite _ ih =>
    have hfirst := (writeStep_of_writeResult hwrite).becomes (hup result List.mem_cons_self)
    have hrest := ih fun other hmem => hup other (List.mem_cons_of_mem _ hmem)
    refine (hfirst.mono ?_ ?_).trans (hrest.mono ?_ ?_)
    · rintro place text ⟨-, hplace, htext⟩
      exact ⟨result, List.mem_cons_self, hplace, htext⟩
    · exact fun place hplace => ⟨result, List.mem_cons_self, hplace⟩
    · rintro place text ⟨other, hmem, hplace, htext⟩
      exact ⟨other, List.mem_cons_of_mem _ hmem,
        hplace.trans (Volume.target_congr hfirst.home _), htext⟩
    · rintro place ⟨other, hmem, hbegins, hne⟩
      rw [Volume.target_congr hfirst.home] at hbegins hne
      exact ⟨other, List.mem_cons_of_mem _ hmem, hbegins, hne⟩

/-- What was written stays, since nothing else is written to its place. -/
theorem Written.reads (h : settings.Written volume results after)
    (hup : ∀ result ∈ results, (settings.outputOf result).NeverUp)
    (hapart : results.Pairwise fun result result' =>
      volume.target (settings.outputOf result) ≠ volume.target (settings.outputOf result')) :
    ∀ result ∈ results, after.read (settings.outputOf result) = .ok (settings.textOf result) := by
  induction h with
  | nil volume => simp
  | @cons volume middle after result outcome rest hwrite hwritten ih =>
    have hstep := writeStep_of_writeResult hwrite
    have hfirst := hstep.becomes (hup result List.mem_cons_self)
    obtain ⟨hown, hothers⟩ := List.pairwise_cons.mp hapart
    have hrestUp := fun other hmem => hup other (List.mem_cons_of_mem result hmem)
    intro other hmem
    rcases List.mem_cons.mp hmem with rfl | hmem
    · refine (hwritten.touches hrestUp).read (hstep.read (hup other List.mem_cons_self)) ?_
      rintro place hlocate text ⟨later, hlater, hplace, -⟩
      rw [Volume.target_of_locate (hup other List.mem_cons_self) hlocate,
        Volume.target_congr hfirst.home, Volume.target_congr hfirst.home] at hplace
      exact hown later hlater hplace
    · refine ih hrestUp ?_ other hmem
      simpa only [Volume.target_congr hfirst.home] using hothers

/-- The end of all writes changes no file, so that what was written stays. -/
theorem WritesEnd.touches {middle : Volume} {written rest : List RunResult}
    {result : Except CommandProblem Unit} (hwritten : settings.Written volume written middle)
    (h : settings.WritesEnd middle rest result after)
    (hup : ∀ result ∈ written ++ rest, (settings.outputOf result).NeverUp) :
    settings.Touches volume written (written ++ rest) after ∧
      ∀ {path : DiskPath} {content : String}, middle.read path = .ok content →
        after.read path = .ok content := by
  have hmiddle := hwritten.touches fun result hmem => hup result (List.mem_append_left _ hmem)
  have hmiddle' : settings.Touches volume written (written ++ rest) middle :=
    hmiddle.mono (fun _ _ h => h) fun place ⟨result, hmem, hplace⟩ =>
      ⟨result, List.mem_append_left _ hmem, hplace⟩
  cases h with
  | done => exact ⟨hmiddle', fun hread => hread⟩
  | @failed result others problem _ hwrite =>
    have hlast := (writeStep_of_writeResult hwrite).becomes
      (hup result (List.mem_append_right _ List.mem_cons_self))
    refine ⟨hmiddle'.trans (hlast.mono ?_ ?_), fun hread => hlast.read hread ?_⟩
    · rintro place text ⟨hok, -⟩
      cases hok
    · rintro place ⟨hbegins, hne⟩
      rw [Volume.target_congr hmiddle.home] at hbegins hne
      exact ⟨result, List.mem_append_right _ List.mem_cons_self, hbegins, hne⟩
    · rintro place - text ⟨hok, -⟩
      cases hok

/-- What a run does that scanned the given snapshots: the results of those that can be loaded are
written in order up to the first one that cannot be written. -/
structure Effect (settings : Settings) (workingDirectory : String) (volume : Volume)
    (files : List SnapshotFile) (written rest : List RunResult)
    (result : Except CommandProblem Unit) (after : Volume) : Prop where
  /-- Each snapshot that can be loaded has its result, made of it alone. -/
  planned : files.filterMap (settings.resultOf? workingDirectory) = written ++ rest
  /-- The writes succeed one after the other, and then there are no more or the next one fails. -/
  stages : ∃ middle, settings.Written volume written middle ∧
    settings.WritesEnd middle rest result after
  /-- Nothing is touched but the outputs that were written and missing directories above outputs. -/
  touches : settings.Touches volume written (written ++ rest) after
  /-- Every output that was written holds the text of its own snapshot. -/
  holds : ∀ result ∈ written,
    after.read (settings.outputOf result) = .ok (settings.textOf result)
  /-- Every snapshot that was scanned is as it was, whether it was loaded or not. -/
  kept : ∀ file ∈ files, after.read file.path = .ok file.content

/-- Writing the results of scanned snapshots has that effect. -/
theorem writeAll_effect [Walker] [Globs] (hnamed : volume.IsNamed)
    (houtput : settings.output.chars ≠ [])
    (hup : settings.output.NeverUp) (hscanned : settings.scannedOn volume = .ok files)
    (lines : List String) :
    ∃ written rest, settings.Effect workingDirectory volume files written rest
      ((settings.writeAll false (files.filterMap (settings.resultOf? workingDirectory))).on
        lines volume).1.1
      ((settings.writeAll false (files.filterMap (settings.resultOf? workingDirectory))).on
        lines volume).2 := by
  obtain ⟨request, root, hrequest, hroot, -, hfiles⟩ := (scannedOn_eq_ok hnamed).mp hscanned
  obtain ⟨-, hexcluded, -⟩ := scanRequest_eq_ok hrequest
  have hupAll : ∀ result ∈ files.filterMap (settings.resultOf? workingDirectory),
      (settings.outputOf result).NeverUp := fun result hmem =>
    let ⟨_, _, _, hinto⟩ := leadsInto_of_result hfiles hnamed houtput hup hmem
    hinto.neverUp
  -- no later write touches what an earlier one wrote
  have hapart : (files.filterMap (settings.resultOf? workingDirectory)).Pairwise _ :=
    targets_apart hfiles hnamed hroot houtput hup
  obtain ⟨written, rest, middle, hplanned, hwritten, hend, -⟩ :=
    settings.writeAll_on (files.filterMap (settings.resultOf? workingDirectory)) lines volume
  generalize ((settings.writeAll false (files.filterMap (settings.resultOf? workingDirectory))).on
    lines volume) = out at hend ⊢
  have hmem : ∀ result ∈ written, result ∈ files.filterMap (settings.resultOf? workingDirectory) :=
    fun result h => hplanned ▸ List.mem_append_left _ h
  obtain ⟨htouches, hreads⟩ := hend.touches hwritten (hplanned ▸ hupAll)
  have hholds : ∀ result ∈ written,
      out.2.read (settings.outputOf result) = .ok (settings.textOf result) := fun result h =>
    hreads (hwritten.reads (fun result h => hupAll result (hmem result h))
      ((List.pairwise_append.mp (hplanned ▸ hapart)).1) result h)
  refine ⟨written, rest, hplanned, ⟨middle, hwritten, hend⟩, htouches, hholds, ?_⟩
  intro file hfile
  obtain ⟨place, hfound, hsnapshot⟩ := found_of_snapshot hfiles hfile
  obtain ⟨content, hread, rfl⟩ := ScanRequest.snapshotOn_eq_ok.mp hsnapshot
  refine htouches.read hread ?_
  rintro target hlocate text ⟨result, hresult, htarget, -⟩
  obtain rfl := ScanRequest.locate_pathOf hroot (ScanRequest.names_of_found hnamed hfound) hlocate
  -- an output that was written shows that the output directory can be reached
  obtain ⟨_, hlocated, -⟩ := Volume.read_eq_ok_iff.mp (hholds result hresult)
  obtain ⟨_, _, _, hinto⟩ := leadsInto_of_result hfiles hnamed houtput hup (hmem result hresult)
  obtain ⟨hreached, hdirectory⟩ := hinto.through hlocated
  refine ScanRequest.outside_of_found htouches hexcluded hup hreached hdirectory hnamed hroot
    hfound ?_
  rw [htarget, hinto.target]
  exact List.prefix_append _ _

end Settings

end TypedRoutes
