import TypedRoutes.Command.Run
import TypedRoutes.Proofs.Disk.Steps
import TypedRoutes.Proofs.Scan.Found

/-!
# Where results go

The output of a file that was found below a root stands below the output directory: at the same
place below it, or beside that place under a name of its own. Different files have different
outputs.
-/

namespace TypedRoutes

/-! ## Names of snapshots -/

/-- What stands in front of the end of a name says what the name is. -/
theorem nameStem?_eq_some_iff {name stem : List Char} :
    nameStem? name = some stem ↔ stem ≠ [] ∧ name = stem ++ snapshotSuffix := by
  rw [nameStem?]
  constructor
  · intro h
    split at h
    · rename_i hsuffix
      obtain ⟨front, rfl⟩ := List.isSuffixOf_iff_suffix.mp hsuffix
      rw [List.length_append, Nat.add_sub_cancel, List.take_left] at h
      cases front with
      | nil => cases h
      | cons c rest =>
        rw [← Option.some.inj h]
        exact ⟨List.cons_ne_nil c rest, rfl⟩
    · cases h
  · rintro ⟨hne, rfl⟩
    obtain ⟨c, rest, rfl⟩ := List.exists_cons_of_ne_nil hne
    rw [if_pos (List.isSuffixOf_iff_suffix.mpr (List.suffix_append _ _)), List.length_append,
      Nat.add_sub_cancel, List.take_left]

/-- A name that is longer than the suffix and ends with it has something in front of it. -/
theorem isSnapshotName_iff {name : List Char} :
    isSnapshotName name = true ↔ ∃ stem, stem ≠ [] ∧ name = stem ++ snapshotSuffix := by
  rw [isSnapshotName, Bool.and_eq_true, decide_eq_true_eq, List.isSuffixOf_iff_suffix]
  constructor
  · rintro ⟨hlong, stem, rfl⟩
    refine ⟨stem, ?_, rfl⟩
    rintro rfl
    exact absurd hlong (lt_irrefl _)
  · rintro ⟨stem, hne, rfl⟩
    have hlong := List.length_pos_iff.mpr hne
    exact ⟨by rw [List.length_append]; omega, List.suffix_append _ _⟩

/-! ## Outputs -/

/-- The name of an output that is not named like its snapshot. -/
def decoratorsName (path : DiskPath) : List Char :=
  path.snapshotStem?.getD RunResult.usualStem ++ RunResult.decoratorsSuffix

/-- Where the result of a file goes, from the output directory. -/
def outputPlace (format : OutputFormat) (file : Place) : Place :=
  match format with
  | .json => file
  | .typescript => file.dropLast ++ [String.ofList (decoratorsName file.relativePath)]

namespace Settings

variable {settings : Settings} {workingDirectory : String}

/-- Where a result is written. -/
def outputOf (settings : Settings) (result : RunResult) : DiskPath :=
  result.outputPath settings.output settings.format

/-- What a result is written as. -/
def textOf (settings : Settings) (result : RunResult) : String :=
  result.render settings.format

/-- What a run makes of a file; nothing of one that cannot be loaded. -/
def resultOf? (settings : Settings) (workingDirectory : String) (file : SnapshotFile) :
    Option RunResult :=
  match file.load with
  | .ok snapshot => some (snapshot.augment settings.mode (settings.allowList workingDirectory))
  | .error _ => none

/-- A file that cannot be loaded is passed over; each other one gives a result of its own. -/
theorem run_loadAll (settings : Settings) (workingDirectory : String) (files : List SnapshotFile) :
    settings.run workingDirectory (loadAll files).1 =
      files.filterMap (settings.resultOf? workingDirectory) := by
  induction files with
  | nil => rfl
  | cons file rest ih =>
    rw [loadAll, List.filterMap_cons, resultOf?]
    cases file.load with
    | error problem => exact ih
    | ok snapshot => exact congrArg (_ :: ·) ih

theorem relative_of_resultOf {file : SnapshotFile} {result : RunResult}
    (h : settings.resultOf? workingDirectory file = some result) :
    result.relative = file.relative := by
  rw [resultOf?, SnapshotFile.load] at h
  split at h
  · rename_i snapshot hload
    rw [← Option.some.inj h]
    rw [except_bind_eq_ok] at hload
    obtain ⟨unit, -, hsnapshot⟩ := hload
    rw [← Except.ok.inj hsnapshot]
    rfl
  · cases h

theorem no_slash_decoratorsName {file : Place} (hnames : ∀ name ∈ file, IsEntryName name) :
    '/' ∉ decoratorsName file.relativePath := by
  rw [decoratorsName, List.mem_append, not_or]
  refine ⟨?_, by decide⟩
  cases hstem : file.relativePath.snapshotStem? with
  | none => decide
  | some stem =>
    obtain ⟨name, hname, hstem⟩ := Option.bind_eq_some_iff.mp hstem
    rcases List.eq_nil_or_concat file with rfl | ⟨folder, last, rfl⟩
    · cases hname
    · rw [List.concat_eq_append] at hname hnames
      rw [Place.fileName_relativePath List.getLast?_concat hnames] at hname
      obtain rfl := Option.some.inj hname
      exact fun hmem => (hnames last (by simp)).noSlash (by
        rw [(nameStem?_eq_some_iff.mp hstem).2]
        exact List.mem_append_left _ hmem)

theorem long_decoratorsName (path : DiskPath) : 14 ≤ (decoratorsName path).length := by
  have hsuffix : RunResult.decoratorsSuffix.length = 14 := by decide
  rw [decoratorsName, List.length_append, hsuffix]
  omega

/-- A path that leads into a directory, to what is below it. -/
structure LeadsInto (base : DiskPath) (below : Place) (path : DiskPath) : Prop where
  nonempty : path.chars ≠ []
  neverUp : path.NeverUp
  target (volume : Volume) : volume.target path = volume.target base ++ below
  through {volume : Volume} {place : Place} : volume.locate path = .ok place →
    volume.locate base = .ok (volume.target base) ∧
      volume.node? (volume.target base) = some .directory

section LeadsInto

variable {base path tail : DiskPath} {below : Place}

theorem leadsInto_join (hbase : base.chars ≠ []) (hup : base.NeverUp)
    (htail : tail.isRooted = false) (htailUp : tail.NeverUp) :
    LeadsInto base tail.names (base.join tail) where
  nonempty := DiskPath.join_ne_nil hbase htail
  neverUp := DiskPath.neverUp_join hbase htail hup htailUp
  target _ := Volume.target_join hbase htail
  through h := by
    obtain ⟨-, folder, hfolder, hdirectory, -⟩ := (Volume.locate_join hbase htail).mp h
    obtain rfl := Volume.target_of_locate hup hfolder
    exact ⟨hfolder, hdirectory⟩

theorem LeadsInto.join (h : LeadsInto base below path) (htail : tail.isRooted = false)
    (htailUp : tail.NeverUp) : LeadsInto base (below ++ tail.names) (path.join tail) where
  nonempty := DiskPath.join_ne_nil h.nonempty htail
  neverUp := DiskPath.neverUp_join h.nonempty htail h.neverUp htailUp
  target volume := by rw [Volume.target_join h.nonempty htail, h.target, List.append_assoc]
  through hlocate :=
    let ⟨_, _, hfolder, _⟩ := (Volume.locate_join h.nonempty htail).mp hlocate
    h.through hfolder

end LeadsInto

/-- An output is a path into the output directory. -/
theorem leadsInto_outputOf {result : RunResult} {file : Place}
    (hrelative : result.relative = file.relativePath)
    (hnames : ∀ name ∈ file, IsEntryName name) (houtput : settings.output.chars ≠ [])
    (hup : settings.output.NeverUp) :
    LeadsInto settings.output (outputPlace settings.format file) (settings.outputOf result) := by
  rw [outputOf]
  cases settings.format with
  | json =>
    change LeadsInto settings.output file (settings.output.join result.relative)
    rw [hrelative]
    have h := leadsInto_join houtput hup (Place.isRooted_relativePath hnames)
      (Place.neverUp_relativePath hnames)
    rwa [Place.names_relativePath hnames] at h
  | typescript =>
    have hslash := no_slash_decoratorsName hnames
    have hlong := long_decoratorsName file.relativePath
    have hwritten : file.relativePath.snapshotStem?.getD RunResult.usualStem ++
        RunResult.decoratorsSuffix = decoratorsName file.relativePath := rfl
    simp only [RunResult.outputPath, outputPlace, hrelative, hwritten]
    generalize decoratorsName file.relativePath = name at hslash hlong ⊢
    have hpieces : DiskPath.allPieces ⟨name⟩ = [name] := pieces_eq_singleton hslash
    have hrooted : DiskPath.isRooted ⟨name⟩ = false :=
      DiskPath.isRooted_eq_false_of_no_slash hslash
    have hlonger : 2 < name.length := by omega
    obtain ⟨hspeaks, hnotUp⟩ := name_of_long hlonger
    have hnameUp : DiskPath.NeverUp ⟨name⟩ := by
      rw [DiskPath.NeverUp, hpieces, List.mem_singleton]
      exact hnotUp.symm
    have hname : DiskPath.names ⟨name⟩ = [String.ofList name] := by
      rw [DiskPath.names, hpieces, namesOf_name hspeaks]
    rw [← hname]
    by_cases hne : file = []
    · subst hne
      exact leadsInto_join houtput hup hrooted hnameUp
    · have hfolder : ∀ name ∈ file.dropLast, IsEntryName name :=
        fun name h => hnames name ((List.dropLast_sublist _).subset h)
      rw [Place.parent_relativePath hne hnames]
      have h := (leadsInto_join houtput hup (Place.isRooted_relativePath hfolder)
        (Place.neverUp_relativePath hfolder)).join hrooted hnameUp
      rwa [Place.names_relativePath hfolder] at h

/-! ## Different outputs -/

/-- A file with names that an entry can have, the last one that of a snapshot. -/
structure IsSnapshotPlace (file : Place) : Prop where
  names : ∀ name ∈ file, IsEntryName name
  last : ∃ name, file.getLast? = some name ∧ isSnapshotName name.toList = true

theorem IsSnapshotPlace.stem {file : Place} (h : IsSnapshotPlace file) :
    ∃ name stem, file = file.dropLast ++ [name] ∧ nameStem? name.toList = some stem ∧
      file.relativePath.snapshotStem? = some stem := by
  obtain ⟨name, hlast, hsnapshot⟩ := h.last
  obtain ⟨stem, hname⟩ := isSnapshotName_iff.mp hsnapshot
  have hstem := nameStem?_eq_some_iff.mpr hname
  refine ⟨name, stem, ?_, hstem, ?_⟩
  · obtain ⟨folder, rfl⟩ := List.getLast?_eq_some_iff.mp hlast
    rw [List.dropLast_concat]
  · rw [DiskPath.snapshotStem?, Place.fileName_relativePath hlast h.names, Option.bind_some, hstem]

theorem outputPlace_injective {format : OutputFormat} {file file' : Place}
    (h : IsSnapshotPlace file) (h' : IsSnapshotPlace file')
    (heq : outputPlace format file = outputPlace format file') : file = file' := by
  cases format with
  | json => exact heq
  | typescript =>
    obtain ⟨name, stem, hfile, hstem, hwhole⟩ := h.stem
    obtain ⟨name', stem', hfile', hstem', hwhole'⟩ := h'.stem
    rw [outputPlace, outputPlace, decoratorsName, decoratorsName, hwhole, hwhole'] at heq
    obtain ⟨hfolder, hlast⟩ := List.append_inj' heq rfl
    have hstems : stem = stem' := by
      have := String.ofList_injective (List.cons.inj hlast).1
      exact List.append_cancel_right this
    have hnames : name = name' := String.toList_injective (by
      rw [(nameStem?_eq_some_iff.mp hstem).2, (nameStem?_eq_some_iff.mp hstem').2, hstems])
    rw [hfile, hfile', hfolder, hnames]

end Settings

end TypedRoutes
