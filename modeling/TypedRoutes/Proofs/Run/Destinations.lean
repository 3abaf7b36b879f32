import TypedRoutes.Proofs.Run.Frame

/-!
# Outputs do not collide

The output of a snapshot stands below the output directory where the snapshot stands below the root,
in the same directory and under a name that tells the name of the snapshot. So different snapshots
have different outputs, wherever the output directory is and however it is written.
-/

namespace TypedRoutes

/-! ## Snapshots and their stems -/

namespace DiskPath

variable {path : DiskPath}

/-- The two ways to look at a name agree: what is long enough and ends with the suffix is what
leaves something when the suffix is taken away. -/
theorem isSnapshot_iff : path.isSnapshot = true ↔ ∃ stem, path.snapshotStem? = some stem ∧
    stem ≠ [] ∧ path.fileName? = some (stem ++ snapshotSuffix) := by
  rw [isSnapshot, snapshotStem?]
  cases path.fileName? with
  | none => simp
  | some name =>
    rw [Option.any_some, Option.bind_some, isSnapshotName_iff]
    refine exists_congr fun stem => ?_
    rw [nameStem?_eq_some_iff, Option.some.injEq]
    exact ⟨fun h => ⟨h, h⟩, fun h => h.1⟩

/-- The steps of a snapshot are those in front of its name and its name. -/
theorem exists_stem (hsnapshot : path.isSnapshot = true) :
    ∃ stem, path.snapshotStem? = some stem ∧
      path.steps = path.steps.dropLast ++ [.name (stem ++ snapshotSuffix)] := by
  obtain ⟨stem, hstem, -, hname⟩ := isSnapshot_iff.mp hsnapshot
  refine ⟨stem, hstem, ?_⟩
  rw [fileName?] at hname
  split at hname
  · rename_i name hlast
    rw [← Option.some.inj hname]
    exact (List.dropLast_append_getLast? _ hlast).symm
  · cases hname

end DiskPath

/-! ## Where outputs stand -/

namespace RunResult

variable {result result' : RunResult} {directory : DiskPath} {format : OutputFormat}

/-- The name of the output of a snapshot with a stem. -/
def outputName (format : OutputFormat) (stem : List Char) : List Char :=
  match format with
  | .json => stem ++ snapshotSuffix
  | .typescript => stem ++ decoratorsSuffix

theorem outputName_injective : Function.Injective (outputName format) := by
  intro stem stem' h
  cases format <;> exact List.append_cancel_right h

/-- An output stands where its snapshot stands, under a name of its own. -/
theorem steps_outputPath (hplain : result.relative.IsPlain)
    (hsnapshot : result.relative.isSnapshot = true) (directory : DiskPath)
    (format : OutputFormat) :
    ∃ stem, result.relative.snapshotStem? = some stem ∧
      result.relative.steps =
        result.relative.steps.dropLast ++ [.name (stem ++ snapshotSuffix)] ∧
      (result.outputPath directory format).steps =
        directory.steps ++ result.relative.steps.dropLast ++ [.name (outputName format stem)] := by
  obtain ⟨stem, hstem, hsteps⟩ := DiskPath.exists_stem hsnapshot
  refine ⟨stem, hstem, hsteps, ?_⟩
  cases format with
  | json =>
    change (directory.join result.relative).steps = _
    rw [DiskPath.steps_join directory hplain, List.append_assoc, outputName, ← hsteps]
  | typescript =>
    have hname : DiskPath.steps ⟨stem ++ decoratorsSuffix⟩ =
        [.name (stem ++ decoratorsSuffix)] := by
      refine DiskPath.steps_of_name ?_ ?_
      · have hmem : .name (stem ++ snapshotSuffix) ∈ result.relative.steps := by
          rw [hsteps]
          exact List.mem_concat_self
        have hslash := DiskPath.no_slash_of_mem_steps hmem
        rw [List.mem_append, not_or] at hslash ⊢
        exact ⟨hslash.1, by decide⟩
      · rw [List.length_append]
        exact Nat.lt_add_left _ (by decide)
    have hnamePlain : DiskPath.IsPlain ⟨stem ++ decoratorsSuffix⟩ := ⟨[_], hname⟩
    obtain ⟨parent, hparent, hparentPlain, hparentSteps⟩ := hplain.parent (by rw [hsteps]; simp)
    rw [outputPath, hparent, hstem]
    change ((directory.join parent).join ⟨stem ++ decoratorsSuffix⟩).steps = _
    rw [DiskPath.steps_join _ hnamePlain, DiskPath.steps_join _ hparentPlain, hparentSteps, hname]
    rfl

theorem relative_steps_eq (hplain : result.relative.IsPlain)
    (hsnapshot : result.relative.isSnapshot = true) (hplain' : result'.relative.IsPlain)
    (hsnapshot' : result'.relative.isSnapshot = true)
    (h : (result.outputPath directory format).steps = (result'.outputPath directory format).steps) :
    result.relative.steps = result'.relative.steps := by
  obtain ⟨stem, -, hsteps, houtput⟩ := steps_outputPath hplain hsnapshot directory format
  obtain ⟨stem', -, hsteps', houtput'⟩ := steps_outputPath hplain' hsnapshot' directory format
  rw [houtput, houtput', List.append_assoc, List.append_assoc] at h
  obtain ⟨hfolder, hname⟩ := List.append_inj' (List.append_cancel_left h) rfl
  have hstem : stem = stem' := outputName_injective (PathStep.name.inj (List.cons.inj hname).1)
  rw [hsteps, hsteps', hfolder, hstem]

end RunResult

/-! ## Snapshots that were scanned -/

namespace ScanRequest

/-- The path of a scanned snapshot from the root is made of names, and below the root it is that of
a snapshot. -/
theorem relative_of_scan [Walker] {request : ScanRequest} {volume : Volume}
    {snapshots : List SnapshotFile}
    (hnamed : volume.IsNamed)
    (hscan : ((request.scan : StateM Volume _) volume).1 = .ok snapshots)
    {snapshot : SnapshotFile} (hmem : snapshot ∈ snapshots) :
    snapshot.relative.IsPlain ∧
      (snapshot.relative.steps ≠ [] → snapshot.relative.isSnapshot = true) := by
  rw [scan_on] at hscan
  obtain ⟨-, root, hroot, -, hfiles⟩ := (scanOn_eq_ok hnamed).mp hscan
  obtain ⟨file, content, hfinds, rfl⟩ := (mem_of_scanOn hnamed hroot hfiles snapshot).mp hmem
  have hfound := (mem_foundOn_iff hnamed hroot).mpr ⟨_, hfinds⟩
  have hnames := names_of_found hnamed hfound
  have hsteps := Place.steps_relativePath hnames
  refine ⟨⟨file.map String.toList, by rw [hsteps, List.map_map]; rfl⟩, fun hbelow => ?_⟩
  have hne : file ≠ [] := by
    rintro rfl
    exact hbelow hsteps
  obtain ⟨name, hlast, hsnapshot⟩ := (isSnapshotPlace_of_found hnamed hroot hfound hne).last
  rwa [DiskPath.isSnapshot, Place.fileName_relativePath hlast hnames, Option.any_some]

end ScanRequest

/-- Snapshots with different relative paths have different outputs, each below the output directory
in the directory that its snapshot has below the root; the two tests on names agree; and what was
scanned below the root has a stem of its own. -/
theorem RunResult.outputPath_apart [Walker] (directory : DiskPath) (format : OutputFormat) :
    (∀ result result' : RunResult, result.relative.IsPlain → result'.relative.IsPlain →
      result.relative.isSnapshot = true → result'.relative.isSnapshot = true →
      result.relative.steps ≠ result'.relative.steps →
      (result.outputPath directory format).steps ≠ (result'.outputPath directory format).steps) ∧
    (∀ result : RunResult, result.relative.IsPlain → result.relative.isSnapshot = true →
      ∃ stem, result.relative.snapshotStem? = some stem ∧
        (result.outputPath directory format).steps =
          directory.steps ++ result.relative.steps.dropLast ++ [.name (outputName format stem)]) ∧
    (∀ path : DiskPath, path.isSnapshot = true ↔ ∃ stem, path.snapshotStem? = some stem ∧
      stem ≠ [] ∧ path.fileName? = some (stem ++ snapshotSuffix)) ∧
    ∀ (request : ScanRequest) (volume : Volume) (snapshots : List SnapshotFile),
      volume.IsNamed → ((request.scan : StateM Volume _) volume).1 = .ok snapshots →
      ∀ snapshot ∈ snapshots, snapshot.relative.IsPlain ∧ (snapshot.relative.steps ≠ [] →
        snapshot.relative.isSnapshot = true ∧ snapshot.relative.snapshotStem?.isSome) := by
  refine ⟨?_, ?_, fun path => DiskPath.isSnapshot_iff, ?_⟩
  · intro result result' hplain hplain' hsnapshot hsnapshot' hne heq
    exact hne (relative_steps_eq hplain hsnapshot hplain' hsnapshot' heq)
  · intro result hplain hsnapshot
    obtain ⟨stem, hstem, -, houtput⟩ := steps_outputPath hplain hsnapshot directory format
    exact ⟨stem, hstem, houtput⟩
  · intro request volume snapshots hnamed hscan snapshot hmem
    obtain ⟨hplain, hbelow⟩ := ScanRequest.relative_of_scan hnamed hscan hmem
    refine ⟨hplain, fun hne => ⟨hbelow hne, ?_⟩⟩
    obtain ⟨stem, hstem, -⟩ := DiskPath.isSnapshot_iff.mp (hbelow hne)
    rw [hstem]
    rfl

section Runs

open scoped IgnoreTable

/-- Names that end with the suffix twice are kept apart as well. -/
theorem RunResult.outputPath_apart_suffixes :
    (outputPath { (default : RunResult) with relative := .ofString "a/x.nestia.json" }
        (.ofString "../out/") .typescript).steps ≠
      (outputPath { (default : RunResult) with relative := .ofString "a/x.nestia.json.nestia.json" }
        (.ofString "../out/") .typescript).steps ∧
    ∀ snapshot ∈ ScanRequest.crowdedFiles, snapshot.relative.snapshotStem?.isSome = true := by
  obtain ⟨hapart, -, -, hstem⟩ := outputPath_apart (.ofString "../out/") .typescript
  refine ⟨hapart _ _ ⟨["a".toList, "x.nestia.json".toList], by decide +kernel⟩
    ⟨["a".toList, "x.nestia.json.nestia.json".toList], by decide +kernel⟩ (by decide +kernel)
    (by decide +kernel) (by decide +kernel), ?_⟩
  intro snapshot hmem
  have hscan : ((ScanRequest.crowdedRequest.scan : StateM Volume _)
      ScanRequest.crowdedVolume).1 = .ok ScanRequest.crowdedFiles := by
    rw [ScanRequest.scan_on]
    exact ScanRequest.scanOn_crowdedVolume
  have hbelow : ∀ snapshot ∈ ScanRequest.crowdedFiles, snapshot.relative.steps ≠ [] := by
    decide +kernel
  exact ((hstem _ _ _ (by decide +kernel) hscan snapshot hmem).2 (hbelow snapshot hmem)).2

end Runs

end TypedRoutes
