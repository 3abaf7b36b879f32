import TypedRoutes.Proofs.Disk.Agreement
import TypedRoutes.Proofs.Run.Outputs

/-!
# Writing results

What one write does to a volume, whether it succeeds or not, and what is left of the writes of a
run: those before the first one that fails have happened, and nothing behind it.
-/

namespace TypedRoutes

section WriteResult

variable {volume after : Volume} {path : DiskPath} {content : String}

/-- To compare a file with a text changes nothing. -/
theorem holdsContent_on : (holdsContent path content : StateM Volume _) volume =
    (decide (volume.read path = .ok content), volume) := by
  have hread : (MonadDisk.read path : StateM Volume _) volume = (volume.read path, volume) := rfl
  rw [holdsContent, bind_on, hread]
  cases volume.read path with
  | ok existing => simp [pure_on, beq_eq_decide]
  | error problem => simp [pure_on]

/-- A dry run leaves everything as it is. -/
theorem writeResult_dry : (writeResult true path content : StateM Volume _) volume =
    (.ok (.preview path content), volume) := rfl

/-- A file that holds the text already is left alone. -/
theorem writeResult_unchanged (h : volume.read path = .ok content) :
    (writeResult false path content : StateM Volume _) volume =
      (.ok (.unchanged path), volume) := by
  rw [writeResult, if_neg Bool.false_ne_true, bind_on, holdsContent_on, decide_eq_true h]
  rfl

/-- Only directories above a path are made for it, also when that fails. -/
theorem prepareDirectory_becomes (volume : Volume) (hup : path.NeverUp) :
    volume.Becomes (fun _ _ => False)
      (fun place => place <+: volume.target path ∧ place ≠ volume.target path)
      ((prepareDirectory path : StateM Volume _) volume).2 := by
  rw [prepareDirectory]
  cases hparent : path.parent? with
  | none => exact .refl volume
  | some parent =>
    simp only [bind_on]
    split
    · exact .refl volume
    · change volume.Becomes _ _ (volume.makeDirectories parent).1
      by_cases hempty : parent.chars = []
      · rw [Volume.makeDirectories_empty hempty]
        exact .refl volume
      · have hisParent := DiskPath.isParent_of_parent hparent hempty
        refine (Volume.makeDirectories_becomes (hisParent.neverUp hup)).mono
          (fun _ _ h => h) fun place hplace => ?_
        refine ⟨hplace.trans (Volume.target_isAbove hisParent.isAbove), ?_⟩
        rintro rfl
        obtain ⟨name, hname⟩ := hisParent.names
        have hlength := hplace.length_le
        simp only [Volume.target, Volume.start, hisParent.rooted, hname, List.length_append,
          List.length_singleton] at hlength
        omega

/-- How a write that is not only shown ends, and the volume that it leaves. -/
inductive WriteStep (path : DiskPath) (content : String) (volume : Volume) :
    Except WriteProblem WriteOutcome → Volume → Prop
  | unchanged : volume.read path = .ok content →
      WriteStep path content volume (.ok (.unchanged path)) volume
  | unprepared {problem : WriteProblem} {made : Volume} :
      (prepareDirectory path : StateM Volume _) volume = (.error problem, made) →
      WriteStep path content volume (.error problem) made
  | refused {problem : DiskProblem} {made : Volume} :
      (prepareDirectory path : StateM Volume _) volume = (.ok (), made) →
      made.write path content = .error problem →
      WriteStep path content volume (.error (.file path problem)) made
  | written {made after : Volume} :
      (prepareDirectory path : StateM Volume _) volume = (.ok (), made) →
      made.write path content = .ok after →
      WriteStep path content volume (.ok (.written path content.utf8ByteSize)) after

/-- A file that does not hold the text yet is written once its directory is there. -/
theorem writeResult_on (h : volume.read path ≠ .ok content) :
    (writeResult false path content : StateM Volume _) volume =
      match (prepareDirectory path : StateM Volume _) volume with
      | (.error problem, made) => (.error problem, made)
      | (.ok (), made) =>
        match made.write path content with
        | .ok after => (.ok (.written path content.utf8ByteSize), after)
        | .error problem => (.error (.file path problem), made) := by
  rw [writeResult, if_neg Bool.false_ne_true, bind_on, holdsContent_on, decide_eq_false h]
  simp only [Bool.false_eq_true, if_false, bind_on]
  cases (prepareDirectory path : StateM Volume _) volume with
  | mk prepared made =>
    cases prepared with
    | error problem => rfl
    | ok =>
      have hwrite : (MonadDisk.write path content : StateM Volume _) made =
          match made.write path content with
          | .ok written => (.ok (), written)
          | .error problem => (.error problem, made) := rfl
      simp only [bind_on, hwrite]
      cases made.write path content <;> rfl

/-- Writing one result is a step of writing. -/
theorem writeStep_of_writeResult {result : Except WriteProblem WriteOutcome}
    (h : (writeResult false path content : StateM Volume _) volume = (result, after)) :
    WriteStep path content volume result after := by
  by_cases hholds : volume.read path = .ok content
  · rw [writeResult_unchanged hholds] at h
    obtain ⟨rfl, rfl⟩ := Prod.mk.inj h
    exact .unchanged hholds
  · rw [writeResult_on hholds] at h
    split at h
    · rename_i problem made hprepare
      obtain ⟨rfl, rfl⟩ := Prod.mk.inj h
      exact .unprepared hprepare
    · rename_i made hprepare
      split at h
      · rename_i hwritten
        obtain ⟨rfl, rfl⟩ := Prod.mk.inj h
        exact .written hprepare hwritten
      · rename_i hrefused
        obtain ⟨rfl, rfl⟩ := Prod.mk.inj h
        exact .refused hprepare hrefused

/-- What a write does to a volume: a file that was written holds its text, directories are made on
the way to it, and nothing else changes. -/
theorem WriteStep.becomes {result : Except WriteProblem WriteOutcome}
    (h : WriteStep path content volume result after) (hup : path.NeverUp) :
    volume.Becomes
      (fun place text => result.isOk = true ∧ place = volume.target path ∧ text = content)
      (fun place => place <+: volume.target path ∧ place ≠ volume.target path) after := by
  have hprepared := prepareDirectory_becomes volume hup
  cases h with
  | unchanged _ => exact .refl volume
  | unprepared hprepare | refused hprepare _ =>
    rw [hprepare] at hprepared
    exact hprepared.mono (fun _ _ h => h.elim) fun _ h => h
  | written hprepare hwritten =>
    rw [hprepare] at hprepared
    refine (hprepared.mono (fun _ _ h => h.elim) fun _ h => h).trans
      ((Volume.write_becomes hup hwritten).mono ?_ fun _ h => h.elim)
    rintro place text ⟨hplace, htext⟩
    exact ⟨rfl, hplace.trans (Volume.target_congr hprepared.home path), htext⟩

/-- What was written, or found as it is to be, is read back. -/
theorem WriteStep.read {outcome : WriteOutcome}
    (h : WriteStep path content volume (.ok outcome) after) (hup : path.NeverUp) :
    after.read path = .ok content := by
  cases h with
  | unchanged hholds => exact hholds
  | written _ hwritten => exact Volume.read_of_write hup hwritten

/-! ## Writes on volumes that agree -/

section Agree

variable {seen : Place → Prop}
  (hseen : ∀ {above place : Place}, above <+: place → seen place → seen above)
  {other : Volume} (h : volume.Agree seen other) (hup : path.NeverUp)
  (htarget : seen (volume.target path))

include hseen h hup htarget

/-- A directory is prepared alike on volumes that agree. -/
theorem prepareDirectory_agree :
    ((prepareDirectory path : StateM Volume _) other).1 =
        ((prepareDirectory path : StateM Volume _) volume).1 ∧
      ((prepareDirectory path : StateM Volume _) volume).2.Agree seen
        ((prepareDirectory path : StateM Volume _) other).2 := by
  rw [prepareDirectory]
  cases hparent : path.parent? with
  | none => exact ⟨rfl, h⟩
  | some parent =>
    have hentry : ∀ volume : Volume, (MonadDisk.hasEntry parent : StateM Volume Bool) volume =
        ((volume.nodeAt? parent).isSome, volume) := by
      intro volume
      change ((_ : Option EntryKind).isSome, volume) = _
      rw [Option.isSome_map]
    have hmake : ∀ volume : Volume, (MonadDisk.makeDirectories parent : StateM Volume _) volume =
        ((volume.makeDirectories parent).2, (volume.makeDirectories parent).1) := fun _ => rfl
    have hagree : (other.nodeAt? parent).isSome = (volume.nodeAt? parent).isSome ∧
        (other.makeDirectories parent).2 = (volume.makeDirectories parent).2 ∧
          (volume.makeDirectories parent).1.Agree seen (other.makeDirectories parent).1 := by
      by_cases hempty : parent.chars = []
      · have hnone : ∀ volume : Volume, volume.nodeAt? parent = none := by
          intro volume
          rw [Volume.nodeAt?, Volume.locate]
          simp [DiskPath.flaw?, hempty]
        rw [Volume.makeDirectories_empty hempty, Volume.makeDirectories_empty hempty, hnone, hnone]
        exact ⟨rfl, rfl, h⟩
      · have hisAbove := (DiskPath.isParent_of_parent hparent hempty).isAbove
        have habove := hseen (Volume.target_isAbove hisAbove) htarget
        exact ⟨by rw [h.nodeAt? hseen (hisAbove.neverUp hup) habove],
          h.makeDirectories hseen (hisAbove.neverUp hup) habove⟩
    simp only [bind_on, hentry, hagree.1]
    split
    · exact ⟨rfl, h⟩
    · simp only [bind_on, pure_on, hmake, hagree.2.1]
      exact ⟨trivial, hagree.2.2⟩

/-- A write is answered alike on volumes that agree on the way to its path. -/
theorem writeResult_agree (content : String) :
    ((writeResult false path content : StateM Volume _) other).1 =
        ((writeResult false path content : StateM Volume _) volume).1 ∧
      ((writeResult false path content : StateM Volume _) volume).2.Agree seen
        ((writeResult false path content : StateM Volume _) other).2 := by
  have hread := h.read hseen hup htarget
  by_cases hholds : volume.read path = .ok content
  · rw [writeResult_unchanged hholds, writeResult_unchanged (hread.trans hholds)]
    exact ⟨rfl, h⟩
  · rw [writeResult_on hholds, writeResult_on (hread ▸ hholds)]
    have hprepared := prepareDirectory_becomes volume hup
    obtain ⟨hanswer, hmade⟩ := prepareDirectory_agree hseen h hup htarget
    cases hprepare : (prepareDirectory path : StateM Volume _) volume with
    | mk prepared made =>
      cases hprepare' : (prepareDirectory path : StateM Volume _) other with
      | mk prepared' made' =>
        rw [hprepare, hprepare'] at hanswer hmade
        rw [hprepare] at hprepared
        obtain rfl : prepared' = prepared := hanswer
        cases prepared' with
        | error problem => exact ⟨rfl, hmade⟩
        | ok =>
          have hwrites := hmade.write hseen hup
            ((Volume.target_congr hprepared.home path).symm ▸ htarget) content
          simp only
          generalize made.write path content = answer, made'.write path content = answer'
            at hwrites
          cases hwrites with
          | refused problem => exact ⟨rfl, hmade⟩
          | made hafter => exact ⟨rfl, hafter⟩

end Agree

end WriteResult

/-! ## Sessions on a volume -/

namespace Session

variable {α β : Type} {volume : Volume} {lines : List String}

/-- What a session gives on a volume when lines have been printed before: its value or why it
failed, all lines, and the volume that it leaves. -/
def on (session : Session (StateM Volume) α) (lines : List String) (volume : Volume) :
    (Except CommandProblem α × List String) × Volume :=
  (session.run.run lines).run volume

/-- A session goes on behind what succeeds, and ends with what fails. -/
theorem on_bind (first : Session (StateM Volume) α) (rest : α → Session (StateM Volume) β) :
    (first >>= rest).on lines volume =
      match first.on lines volume with
      | ((.ok value, told), after) => (rest value).on told after
      | ((.error problem, told), after) => ((.error problem, told), after) := by
  rw [on, on, ExceptT.run_bind, StateT.run_bind, StateT.run_bind]
  change (fun out : (Except CommandProblem α × List String) × Volume => _)
    (((first.run.run lines).run volume)) = _
  obtain ⟨⟨result, told⟩, after⟩ := (first.run.run lines).run volume
  cases result <;> rfl

theorem on_pure (value : α) :
    (pure value : Session (StateM Volume) α).on lines volume = ((.ok value, lines), volume) := rfl

/-- A line that is said is added to the others. -/
theorem on_say (line : String) :
    (say line : Session (StateM Volume) Unit).on lines volume =
      ((.ok (), lines ++ [line]), volume) := rfl

/-- A failure ends the session for the given reason. -/
theorem on_orFail {ε : Type} (reason : ε → CommandProblem) (ask : StateM Volume (Except ε α)) :
    (orFail reason ask).on lines volume =
      match ask volume with
      | (.ok value, after) => ((.ok value, lines), after)
      | (.error problem, after) => ((.error (reason problem), lines), after) := by
  rw [orFail, on_bind]
  have hask : Session.on (monadLift (monadLift ask : StateT (List String) (StateM Volume) _) :
      Session (StateM Volume) (Except ε α)) lines volume =
      ((.ok (ask volume).1, lines), (ask volume).2) := rfl
  rw [hask]
  cases hresult : ask volume with
  | mk result after => cases result <;> rfl

/-- A session that gives a value and prints lines, whatever volume it is on, and leaves the volume
as it is. -/
def Tells (session : Session (StateM Volume) α) (value : α) (told : List String) : Prop :=
  ∀ lines volume, session.on lines volume = ((.ok value, lines ++ told), volume)

/-- A value tells nothing. -/
theorem tells_pure (value : α) : Tells (pure value) value [] := by
  intro lines volume
  rw [on_pure, List.append_nil]

/-- A line that is said is told. -/
theorem tells_say (line : String) : Tells (say line) () [line] :=
  fun _ _ => on_say line

/-- What is told one after the other is told together. -/
theorem Tells.bind {first : Session (StateM Volume) α} {rest : α → Session (StateM Volume) β}
    {value : α} {value' : β} {told told' : List String} (h : first.Tells value told)
    (h' : (rest value).Tells value' told') : (first >>= rest).Tells value' (told ++ told') := by
  intro lines volume
  rw [on_bind, h lines volume]
  simp only
  rw [h' _ volume, List.append_assoc]

/-- What is told of items is told together. -/
theorem tells_forM {items : List α} {tell : α → Session (StateM Volume) PUnit}
    (h : ∀ item, ∃ told, (tell item).Tells ⟨⟩ told) : ∃ told, (items.forM tell).Tells ⟨⟩ told := by
  induction items with
  | nil => exact ⟨[], tells_pure _⟩
  | cons first rest ih =>
    obtain ⟨told, hfirst⟩ := h first
    obtain ⟨told', hrest⟩ := ih
    exact ⟨told ++ told', hfirst.bind hrest⟩

end Session

/-! ## Runs on a volume -/

namespace Settings

open Session

variable {settings : Settings} {workingDirectory : String} {volume middle after : Volume}
  {results : List RunResult}

/-- Telling of problems only prints lines. -/
theorem tellProblems_tells (problems : List LoadProblem) :
    ∃ told, Tells (tellProblems false problems) () told := by
  cases problems with
  | nil => exact ⟨[], tells_pure ()⟩
  | cons first rest =>
    obtain ⟨told, htold⟩ : ∃ told, Tells ((first :: rest).forM fun problem =>
        say ("  " ++ problem.message)) ⟨⟩ told := tells_forM fun problem => ⟨_, tells_say _⟩
    exact ⟨_, (tells_say _).bind htold⟩

/-- What a run does with the snapshots that it scanned. -/
def continueWith (settings : Settings) (workingDirectory : String) (files : List SnapshotFile) :
    Session (StateM Volume) (Option (List RunResult)) :=
  if files = [] then do
    say "No snapshot files found."
    return none
  else do
    say ("  Found " ++ toString files.length ++ " snapshot(s)")
    tellProblems false (loadAll files).2
    say ("Transforming (" ++ settings.mode.name ++ " mode)...")
    let results := settings.run workingDirectory (loadAll files).1
    say ("  Augmented " ++ toString (RunResult.augmented results) ++ " decorator(s), left " ++
      toString (RunResult.skipped results) ++ " unchanged")
    return some results

/-- The snapshots decide what a run makes of them and what it tells; nothing else of the volume
does. -/
theorem continueWith_tells (settings : Settings) (workingDirectory : String)
    (files : List SnapshotFile) :
    ∃ made told, made.getD [] = files.filterMap (settings.resultOf? workingDirectory) ∧
      Tells (settings.continueWith workingDirectory files) made told := by
  rw [continueWith]
  split
  · rename_i hnil
    exact ⟨none, _, by rw [hnil]; rfl, (tells_say _).bind (tells_pure none)⟩
  · obtain ⟨told, htold⟩ := tellProblems_tells (loadAll files).2
    exact ⟨some (settings.run workingDirectory (loadAll files).1), _,
      run_loadAll settings workingDirectory files,
      (tells_say _).bind (htold.bind ((tells_say _).bind ((tells_say _).bind (tells_pure _))))⟩

section Scanned

variable [Walker] [Globs]

/-- The snapshots that a run scans. -/
def scannedOn (settings : Settings) (volume : Volume) : Except ScanProblem (List SnapshotFile) := do
  (← settings.scanRequest false).filesOn volume

/-- What a run makes of the snapshots that can be loaded. -/
def resultsOn (settings : Settings) (workingDirectory : String) (volume : Volume) :
    List RunResult :=
  match settings.scannedOn volume with
  | .ok files => files.filterMap (settings.resultOf? workingDirectory)
  | .error _ => []

/-- A run on a volume from its start. -/
def transformOn (settings : Settings) (workingDirectory : String) (dryRun : Bool)
    (volume : Volume) : (Except CommandProblem Unit × List String) × Volume :=
  (settings.transform workingDirectory dryRun).on [] volume

/-- A run scans first, and goes on with what it found. -/
theorem augmentAll_on_scanned : (settings.augmentAll workingDirectory false).on [] volume =
    match settings.scannedOn volume with
    | .error problem =>
      ((.error (.scan problem), ["Scanning for type snapshots..."]), volume)
    | .ok files => (settings.continueWith workingDirectory files).on
        ["Scanning for type snapshots..."] volume := by
  rw [augmentAll, on_bind, on_say, scannedOn]
  simp only [List.nil_append]
  rw [on_bind, on_orFail]
  cases hrequest : settings.scanRequest false with
  | error problem => rfl
  | ok request =>
    simp only [pure_on]
    rw [on_bind, on_orFail, ScanRequest.scanAllowingNone_on]
    change _ = match request.filesOn volume with
      | .error problem => _
      | .ok files => _
    cases request.filesOn volume with
    | error problem => rfl
    | ok files => cases files <;> rfl

/-- A run of which it is known what it scans. -/
theorem transformOn_eq {dryRun : Bool} {files : List SnapshotFile}
    (h : settings.scannedOn volume = .ok files) :
    settings.transformOn workingDirectory dryRun volume =
      ((settings.continueWith workingDirectory files >>= fun made =>
        settings.writeAll dryRun (made.getD [])) : Session (StateM Volume) Unit).on
          ["Scanning for type snapshots..."] volume := by
  rw [transformOn, transform, on_bind, augmentAll_on_scanned, h, on_bind]
  simp only
  cases (settings.continueWith workingDirectory files).on
      ["Scanning for type snapshots..."] volume with
  | mk out after =>
    obtain ⟨result, told⟩ := out
    cases result with
    | error problem => rfl
    | ok made => cases made <;> rfl

/-- A run writes what it makes of the snapshots. -/
theorem transformOn_scanned (settings : Settings) (workingDirectory : String)
    (scanned : Except ScanProblem (List SnapshotFile)) :
    ∃ told, ∀ (dryRun : Bool) (volume : Volume), settings.scannedOn volume = scanned →
      settings.transformOn workingDirectory dryRun volume =
        match scanned with
        | .error problem => ((.error (.scan problem), told), volume)
        | .ok files => (settings.writeAll dryRun
            (files.filterMap (settings.resultOf? workingDirectory))).on told volume := by
  cases scanned with
  | error problem =>
    refine ⟨["Scanning for type snapshots..."], fun dryRun volume hscanned => ?_⟩
    rw [transformOn, transform, on_bind, augmentAll_on_scanned, hscanned]
  | ok files =>
    obtain ⟨made, told, hmade, htells⟩ := settings.continueWith_tells workingDirectory files
    refine ⟨"Scanning for type snapshots..." :: told, fun dryRun volume hscanned => ?_⟩
    rw [transformOn_eq hscanned, on_bind, htells]
    simp only
    rw [hmade]
    rfl

end Scanned

/-! ## Writing all results -/

/-- The line about a result that was found as it is to be. -/
def unchangedLine (settings : Settings) (result : RunResult) : String :=
  "· Unchanged " ++ (settings.outputOf result).text

/-- Results are written one after the other, each of them with success. -/
inductive Written (settings : Settings) : Volume → List RunResult → Volume → Prop
  | nil (volume : Volume) : Written settings volume [] volume
  | cons {volume middle after : Volume} {result : RunResult} {outcome : WriteOutcome}
      {rest : List RunResult} :
      (writeResult false (settings.outputOf result) (settings.textOf result) :
        StateM Volume _) volume = (.ok outcome, middle) →
      Written settings middle rest after → Written settings volume (result :: rest) after

/-- How writes end: with the last result, or with the first one that cannot be written. -/
inductive WritesEnd (settings : Settings) (volume : Volume) :
    List RunResult → Except CommandProblem Unit → Volume → Prop
  | done : WritesEnd settings volume [] (.ok ()) volume
  | failed {result : RunResult} {rest : List RunResult} {problem : WriteProblem}
      {after : Volume} :
      (writeResult false (settings.outputOf result) (settings.textOf result) :
        StateM Volume _) volume = (.error problem, after) →
      WritesEnd settings volume (result :: rest) (.error (.write problem)) after

/-- What is printed about a result. -/
def outcomeLines : WriteOutcome → List String
  | .written path bytes => ["✓ Written " ++ toString bytes ++ " bytes to " ++ path.text]
  | .unchanged path => ["· Unchanged " ++ path.text]
  | .preview path content => ["[dry-run] Would write to " ++ path.text ++ ":", rule, content, rule]

/-- The outcome of a write is told in its lines. -/
theorem tellOutcome_tells (outcome : WriteOutcome) :
    Tells (tellOutcome outcome) () (outcomeLines outcome) := by
  cases outcome with
  | written path bytes => exact tells_say _
  | unchanged path => exact tells_say _
  | preview path content =>
    exact (tells_say _).bind ((tells_say _).bind ((tells_say _).bind (tells_say _)))

/-- The first result is written, and the others if that succeeds. -/
theorem writeAll_cons_on (dryRun : Bool) (result : RunResult) (lines : List String) :
    (settings.writeAll dryRun (result :: results)).on lines volume =
      match (writeResult dryRun (settings.outputOf result) (settings.textOf result) :
        StateM Volume _) volume with
      | (.ok outcome, after) =>
        (settings.writeAll dryRun results).on (lines ++ outcomeLines outcome) after
      | (.error problem, after) => ((.error (.write problem), lines), after) := by
  rw [writeAll, on_bind, on_orFail, outputOf, textOf]
  cases (writeResult dryRun (result.outputPath settings.output settings.format)
      (result.render settings.format) : StateM Volume _) volume with
  | mk answer next =>
    cases answer with
    | error problem => rfl
    | ok outcome =>
      simp only
      rw [on_bind, tellOutcome_tells]

/-- The results in front of the first one that cannot be written are written, and a line is printed
for each of them. -/
theorem writeAll_on (settings : Settings) (results : List RunResult) (lines : List String)
    (volume : Volume) :
    ∃ written rest middle, results = written ++ rest ∧ settings.Written volume written middle ∧
      settings.WritesEnd middle rest ((settings.writeAll false results).on lines volume).1.1
        ((settings.writeAll false results).on lines volume).2 ∧
      ∃ told, told.length = written.length ∧
        ((settings.writeAll false results).on lines volume).1.2 = lines ++ told := by
  induction results generalizing lines volume with
  | nil => exact ⟨[], [], volume, rfl, .nil volume, .done, [], rfl, (List.append_nil _).symm⟩
  | cons result others ih =>
    rw [writeAll_cons_on]
    cases hwrite : (writeResult false (settings.outputOf result) (settings.textOf result) :
        StateM Volume _) volume with
    | mk answer next =>
      cases answer with
      | error problem =>
        exact ⟨[], _, volume, rfl, .nil volume, .failed hwrite, [], rfl,
          (List.append_nil _).symm⟩
      | ok outcome =>
        obtain ⟨written, rest, middle, rfl, hwritten, hend, told, hlength, hlines⟩ :=
          ih (lines ++ outcomeLines outcome) next
        have hline : (outcomeLines outcome).length = 1 := by
          cases writeStep_of_writeResult hwrite <;> rfl
        refine ⟨result :: written, rest, middle, rfl, .cons hwrite hwritten, hend,
          outcomeLines outcome ++ told, ?_, ?_⟩
        · rw [List.length_append, hline, hlength, List.length_cons, Nat.add_comm]
        · rw [hlines, List.append_assoc]

/-- A dry run writes nothing and cannot fail. -/
theorem writeAll_on_dry (settings : Settings) (results : List RunResult) (lines : List String)
    (volume : Volume) :
    ∃ told, (settings.writeAll true results).on lines volume = ((.ok (), told), volume) := by
  induction results generalizing lines with
  | nil => exact ⟨lines, rfl⟩
  | cons result rest ih =>
    rw [writeAll_cons_on, writeResult_dry]
    exact ih _

/-- Results are written alike on volumes that agree on the way to their outputs. -/
theorem writeAll_agree {seen : Place → Prop}
    (hseen : ∀ {above place : Place}, above <+: place → seen place → seen above)
    {other : Volume} (h : volume.Agree seen other)
    (hup : ∀ result ∈ results, (settings.outputOf result).NeverUp)
    (htargets : ∀ result ∈ results, seen (volume.target (settings.outputOf result)))
    (lines lines' : List String) :
    ((settings.writeAll false results).on lines volume).2.Agree seen
      ((settings.writeAll false results).on lines' other).2 := by
  induction results generalizing volume other lines lines' with
  | nil => exact h
  | cons result rest ih =>
    have hresultUp := hup result List.mem_cons_self
    obtain ⟨hanswer, hagree⟩ := writeResult_agree hseen h hresultUp
      (htargets result List.mem_cons_self) (settings.textOf result)
    rw [writeAll_cons_on, writeAll_cons_on]
    cases hwrite : (writeResult false (settings.outputOf result) (settings.textOf result) :
        StateM Volume _) volume with
    | mk answer next =>
      cases hwrite' : (writeResult false (settings.outputOf result) (settings.textOf result) :
          StateM Volume _) other with
      | mk answer' next' =>
        rw [hwrite, hwrite'] at hanswer hagree
        obtain rfl : answer' = answer := hanswer
        cases answer' with
        | error problem => exact hagree
        | ok outcome =>
          have hhome := ((writeStep_of_writeResult hwrite).becomes hresultUp).home
          refine ih hagree (fun other hmem => hup other (List.mem_cons_of_mem _ hmem))
            (fun other hmem => ?_) _ _
          rw [Volume.target_congr hhome]
          exact htargets other (List.mem_cons_of_mem _ hmem)

/-- Nothing is written where everything is as it is to be. -/
theorem writeAll_on_unchanged (h : ∀ result ∈ results,
    volume.read (settings.outputOf result) = .ok (settings.textOf result)) (lines : List String) :
    (settings.writeAll false results).on lines volume =
      ((.ok (), lines ++ results.map settings.unchangedLine), volume) := by
  induction results generalizing lines with
  | nil => rw [List.map_nil, List.append_nil]; rfl
  | cons result rest ih =>
    rw [writeAll_cons_on, writeResult_unchanged (h result List.mem_cons_self)]
    simp only
    rw [ih fun other hmem => h other (List.mem_cons_of_mem _ hmem), List.map_cons,
      List.append_assoc]
    rfl

end Settings

end TypedRoutes
