import TypedRoutes.Proofs.Generation.Numbers
import TypedRoutes.Proofs.Json.Kept
import TypedRoutes.Proofs.Route.Idempotence
import TypedRoutes.Proofs.Route.Report
import TypedRoutes.Proofs.Run.Isolation
import TypedRoutes.Proofs.Types.Unknown
import TypedRoutes.Proofs.Unit.Moderate

/-!
# Reading results again

A result is rendered as a snapshot, and a later run may scan it. What the decorators received brings
no numbers that are not read back, and no reference is new. Its nesting may keep the text from being
read, since a chain of operators nests one level deeper with every operand, so that a unit well
inside the limit of readers can be augmented to one that is not.
-/

namespace TypedRoutes

open Json

/-! ## Augmenting moderate units -/

section Moderate

variable {P : Float → Prop} {limit : Nat}

/-- What a method responds with is moderate if its return type is. -/
theorem Ty.Moderate.response {type : Ty} (h : type.Moderate P limit) :
    type.response.Moderate P limit := by
  obtain ⟨kind, _⟩ := type
  cases kind <;> exact h

/-- The definitions of a moderate snapshot make a moderate scope for a factory whose numbers have
the property. -/
theorem Snapshot.Moderate.scope {snapshot : Snapshot} (h : snapshot.Moderate P limit)
    (hlengths : ∀ n ≤ limit, P (Float.ofNat n)) {factory : Expr} (hfactory : factory.Every P) :
    (Scope.mk factory snapshot.definitions).Moderate P limit where
  lengths := hlengths
  factory := hfactory
  definitions hget := h.definitions _ (KeyMap.get?_eq_some_iff.mp hget)

variable {snapshot : Snapshot} (hsnapshot : snapshot.Moderate P limit)
  (hlengths : ∀ n ≤ limit, P (Float.ofNat n)) (allowList : AllowList) (mode : Mode)

include hsnapshot hlengths

namespace Project

/-- The numbers of what becomes of a decorator at a moderate type have the property if its own
have. -/
theorem every_augmentSite {site : Site}
    (hreturn : ∀ type ∈ site.returnType?, type.Moderate P limit)
    (hdecorator : site.decorator.expression.Every P) :
    ((snapshot.project allowList mode).augmentSite site).1.expression.Every P := by
  have hdecides := (snapshot.project allowList mode).decides_augmentSite site
  generalize (snapshot.project allowList mode).augmentSite site = decided at hdecides ⊢
  obtain ⟨decorator, outcome⟩ := decided
  cases hdecides with
  | skipped reason => exact hdecorator
  | augmented returns calls room =>
    rw [calls] at hdecorator
    obtain ⟨hcallee, harguments⟩ := every_append.mp hdecorator
    have hartifact := every_artifact (hsnapshot.scope hlengths hcallee) mode
      (hreturn _ returns).response
    rw [← snapshot.project_artifact allowList mode] at hartifact
    exact .invoke hcallee (List.forall_mem_append.mpr
      ⟨every_numbersOf.mp harguments, List.forall_mem_singleton.mpr hartifact⟩)

/-- A moderate method is moderate after its decorators were augmented. -/
theorem moderate_augmentMethod {method : MethodDeclaration} (h : method.Moderate P limit) :
    ((snapshot.project allowList mode).augmentMethod method).method.Moderate P limit where
  decorators := by
    rw [augmentMethod_decorators _ "", MethodDeclaration.sites]
    simp only [List.map_map, List.forall_mem_map, Function.comp_apply]
    exact fun decorator hdecorator => every_augmentSite hsnapshot hlengths allowList mode
      h.returnType (h.decorators decorator hdecorator)
  returnType := by
    rw [augmentMethod_returnType?]
    exact h.returnType

/-- A moderate file is moderate after it was augmented. -/
theorem moderate_augmentFile {file : SourceFile} (h : file.Moderate P limit) :
    ((snapshot.project allowList mode).augmentFile file).file.Moderate P limit := by
  rw [SourceFile.Moderate, augmentFile, List.forall_mem_map]
  intro declaration hdeclaration
  rw [augmentClass, List.forall_mem_map]
  exact fun method hmethod => moderate_augmentMethod hsnapshot hlengths allowList mode
    (h declaration hdeclaration method hmethod)

end Project

end Moderate

/-! ## Results -/

variable {allowList : AllowList} {result : RunResult}

/-- The results of a run with an allow list: a unit was read from a text and augmented in some mode.
The values that it records are none of the artifacts, unless as plain objects. -/
inductive RunResult.Made (allowList : AllowList) : RunResult → Prop
  | augment {text : String} {unit : CompilationUnit} {mode : Mode} (path relative : DiskPath)
      (reads : CompilationUnit.ofText text = .ok unit)
      (admits : unit.types.AdmitsArtifacts mode unit.source) :
      Made allowList (LoadedSnapshot.augment mode allowList ⟨path, relative, unit⟩)

namespace LoadedSnapshot

/-- Augmenting a unit is augmenting its source with what its snapshot answers. -/
theorem augment_eq (mode : Mode) (allowList : AllowList) (loaded : LoadedSnapshot) :
    loaded.augment mode allowList =
      let augmented := (loaded.unit.types.project allowList mode).augmentFile loaded.unit.source
      ⟨loaded.relative, ⟨augmented.file, loaded.unit.types⟩, augmented.report⟩ := rfl

/-- Artifacts bring no numbers that are not kept: if those of a unit are and its tuples have less
than 2 ^ 49 elements, those of the augmented unit are. -/
theorem kept_augment {loaded : LoadedSnapshot} (mode : Mode) (allowList : AllowList)
    (h : loaded.unit.Moderate Kept (2 ^ 49 - 1)) :
    Every Kept (loaded.augment mode allowList).unit.numbers := by
  have hlengths (n : Nat) (hn : n ≤ 2 ^ 49 - 1) : Kept (Float.ofNat n) :=
    kept_ofNat (Nat.lt_of_le_pred (by decide) hn)
  have haugmented : (loaded.augment mode allowList).unit.Moderate Kept (2 ^ 49 - 1) := {
    source := Project.moderate_augmentFile h.types hlengths allowList mode h.source
    types := h.types }
  exact haugmented.every

end LoadedSnapshot

namespace RunResult.Made

/-- The unit of a result has names that are texts, and no unknown references. -/
theorem named (h : result.Made allowList) :
    result.unit.Named ∧ result.unit.types.unknownReference? = none := by
  cases h with
  | augment path relative reads admits =>
    obtain ⟨hnamed, hknown⟩ := CompilationUnit.of_ofText reads
    exact ⟨CompilationUnit.named_iff.mpr (CompilationUnit.named_iff.mp hnamed), hknown⟩

/-- A rendered result is read back if it does not nest too deep and its numbers are kept. -/
theorem ofText_render (h : result.Made allowList)
    (hnesting : result.unit.toJson.nesting ≤ nestingBudget)
    (hkept : Every Kept result.unit.numbers) :
    CompilationUnit.ofText (result.render .json) = .ok result.unit :=
  CompilationUnit.ofText_line h.named.1 hkept h.named.2 hnesting

/-- A rendered result that nests too deep is refused. -/
theorem ofText_render_deep (h : result.Made allowList)
    (hnesting : nestingBudget < result.unit.toJson.nesting) :
    ∃ fault, CompilationUnit.ofText (result.render .json) = .error (.json fault) :=
  CompilationUnit.ofText_line_deep h.named.1 hnesting

/-- Augmenting the unit of a result again changes nothing and augments no decorator. -/
theorem augment_again (h : result.Made allowList) (mode : Mode) (path relative : DiskPath) :
    (LoadedSnapshot.augment mode allowList ⟨path, relative, result.unit⟩).unit = result.unit ∧
      (LoadedSnapshot.augment mode allowList
        ⟨path, relative, result.unit⟩).report.augmented = 0 := by
  cases h with
  | @augment text unit first path relative reads admits =>
    have hagain := Project.augmentSite_again allowList mode admits
    simp only [LoadedSnapshot.augment_eq]
    constructor
    · rw [Project.augmentFile_eq_self _ fun site hsite => ?_]
      obtain ⟨reason, hreason⟩ := hagain site hsite
      rw [hreason]
    · rw [Report.augmented, List.countP_eq_zero, Project.augmentFile_entries, List.forall_mem_map]
      intro site hsite
      obtain ⟨reason, hreason⟩ := hagain site hsite
      simp [Project.entryAt, hreason]

end RunResult.Made

/-! ## Checks on a volume -/

namespace Settings

open Session

/-- What a check finds in the snapshots that it scanned: the first that cannot be loaded, or else
how many a run would change. -/
def checkFiles (settings : Settings) (workingDirectory : String) (files : List SnapshotFile) :
    Except CommandProblem Unit :=
  match (loadAll files).2 with
  | problem :: _ => .error (.load problem)
  | [] =>
    match RunResult.changed (settings.run workingDirectory (loadAll files).1) with
    | [] => .ok ()
    | changed => .error (.notTransformed changed.length)

variable [Walker] [Globs] {settings : Settings} (workingDirectory : String) {volume : Volume}

/-- The snapshots that a check scans, the results of runs among them. -/
def checkedOn (settings : Settings) (volume : Volume) : Except ScanProblem (List SnapshotFile) := do
  (← settings.scanRequest true).filesOn volume

/-- A check that scanned no files has nothing to look at. -/
theorem check_on_nil (hscanned : settings.checkedOn volume = .ok []) :
    ∃ told, (settings.check workingDirectory).on [] volume = ((.ok (), told), volume) := by
  obtain ⟨request, hrequest, hfiles⟩ := except_bind_eq_ok.mp hscanned
  refine ⟨["Scanning for type snapshots...", "No snapshot files found."], ?_⟩
  rw [check, on_bind, augmentAll, on_bind, on_say]
  simp only
  rw [on_bind, on_orFail, hrequest]
  simp only [pure_on]
  rw [on_bind, on_orFail, ScanRequest.scanAllowingNone_on, hfiles]
  rfl

/-- A check that scanned files loads all of them before it looks at any. -/
theorem augmentAll_on_checked {first : SnapshotFile} {rest : List SnapshotFile}
    (hscanned : settings.checkedOn volume = .ok (first :: rest)) :
    ∃ told, (settings.augmentAll workingDirectory true).on [] volume =
      ((match (loadAll (first :: rest)).2 with
        | problem :: _ => .error (.load problem)
        | [] => .ok (some (settings.run workingDirectory (loadAll (first :: rest)).1)), told),
        volume) := by
  obtain ⟨request, hrequest, hfiles⟩ := except_bind_eq_ok.mp hscanned
  rw [augmentAll, on_bind, on_say]
  simp only
  rw [on_bind, on_orFail, hrequest]
  simp only [pure_on]
  rw [on_bind, on_orFail, ScanRequest.scanAllowingNone_on, hfiles]
  simp only
  rw [on_bind, on_say]
  simp only
  generalize loadAll (first :: rest) = loaded
  obtain ⟨snapshots, problems⟩ := loaded
  cases problems with
  | cons problem others => exact ⟨_, rfl⟩
  | nil =>
    exact ⟨_, ((tells_pure ()).bind ((tells_say _).bind ((tells_say _).bind
      (tells_pure (some (settings.run workingDirectory snapshots)))))) _ _⟩

/-- A check leaves the volume as it is, and the snapshots that it scanned decide how it ends. -/
theorem check_on {files : List SnapshotFile} (hscanned : settings.checkedOn volume = .ok files) :
    ∃ told, (settings.check workingDirectory).on [] volume =
      ((settings.checkFiles workingDirectory files, told), volume) := by
  cases files with
  | nil => exact check_on_nil workingDirectory hscanned
  | cons first rest =>
    obtain ⟨told, htold⟩ := augmentAll_on_checked workingDirectory hscanned
    rw [check, on_bind, htold, checkFiles]
    cases (loadAll (first :: rest)).2 with
    | cons problem others => exact ⟨_, rfl⟩
    | nil =>
      simp only
      cases RunResult.changed (settings.run workingDirectory (loadAll (first :: rest)).1) with
      | nil => exact ⟨_, rfl⟩
      | cons result results =>
        obtain ⟨told', htold'⟩ : ∃ told', Tells ((result :: results).forM fun result =>
            say ("  " ++ result.relative.text ++ " (" ++ toString result.report.augmented ++
              " decorator(s))")) ⟨⟩ told' := tells_forM fun result => ⟨_, tells_say _⟩
        simp only
        rw [on_bind, on_say]
        simp only
        rw [on_bind, htold']
        exact ⟨_, rfl⟩

end Settings

/-! ## Checks of results -/

namespace RunResult

/-- The file that a result is rendered to below a directory, as a scan of the directory finds it. -/
def fileIn (directory : DiskPath) (result : RunResult) : SnapshotFile :=
  ⟨result.outputPath directory .json, result.relative, result.render .json⟩

/-- The result as a snapshot that is loaded from below a directory. -/
def loadedIn (directory : DiskPath) (result : RunResult) : LoadedSnapshot :=
  ⟨result.outputPath directory .json, result.relative, result.unit⟩

/-- A file is loaded if its text is that of a unit. -/
theorem load_eq (file : SnapshotFile) : file.load =
    match CompilationUnit.ofText file.content with
    | .ok unit => .ok ⟨file.path, file.relative, unit⟩
    | .error reason => .error (.badUnit file.path reason) := by
  rw [SnapshotFile.load, CompilationUnit.ofFile]
  cases CompilationUnit.ofText file.content <;> rfl

/-- The problem of a file that cannot be loaded is kept. -/
theorem mem_problems {files : List SnapshotFile} {file : SnapshotFile} {problem : LoadProblem}
    (hfile : file ∈ files) (hload : file.load = .error problem) : problem ∈ (loadAll files).2 := by
  induction files with
  | nil => cases hfile
  | cons first rest ih =>
    rw [loadAll]
    rcases List.mem_cons.mp hfile with rfl | hlater
    · rw [hload]
      exact List.mem_cons_self
    · have hrest := ih hlater
      cases first.load with
      | ok loaded => exact hrest
      | error own => exact List.mem_cons_of_mem _ hrest

/-- Every problem is that of a file whose text is not that of a unit. -/
theorem of_mem_problems {files : List SnapshotFile} {problem : LoadProblem}
    (h : problem ∈ (loadAll files).2) : ∃ file ∈ files, ∃ reason,
      problem = .badUnit file.path reason := by
  induction files with
  | nil => cases h
  | cons first rest ih =>
    have hlater (hrest : problem ∈ (loadAll rest).2) :
        ∃ file ∈ first :: rest, ∃ reason, problem = .badUnit file.path reason := by
      obtain ⟨file, hfile, hreason⟩ := ih hrest
      exact ⟨file, List.mem_cons_of_mem _ hfile, hreason⟩
    rw [loadAll, load_eq] at h
    cases hunit : CompilationUnit.ofText first.content with
    | ok unit =>
      rw [hunit] at h
      exact hlater h
    | error reason =>
      rw [hunit] at h
      rcases List.mem_cons.mp h with rfl | hrest
      · exact ⟨first, List.mem_cons_self, reason, rfl⟩
      · exact hlater hrest

variable {results : List RunResult} (directory : DiskPath)

/-- A result that can be read back: it does not nest too deep, and its numbers are kept. -/
structure IsReadable (result : RunResult) : Prop where
  nesting : result.unit.toJson.nesting ≤ nestingBudget
  kept : Every Kept result.unit.numbers

/-- Results that can be read back are loaded. -/
theorem loadAll_readable (hmade : ∀ result ∈ results, result.Made allowList)
    (hreadable : ∀ result ∈ results, result.IsReadable) :
    loadAll (results.map (fileIn directory)) = (results.map (loadedIn directory), []) := by
  induction results with
  | nil => rfl
  | cons result rest ih =>
    obtain ⟨hfirst, hrest⟩ := List.forall_mem_cons.mp hmade
    obtain ⟨hown, hothers⟩ := List.forall_mem_cons.mp hreadable
    have hload : (result.fileIn directory).load = .ok (result.loadedIn directory) := by
      rw [load_eq, fileIn, hfirst.ofText_render hown.nesting hown.kept]
      rfl
    rw [List.map_cons, loadAll, hload, ih hrest hothers]
    rfl

/-- A check that scanned results succeeds if all of them can be read back. -/
theorem checkFiles_readable {settings : Settings} {workingDirectory : String}
    (hmade : ∀ result ∈ results, result.Made (settings.allowList workingDirectory))
    (hreadable : ∀ result ∈ results, result.IsReadable) :
    settings.checkFiles workingDirectory (results.map (fileIn directory)) = .ok () := by
  have hunchanged :
      changed (settings.run workingDirectory (results.map (loadedIn directory))) = [] := by
    rw [changed, List.filter_eq_nil_iff, Settings.run, List.map_map, List.forall_mem_map]
    intro result hresult
    have hagain := ((hmade result hresult).augment_again settings.mode
      (result.outputPath directory .json) result.relative).2
    simp [Report.isChanged, loadedIn, hagain]
  simp only [Settings.checkFiles, loadAll_readable directory hmade hreadable, hunchanged]

/-- A check that scanned a result that nests too deep fails with one of the results. -/
theorem checkFiles_deep {settings : Settings} {workingDirectory : String}
    (hmade : ∀ result ∈ results, result.Made (settings.allowList workingDirectory))
    {deep : RunResult} (hmem : deep ∈ results)
    (hdeep : nestingBudget < deep.unit.toJson.nesting) :
    ∃ result ∈ results, ∃ reason,
      settings.checkFiles workingDirectory (results.map (fileIn directory)) =
        .error (.load (.badUnit (result.outputPath directory .json) reason)) := by
  obtain ⟨fault, hfault⟩ := (hmade deep hmem).ofText_render_deep hdeep
  have hload : (deep.fileIn directory).load =
      .error (.badUnit (deep.outputPath directory .json) (.json fault)) := by
    rw [load_eq, fileIn, hfault]
  have hproblem := mem_problems (List.mem_map_of_mem hmem) hload
  rw [Settings.checkFiles]
  cases hproblems : (loadAll (results.map (fileIn directory))).2 with
  | nil =>
    rw [hproblems] at hproblem
    cases hproblem
  | cons problem others =>
    obtain ⟨file, hfile, reason, rfl⟩ :=
      of_mem_problems (hproblems ▸ List.mem_cons_self : problem ∈ _)
    obtain ⟨result, hresult, rfl⟩ := List.mem_map.mp hfile
    exact ⟨result, hresult, reason, rfl⟩

/-- A rendered result is read back as the result if its JSON form nests no deeper than readers go
and its numbers are kept by the reader, and it is refused if it nests deeper. Artifacts bring no
numbers that are not kept. Augmenting the result changes nothing, in whatever mode. So a check of a
directory that holds results succeeds if all of them can be read back, and cannot load one of them
if any nests too deep; the volume stays as it is. -/
theorem render_readBack [Walker] [Globs] {allowList : AllowList} {results : List RunResult}
    (hmade : ∀ result ∈ results, result.Made allowList) :
    (∀ result ∈ results,
      (result.IsReadable →
        CompilationUnit.ofText (result.render .json) = .ok result.unit) ∧
      (nestingBudget < result.unit.toJson.nesting →
        ∃ fault, CompilationUnit.ofText (result.render .json) = .error (.json fault)) ∧
      ∀ (mode : Mode) (path relative : DiskPath),
        (LoadedSnapshot.augment mode allowList ⟨path, relative, result.unit⟩).unit = result.unit ∧
        (LoadedSnapshot.augment mode allowList
          ⟨path, relative, result.unit⟩).report.augmented = 0) ∧
    (∀ (mode : Mode) (loaded : LoadedSnapshot), loaded.unit.Moderate Kept (2 ^ 49 - 1) →
      Every Kept (loaded.augment mode allowList).unit.numbers) ∧
    ∀ (settings : Settings) (workingDirectory : String) (volume : Volume),
      settings.allowList workingDirectory = allowList →
      settings.checkedOn volume = .ok (results.map (fileIn settings.input)) →
      ∃ outcome lines, (settings.check workingDirectory).on [] volume =
          ((outcome, lines), volume) ∧
        ((∀ result ∈ results, result.IsReadable) → outcome = .ok ()) ∧
        ((∃ result ∈ results, nestingBudget < result.unit.toJson.nesting) →
          ∃ result ∈ results, ∃ reason, outcome =
            .error (.load (.badUnit (result.outputPath settings.input .json) reason))) := by
  refine ⟨fun result hresult => ?_, fun mode loaded => loaded.kept_augment mode allowList, ?_⟩
  · have hown := hmade result hresult
    exact ⟨fun h => hown.ofText_render h.nesting h.kept, hown.ofText_render_deep,
      hown.augment_again⟩
  · rintro settings workingDirectory volume rfl hscanned
    obtain ⟨lines, hcheck⟩ := Settings.check_on workingDirectory hscanned
    refine ⟨_, lines, hcheck, checkFiles_readable settings.input hmade, ?_⟩
    rintro ⟨deep, hmem, hdeep⟩
    exact checkFiles_deep settings.input hmade hmem hdeep

end RunResult

namespace RunResult

open scoped IgnoreTable Pattern

/-- A unit with one route and nothing recorded but where its factory is declared. -/
def namesUnit : CompilationUnit := ⟨Project.textController, Project.factorySnapshot⟩

/-- The route of that unit with an artifact. -/
def namesResult : RunResult :=
  LoadedSnapshot.augment .assert (.ofRoot "/" "/app")
    ⟨.ofString "in/Names.nestia.json", .ofString "Names.nestia.json", namesUnit⟩

/-- Settings that scan the directory of the results. -/
def namesSettings : Settings where
  input := .ofString "out"
  packageRoot? := some (.ofString "/app")

/-- A volume that holds the result. -/
def namesVolume : Volume :=
  (Volume.bare.addDirectory ["out"]).putFile ["out", "Names.nestia.json"]
    (namesResult.render .json)

theorem made_namesResult : namesResult.Made (namesSettings.allowList "/") := by
  have hreads : CompilationUnit.ofText (namesUnit.toText ++ "\n") = .ok namesUnit := by
    have hnone : namesUnit.numbers = [] := by decide +kernel
    have hkept : Every Kept namesUnit.numbers := hnone ▸ every_nil
    exact CompilationUnit.ofText_line (by decide +kernel) hkept (by decide +kernel)
      (by decide +kernel)
  refine .augment _ _ hreads ?_
  intro site hsite type call recorded hreturn hcall hrecorded
  cases hrecorded

/-- The result does not nest too deep and has no numbers. -/
theorem isReadable_namesResult : namesResult.IsReadable where
  nesting := by decide +kernel
  kept := by
    have hnone : namesResult.unit.numbers = [] := by decide +kernel
    exact hnone ▸ every_nil

theorem checkedOn_namesVolume : namesSettings.checkedOn namesVolume =
    .ok [namesResult.fileIn namesSettings.input] := by
  have hroot : namesVolume.placeAt? namesSettings.input = some ["out"] := by decide +kernel
  have hfound : ScanRequest.foundOn ⟨namesSettings.input, true, none, none⟩ namesVolume =
      [["Names.nestia.json"]] :=
    IgnoreTable.foundOn_eq hroot (by decide +kernel) (by decide +kernel) (by decide +kernel)
      (by decide +kernel)
  refine except_bind_eq_ok.mpr ⟨⟨namesSettings.input, true, none, none⟩, rfl, ?_⟩
  refine (ScanRequest.filesOn_eq_ok (by decide +kernel)).mpr
    ⟨["out"], hroot, IgnoreTable.error_not_mem_walk, ?_⟩
  rw [hfound]
  rfl

theorem render_readBack_names :
    namesResult.Made (namesSettings.allowList "/") ∧ namesResult.IsReadable ∧
      namesResult.report.augmented = 1 ∧
      namesSettings.checkedOn namesVolume = .ok [namesResult.fileIn namesSettings.input] ∧
      CompilationUnit.ofText (namesResult.render .json) = .ok namesResult.unit ∧
      ((namesSettings.check "/").on [] namesVolume).1.1 = .ok () ∧
      ((namesSettings.check "/").on [] namesVolume).2 = namesVolume := by
  obtain ⟨hread, -, hcheck⟩ := render_readBack (List.forall_mem_singleton.mpr made_namesResult)
  have htext := (hread namesResult (List.mem_singleton_self _)).1 isReadable_namesResult
  obtain ⟨outcome, lines, hlines, hok, -⟩ :=
    hcheck namesSettings "/" namesVolume rfl checkedOn_namesVolume
  obtain rfl := hok (List.forall_mem_singleton.mpr isReadable_namesResult)
  rw [hlines]
  exact ⟨made_namesResult, isReadable_namesResult, by decide +kernel, checkedOn_namesVolume, htext,
    rfl, rfl⟩

/-- A unit with one route that responds with one of 110 codes. -/
def codesUnit : CompilationUnit where
  source := ⟨"src/controllers/codes.ts", [⟨"CodesController", [⟨"first",
    [⟨.call (.property (.identifier "TypedRoute") "Get") [] [.string "first"] ⟨0, 23⟩⟩],
    some (TyKind.promise (TyKind.union ((List.range 110).map fun code =>
      (TyKind.literalString ("c" ++ toString code)).type)).type).type⟩]⟩]⟩
  types := Project.factorySnapshot

/-- The check for the codes is a chain with a level for each of them. -/
def codesResult : RunResult :=
  LoadedSnapshot.augment .assert (.ofRoot "/" "/app")
    ⟨.ofString "in/Codes.nestia.json", .ofString "Codes.nestia.json", codesUnit⟩

/-- The unit is read from its text and records no types of expressions, yet what it is augmented to
cannot be read from the text that it is rendered to. -/
theorem render_readBack_tooDeep :
    CompilationUnit.ofText (codesUnit.toText ++ "\n") = .ok codesUnit ∧
      codesUnit.types.values.entries = [] ∧ codesResult.report.augmented = 1 ∧
      ∃ fault, CompilationUnit.ofText (codesResult.render .json) = .error (.json fault) := by
  have hnumbers : codesUnit.numbers = [] := by decide +kernel
  have hkept : Every Kept codesUnit.numbers := hnumbers ▸ every_nil
  refine ⟨?_, rfl, by decide +kernel, ?_⟩
  · exact CompilationUnit.ofText_line (by decide +kernel) hkept (by decide +kernel)
      (by decide +kernel)
  · exact CompilationUnit.ofText_line_deep (by decide +kernel) (by decide +kernel)

end RunResult

end TypedRoutes
