import TypedRoutes.Proofs.Route.Sites

/-!
# What a report accounts for

A file is augmented in place: its outline stays, and the report says of every decorator, in source
order, whether it is the one that stood there before or the same call with an artifact behind its
arguments.
-/

namespace TypedRoutes

/-- The number of arguments that a decorator passes. -/
def Decorator.argumentCount (decorator : Decorator) : Nat :=
  match decorator.call? with
  | none => 0
  | some call => call.arguments.length

theorem Decorator.eq_of_call? {decorator : Decorator} {call : CallParts}
    (h : decorator.call? = some call) : decorator = ⟨call.expr⟩ := by
  obtain ⟨expr⟩ := decorator
  cases expr with
  | call callee typeArguments arguments span =>
    obtain rfl := Option.some.inj h
    rfl
  | _ => cases h

@[simp] theorem Decorator.argumentCount_call (call : CallParts) :
    Decorator.argumentCount ⟨call.expr⟩ = call.arguments.length := rfl

/-- A list with room for an artifact has at most one argument. -/
theorem Project.length_le_one_of_argumentProblem? {project : Project} {arguments : List Expr}
    (h : project.argumentProblem? arguments = none) : arguments.length ≤ 1 := by
  match arguments, h with
  | [], _ => simp
  | [_], _ => simp

namespace Project

variable (project : Project)

/-- What a decision makes of a site: the decorator stays, or it is a call with at most one argument
and the artifact for what the method responds with comes behind it. -/
inductive Decides (site : Site) : Decorator → Outcome → Prop
  | skipped (reason : SkipReason) : Decides site site.decorator (.skipped reason)
  | augmented {type : Ty} {call : CallParts} (returns : site.returnType? = some type)
      (calls : site.decorator = ⟨call.expr⟩) (room : call.arguments.length ≤ 1) :
      Decides site ⟨.call call.callee call.typeArguments
        (call.arguments ++ [project.artifact call.callee type.response]) call.span⟩ .augmented

theorem decides_augment {site : Site} {type : Ty} (hreturn : site.returnType? = some type) :
    project.Decides site (project.augment type.response site.decorator).1
      (project.augment type.response site.decorator).2 := by
  unfold augment
  cases hverdict : project.inspect type.response site.decorator with
  | skip reason => exact .skipped reason
  | eligible call written =>
    obtain ⟨hcall, -, hroom, -⟩ := inspect_eligible hverdict
    exact .augmented hreturn (Decorator.eq_of_call? hcall)
      (length_le_one_of_argumentProblem? hroom)

theorem decides_augmentSite (site : Site) :
    project.Decides site (project.augmentSite site).1 (project.augmentSite site).2 := by
  unfold augmentSite
  cases hreturn : site.returnType? with
  | none => exact .skipped _
  | some type => exact project.decides_augment hreturn

variable {project} in
/-- A decorator is augmented exactly when it passes more arguments than before. -/
theorem Decides.augmented_iff {site : Site} {decorator : Decorator} {outcome : Outcome}
    (h : project.Decides site decorator outcome) :
    outcome = .augmented ↔ site.decorator.argumentCount < decorator.argumentCount := by
  cases h with
  | skipped reason => simp
  | @augmented type call returns calls room =>
    rw [calls]
    simp [Decorator.argumentCount, Decorator.call?, CallParts.expr]

/-- What a result has to show for itself: nothing but decorators differs from the file, the report
has an entry for each of them at its place, and the totals are those of the entries. -/
structure Accounts (file : SourceFile) (result : AugmentedFile) : Prop where
  outline : result.file.outline = file.outline
  reported : result.report.fileName = file.fileName
  length : result.report.entries.length = file.decorators.length
  decided : ∀ (position : Nat) (site : Site), file.sites[position]? = some site →
    ∃ (decorator : Decorator) (entry : ReportEntry),
      result.file.decorators[position]? = some decorator ∧
      result.report.entries[position]? = some entry ∧
      entry.className = site.className ∧ entry.methodName = site.methodName ∧
      entry.decorator = site.decorator.print {} ∧
      project.Decides site decorator entry.outcome
  total : result.report.augmented + result.report.skipped = file.decorators.length
  changed : result.report.isChanged = true ↔
    ∃ (position : Nat) (before after : Decorator), file.decorators[position]? = some before ∧
      result.file.decorators[position]? = some after ∧
      before.argumentCount < after.argumentCount

theorem augmentFile_decorators (file : SourceFile) :
    (project.augmentFile file).file.decorators =
      file.sites.map fun site => (project.augmentSite site).1 := by
  rw [SourceFile.decorators_eq_map_sites, augmentFile_sites]
  simp [resultAt, Function.comp_def]

theorem augmentFile_isChanged (file : SourceFile) :
    (project.augmentFile file).report.isChanged = true ↔
      ∃ site ∈ file.sites, (project.augmentSite site).2 = .augmented := by
  rw [Report.isChanged, decide_eq_true_eq, Report.augmented, augmentFile_entries, List.countP_map,
    List.countP_pos_iff]
  simp only [Function.comp_apply, decide_eq_true_eq]
  rfl

/-- Augmenting a file accounts for every decorator and touches nothing else. -/
theorem augmentFile_accounts (file : SourceFile) :
    project.Accounts file (project.augmentFile file) := by
  have hlength : (project.augmentFile file).report.entries.length = file.decorators.length := by
    simp [augmentFile_entries, SourceFile.decorators_eq_map_sites]
  refine ⟨project.augmentFile_outline file, rfl, hlength, ?decided, ?total, ?changed⟩
  case decided =>
    intro position site hsite
    refine ⟨(project.augmentSite site).1, project.entryAt site, ?_, ?_, rfl, rfl, rfl,
      project.decides_augmentSite site⟩
    · simp [augmentFile_decorators, hsite]
    · simp [augmentFile_entries, hsite]
  case total =>
    have hle : (project.augmentFile file).report.augmented ≤
        (project.augmentFile file).report.entries.length := List.countP_le_length
    rw [Report.skipped, ← hlength]
    omega
  case changed =>
    rw [augmentFile_isChanged, augmentFile_decorators, SourceFile.decorators_eq_map_sites]
    constructor
    · rintro ⟨site, hsite, houtcome⟩
      obtain ⟨position, hposition⟩ := List.mem_iff_getElem?.mp hsite
      exact ⟨position, site.decorator, (project.augmentSite site).1, by simp [hposition],
        by simp [hposition], (project.decides_augmentSite site).augmented_iff.mp houtcome⟩
    · rintro ⟨position, before, after, hbefore, hafter, hcount⟩
      obtain ⟨site, hsite, rfl⟩ : ∃ site, file.sites[position]? = some site ∧
          site.decorator = before := by simpa using hbefore
      obtain rfl : (project.augmentSite site).1 = after := by simpa [hsite] using hafter
      exact ⟨site, List.mem_of_getElem? hsite,
        (project.decides_augmentSite site).augmented_iff.mpr hcount⟩

end Project

end TypedRoutes
