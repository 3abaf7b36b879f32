import TypedRoutes.Route.Augment

/-!
# Sites of decorators

A file seen as its outline and the sites of its decorators. Augmenting works on every site by
itself: it leaves the outline, and decides on the decorator of each site in turn.
-/

namespace TypedRoutes

/-- A method without its decorators: its name, its return type and the number of decorators. -/
def MethodDeclaration.outline (method : MethodDeclaration) : String × Option Ty × Nat :=
  (method.name, method.returnType?, method.decorators.length)

/-- A class without decorators: its name and its methods in order. -/
def ClassDeclaration.outline (declaration : ClassDeclaration) :
    String × List (String × Option Ty × Nat) :=
  (declaration.name, declaration.methods.map MethodDeclaration.outline)

/-- A file without decorators: its name and its classes in order. -/
def SourceFile.outline (file : SourceFile) :
    ByteText × List (String × List (String × Option Ty × Nat)) :=
  (file.fileName, file.classes.map ClassDeclaration.outline)

/-- A decorator with where it stands: its class, its method and what the method returns. -/
structure Site where
  className : String
  methodName : String
  returnType? : Option Ty
  decorator : Decorator

/-- The sites of a method. -/
def MethodDeclaration.sites (className : String) (method : MethodDeclaration) : List Site :=
  method.decorators.map fun decorator => ⟨className, method.name, method.returnType?, decorator⟩

/-- The sites of a class. -/
def ClassDeclaration.sites (declaration : ClassDeclaration) : List Site :=
  declaration.methods.flatMap (MethodDeclaration.sites declaration.name)

/-- The sites of a file in source order. -/
def SourceFile.sites (file : SourceFile) : List Site :=
  file.classes.flatMap ClassDeclaration.sites

theorem SourceFile.decorators_eq_map_sites (file : SourceFile) :
    file.decorators = file.sites.map Site.decorator := by
  simp [SourceFile.decorators, SourceFile.sites, ClassDeclaration.sites, MethodDeclaration.sites,
    List.map_flatMap, Function.comp_def]

namespace Project

variable (project : Project)

/-! ## Verdicts -/

variable {project} in
/-- What is eligible is a call of an allowed factory with room for an artifact, and what the method
responds with can be written. -/
theorem inspect_eligible {type : Ty} {decorator : Decorator} {call : CallParts}
    {written : TypeExpr} (h : project.inspect type decorator = .eligible call written) :
    decorator.call? = some call ∧ project.siteProblem? call = none ∧
      project.argumentProblem? call.arguments = none ∧
      project.resolver.written? type = some written := by
  unfold inspect at h
  cases hcall : decorator.call? with
  | none => simp [hcall] at h
  | some found =>
    cases hproblem : (project.siteProblem? found).or
        (project.argumentProblem? found.arguments) with
    | some reason => simp [hcall, hproblem] at h
    | none =>
      cases hwritten : project.resolver.written? type with
      | none => simp [hcall, hproblem, hwritten] at h
      | some _ =>
        obtain ⟨rfl, rfl⟩ : found = call ∧ _ = written := by
          simpa [hcall, hproblem, hwritten] using h
        obtain ⟨hsite, harguments⟩ := Option.or_eq_none_iff.mp hproblem
        exact ⟨rfl, hsite, harguments, rfl⟩

variable {project} in
/-- A call without room for an artifact is skipped. -/
theorem inspect_of_argumentProblem? (type : Ty) {decorator : Decorator} {call : CallParts}
    (hcall : decorator.call? = some call)
    (hproblem : (project.argumentProblem? call.arguments).isSome = true) :
    ∃ reason, project.inspect type decorator = .skip reason := by
  have hsome : ((project.siteProblem? call).or
      (project.argumentProblem? call.arguments)).isSome = true := by
    simp [Option.isSome_or, hproblem]
  obtain ⟨reason, hreason⟩ := Option.isSome_iff_exists.mp hsome
  exact ⟨reason, by simp [inspect, hcall, hreason]⟩

/-! ## Sites -/

/-- What becomes of the decorator of a site, with its outcome. -/
def augmentSite (site : Site) : Decorator × Outcome :=
  match site.returnType? with
  | none => (site.decorator, .skipped .missingReturnType)
  | some type => project.augment type.response site.decorator

/-- The site with what becomes of its decorator. -/
def resultAt (site : Site) : Site :=
  { site with decorator := (project.augmentSite site).1 }

/-- The report entry of a site. -/
def entryAt (site : Site) : ReportEntry :=
  ⟨site.className, site.methodName, site.decorator.print {}, (project.augmentSite site).2⟩

/-! ## Methods and files by sites -/

theorem augmentMethod_decorators (className : String) (method : MethodDeclaration) :
    (project.augmentMethod method).method.decorators =
      (method.sites className).map fun site => (project.augmentSite site).1 := by
  obtain ⟨name, decorators, returnType?⟩ := method
  cases returnType? <;>
    simp [augmentMethod, MethodDeclaration.sites, augmentSite, Function.comp_def]

theorem augmentMethod_outcomes (className : String) (method : MethodDeclaration) :
    (project.augmentMethod method).outcomes =
      (method.sites className).map fun site => (project.augmentSite site).2 := by
  obtain ⟨name, decorators, returnType?⟩ := method
  cases returnType? <;>
    simp [augmentMethod, MethodDeclaration.sites, augmentSite, Function.comp_def]

theorem augmentMethod_name (method : MethodDeclaration) :
    (project.augmentMethod method).method.name = method.name := by
  obtain ⟨name, decorators, returnType?⟩ := method
  cases returnType? <;> rfl

theorem augmentMethod_returnType? (method : MethodDeclaration) :
    (project.augmentMethod method).method.returnType? = method.returnType? := by
  obtain ⟨name, decorators, returnType?⟩ := method
  cases returnType? <;> rfl

theorem augmentMethod_outline (method : MethodDeclaration) :
    (project.augmentMethod method).method.outline = method.outline := by
  have hlength : (project.augmentMethod method).method.decorators.length =
      method.decorators.length := by
    simp [project.augmentMethod_decorators "" method, MethodDeclaration.sites]
  simp [MethodDeclaration.outline, augmentMethod_name, augmentMethod_returnType?, hlength]

theorem augmentMethod_sites (className : String) (method : MethodDeclaration) :
    (project.augmentMethod method).method.sites className =
      (method.sites className).map project.resultAt := by
  rw [MethodDeclaration.sites, augmentMethod_name, augmentMethod_returnType?,
    project.augmentMethod_decorators className]
  simp [MethodDeclaration.sites, resultAt, Function.comp_def]

theorem methodEntries_eq_map (className : String) (method : MethodDeclaration) :
    project.methodEntries className method = (method.sites className).map project.entryAt := by
  rw [methodEntries, project.augmentMethod_outcomes className, MethodDeclaration.sites]
  induction method.decorators with
  | nil => rfl
  | cons decorator rest ih => simpa [entryAt] using ih

/-- Augmenting keeps the outline of a file. -/
theorem augmentFile_outline (file : SourceFile) :
    (project.augmentFile file).file.outline = file.outline := by
  have hclass (declaration : ClassDeclaration) :
      (project.augmentClass declaration).outline = declaration.outline := by
    simp [ClassDeclaration.outline, augmentClass, Function.comp_def, augmentMethod_outline]
  simp [SourceFile.outline, augmentFile, Function.comp_def, hclass]

/-- Augmenting a file decides on each site by itself. -/
theorem augmentFile_sites (file : SourceFile) :
    (project.augmentFile file).file.sites = file.sites.map project.resultAt := by
  have hclass (declaration : ClassDeclaration) :
      (project.augmentClass declaration).sites = declaration.sites.map project.resultAt := by
    simp [ClassDeclaration.sites, augmentClass, List.flatMap_map, List.map_flatMap,
      augmentMethod_sites]
  simp [SourceFile.sites, augmentFile, List.flatMap_map, List.map_flatMap, hclass]

/-- The report has one entry for each site, in source order. -/
theorem augmentFile_entries (file : SourceFile) :
    (project.augmentFile file).report.entries = file.sites.map project.entryAt := by
  have hmethods (className : String) :
      project.methodEntries className =
        fun method => (method.sites className).map project.entryAt :=
    funext (project.methodEntries_eq_map className)
  simp [augmentFile, SourceFile.sites, ClassDeclaration.sites, List.map_flatMap, hmethods]

/-- A file of which no decorator is changed is not changed. -/
theorem augmentFile_eq_self {file : SourceFile}
    (h : ∀ site ∈ file.sites, (project.augmentSite site).1 = site.decorator) :
    (project.augmentFile file).file = file := by
  have hmethod : ∀ declaration ∈ file.classes, ∀ method ∈ declaration.methods,
      (project.augmentMethod method).method = method := by
    intro declaration hdeclaration method hmethod
    have hsites : ∀ site ∈ method.sites declaration.name, site ∈ file.sites := fun site hsite =>
      List.mem_flatMap.mpr ⟨declaration, hdeclaration,
        List.mem_flatMap.mpr ⟨method, hmethod, hsite⟩⟩
    have hdecorators : (project.augmentMethod method).method.decorators = method.decorators := by
      rw [project.augmentMethod_decorators declaration.name,
        List.map_congr_left fun site hsite => h site (hsites site hsite)]
      simp [MethodDeclaration.sites, Function.comp_def]
    have hname := project.augmentMethod_name method
    have hreturn := project.augmentMethod_returnType? method
    generalize (project.augmentMethod method).method = result at hdecorators hname hreturn ⊢
    obtain ⟨_, _, _⟩ := result
    obtain ⟨_, _, _⟩ := method
    simp_all
  have hclass : ∀ declaration ∈ file.classes, project.augmentClass declaration = declaration := by
    intro declaration hdeclaration
    rw [augmentClass, List.map_congr_left (hmethod declaration hdeclaration), List.map_id']
  rw [augmentFile]
  simp only [List.map_congr_left hclass, List.map_id']

end Project

end TypedRoutes
