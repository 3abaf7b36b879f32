import Mathlib.Data.List.Sort
import TypedRoutes.Proofs.Route.Sites
import TypedRoutes.Source.Snapshot

/-!
# Augmenting twice

A decorator that received an artifact does not receive another one, whatever the mode is the second
time: its last argument is an object literal, which is a plain object unless the snapshot records
its text as something else. So a second pass finds nothing to do.
-/

namespace TypedRoutes

/-- A map is determined by what it looks up. -/
theorem KeyMap.ext_get? {α : Type} {first second : KeyMap α}
    (h : ∀ key, first.get? key = second.get? key) : first = second := by
  have hmem (entry : String × α) : entry ∈ first.entries ↔ entry ∈ second.entries := by
    rw [← get?_eq_some_iff, ← get?_eq_some_iff, h]
  -- the order of the keys is strict, so that it lists the same entries in one way
  let before (a b : String × α) : Prop := a.1 < b.1
  have hirrefl : Std.Irrefl before := ⟨fun a => String.lt_irrefl a.1⟩
  have hantisymm : Std.Antisymm before := ⟨fun a b hab hba => absurd hba (String.lt_asymm hab)⟩
  obtain ⟨entries, sorted⟩ := first
  obtain ⟨others, sorted'⟩ := second
  have hentries : entries = others :=
    List.Pairwise.eq_of_mem_iff sorted sorted' hmem
  subst hentries
  rfl

/-- A snapshot lends the definitions that it holds. -/
@[simp] theorem Snapshot.definitions_resolver (snapshot : Snapshot) :
    snapshot.resolver.definitions = snapshot.definitions :=
  KeyMap.ext_get? fun name => snapshot.resolver.get?_definitions name

/-- The project that answers from a snapshot. -/
def Snapshot.project (snapshot : Snapshot) (allowList : AllowList) (mode : Mode) : Project :=
  ⟨snapshot.resolver, mode, allowList⟩

/-- The artifact that a project with the answers of a snapshot makes. -/
theorem Snapshot.project_artifact (snapshot : Snapshot) (allowList : AllowList) (mode : Mode)
    (callee : Expr) (type : Ty) : (snapshot.project allowList mode).artifact callee type =
      artifact snapshot.definitions callee mode type := by
  rw [artifact, ← snapshot.definitions_resolver]
  rfl

/-- The snapshot records none of the artifacts that the file can receive, or records it as a plain
object. -/
def Snapshot.AdmitsArtifacts (snapshot : Snapshot) (mode : Mode) (file : SourceFile) : Prop :=
  ∀ site ∈ file.sites, ∀ (type : Ty) (call : CallParts) (recorded : Ty),
    site.returnType? = some type → site.decorator.call? = some call →
    snapshot.values.get?
      ((artifact snapshot.definitions call.callee mode type.response).print {}) = some recorded →
    (TypeFlags.classify snapshot.definitions recorded).isPlainObject = true

/-- An object literal is a plain object unless it is recorded as something else. -/
theorem Snapshot.isPlainObject_typeAt_object {snapshot : Snapshot} {entries : List Entry}
    (h : ∀ recorded, snapshot.values.get? ((Expr.object entries).print {}) = some recorded →
      (TypeFlags.classify snapshot.definitions recorded).isPlainObject = true) :
    (TypeFlags.classify snapshot.definitions
      (snapshot.typeAt (.object entries))).isPlainObject = true := by
  rw [typeAt, recordedOr]
  cases hrecorded : snapshot.values.get? ((Expr.object entries).print {}) with
  | none => rfl
  | some recorded => exact h recorded hrecorded

namespace Project

/-- The decision on a decorator does not depend on the mode. -/
theorem inspect_project (snapshot : Snapshot) (allowList : AllowList) (first second : Mode)
    (type : Ty) (decorator : Decorator) :
    (snapshot.project allowList second).inspect type decorator =
      (snapshot.project allowList first).inspect type decorator := rfl

/-- Behind an artifact there is no place for another one. -/
theorem argumentProblem?_artifact {snapshot : Snapshot} (allowList : AllowList)
    {first : Mode} (second : Mode) {callee : Expr} {type : Ty}
    (h : ∀ recorded, snapshot.values.get?
        ((TypedRoutes.artifact snapshot.definitions callee first type).print {}) = some recorded →
      (TypeFlags.classify snapshot.definitions recorded).isPlainObject = true)
    (arguments : List Expr) :
    ((snapshot.project allowList second).argumentProblem?
      (arguments ++ [(snapshot.project allowList first).artifact callee type])).isSome = true := by
  rw [snapshot.project_artifact]
  match arguments with
  | [] =>
    have hplain := Snapshot.isPlainObject_typeAt_object h
    exact congrArg Option.isSome (if_pos hplain)
  | [_] => rfl
  | _ :: _ :: _ => rfl

/-- The second pass skips what the first pass leaves at a site. -/
theorem augmentSite_resultAt {snapshot : Snapshot} {file : SourceFile} (allowList : AllowList)
    {first : Mode} (second : Mode) (h : snapshot.AdmitsArtifacts first file) {site : Site}
    (hsite : site ∈ file.sites) :
    ∃ reason, (snapshot.project allowList second).augmentSite
        ((snapshot.project allowList first).resultAt site) =
      (((snapshot.project allowList first).resultAt site).decorator, .skipped reason) := by
  obtain ⟨className, methodName, returnType?, decorator⟩ := site
  cases returnType? with
  | none => exact ⟨_, rfl⟩
  | some type =>
    simp only [resultAt, augmentSite, augment]
    cases hverdict : (snapshot.project allowList first).inspect type.response decorator with
    | skip reason =>
      refine ⟨reason, ?_⟩
      simp only [inspect_project snapshot allowList first second, hverdict]
    | eligible call written =>
      obtain ⟨hcall, -, -, -⟩ := inspect_eligible hverdict
      have hfull := argumentProblem?_artifact allowList second
        (fun recorded => h _ hsite type call recorded rfl hcall) call.arguments
      have hagain : ((snapshot.project allowList first).withArtifact type.response call).call? =
          some { call with arguments := call.arguments ++
            [(snapshot.project allowList first).artifact call.callee type.response] } := rfl
      obtain ⟨reason, hreason⟩ := inspect_of_argumentProblem? type.response hagain hfull
      exact ⟨reason, by simp only [hreason]⟩

/-- The second pass skips every site of the file that the first pass leaves. -/
theorem augmentSite_again {snapshot : Snapshot} {file : SourceFile} (allowList : AllowList)
    {first : Mode} (second : Mode) (h : snapshot.AdmitsArtifacts first file) :
    ∀ site ∈ ((snapshot.project allowList first).augmentFile file).file.sites,
      ∃ reason, (snapshot.project allowList second).augmentSite site =
        (site.decorator, .skipped reason) := by
  rw [augmentFile_sites, List.forall_mem_map]
  exact fun site hsite => augmentSite_resultAt allowList second h hsite

/-- Augmenting a file a second time, in whatever mode, finds nothing to augment and leaves the file
as the first pass left it. -/
theorem augmentFile_twice {snapshot : Snapshot} {file : SourceFile} (allowList : AllowList)
    {first : Mode} (second : Mode) (h : snapshot.AdmitsArtifacts first file) :
    (∀ entry ∈ ((snapshot.project allowList second).augmentFile
        ((snapshot.project allowList first).augmentFile file).file).report.entries,
      entry.outcome ≠ .augmented) ∧
    ((snapshot.project allowList second).augmentFile
        ((snapshot.project allowList first).augmentFile file).file).file =
      ((snapshot.project allowList first).augmentFile file).file := by
  have hagain := augmentSite_again allowList second h
  constructor
  · intro entry hentry
    rw [augmentFile_entries] at hentry
    obtain ⟨site, hsite, rfl⟩ := List.mem_map.mp hentry
    obtain ⟨reason, hreason⟩ := hagain site hsite
    simp [entryAt, hreason]
  · refine augmentFile_eq_self _ fun site hsite => ?_
    obtain ⟨reason, hreason⟩ := hagain site hsite
    rw [hreason]

/-- The factory `TypedRoute.Get`. -/
def routeFactory : Expr := .property (.identifier "TypedRoute") "Get"

/-- A snapshot that knows where the factory of the decorators is declared, and nothing else. -/
def factorySnapshot : Snapshot where
  symbols := KeyMap.empty.insert "TypedRoute"
    (some ⟨"node_modules/@nestia/core/lib/decorators/TypedRoute.d.ts", "Get"⟩)

/-- What the artifact of an asserted text can be recorded as. -/
def recordedArtifact : Ty := (TyKind.object []).type

/-- A snapshot that has recorded the artifact of an asserted text. -/
def recordingSnapshot : Snapshot :=
  { factorySnapshot with
    values := KeyMap.empty.insert ((TypedRoutes.artifact .empty routeFactory .assert
      TyKind.string.type).print {}) recordedArtifact }

/-- A controller with one route that responds with a text. -/
def textController : SourceFile :=
  ⟨"src/controllers/names.ts", [⟨"NamesController", [⟨"first",
    [⟨.call routeFactory [] [.string "first"] ⟨0, 0⟩⟩],
    some (TyKind.promise TyKind.string.type).type⟩]⟩]⟩

theorem augmentFile_twice_textController :
    recordingSnapshot.values.get? ((TypedRoutes.artifact recordingSnapshot.definitions routeFactory
      .assert TyKind.string.type).print {}) = some recordedArtifact ∧
    recordingSnapshot.AdmitsArtifacts .assert textController ∧
      ((recordingSnapshot.project (.ofRoot "/" "/app") .assert).augmentFile
        textController).report.augmented = 1 ∧
      ((recordingSnapshot.project (.ofRoot "/" "/app") .validate).augmentFile
        ((recordingSnapshot.project (.ofRoot "/" "/app") .assert).augmentFile
          textController).file).file =
        ((recordingSnapshot.project (.ofRoot "/" "/app") .assert).augmentFile
          textController).file := by
  have hrecords : recordingSnapshot.values.get? ((TypedRoutes.artifact recordingSnapshot.definitions
      routeFactory .assert TyKind.string.type).print {}) = some recordedArtifact := by
    rw [recordingSnapshot, KeyMap.get?_insert]
    exact if_pos rfl
  have hadmits : recordingSnapshot.AdmitsArtifacts .assert textController := by
    intro site hsite type call recorded hreturn hcall hrecorded
    rw [recordingSnapshot, KeyMap.get?_insert] at hrecorded
    obtain rfl : recordedArtifact = recorded := by
      split at hrecorded
      · exact Option.some.inj hrecorded
      · cases hrecorded
    rfl
  exact ⟨hrecords, hadmits, by decide +kernel,
    (augmentFile_twice (.ofRoot "/" "/app") .validate hadmits).2⟩

end Project

end TypedRoutes
