import TypedRoutes.Proofs.Route.Locations

/-!
# Allowed files

A file is allowed by the segments of its resolved path: either the declarations of the installed
package end a row of them, or they are those of the package root with the place of a decorator
source behind them.
-/

namespace TypedRoutes

/-- The path with more segments behind it. -/
def behind (path : List Char) (segments : List (List Char)) : List Char :=
  if path.getLast? = some '/' then path ++ slashed segments
  else path ++ '/' :: slashed segments

/-- Six segments in a row are those of a declaration file in the installed package. The first may
have more in front of it and the last may have more behind it. -/
def IsLibrarySite (segments : List (List Char)) : Prop :=
  ∃ before opening closing after,
    segments = before ++ opening ::
      (["@nestia", "core", "lib", "decorators"].map String.toList ++ closing :: after) ∧
    "node_modules".toList <:+ opening ∧
    ("TypedRoute.d.ts".toList <+: closing ∨ "EncryptedRoute.d.ts".toList <+: closing)

/-- The path is that of a decorator source under the root of the package. -/
def IsSourceSite (root path : List Char) : Prop :=
  ∃ name ∈ ["TypedRoute.ts", "EncryptedRoute.ts"],
    path = behind root (["src", "decorators", name].map String.toList)

/-! ## Segments behind a canonical path -/

/-- Joined ordinary segments do not end in a slash. -/
theorem getLast?_slashed {segments : List (List Char)} (hne : segments ≠ [])
    (h : ∀ segment ∈ segments, IsOrdinary segment) (front : List Char) :
    (front ++ slashed segments).getLast? ≠ some '/' := by
  intro hlast
  have hordinary := h _ (List.getLast_mem hne)
  have hsuffix := slashed_suffix_append segments.dropLast [segments.getLast hne]
  rw [List.dropLast_append_getLast hne] at hsuffix
  rw [slashed_singleton] at hsuffix
  obtain ⟨initial, hinitial⟩ := hsuffix
  rw [← hinitial, ← List.append_assoc, List.getLast?_append_of_ne_nil _ hordinary.ne_nil] at hlast
  exact hordinary.no_slash (List.mem_of_getLast? hlast)

/-- Segments behind others are separated from them; the start of a path brings its own slash. -/
theorem behind_start {start : List Char} {base segments : List (List Char)} (hstart : IsStart start)
    (hbase : ∀ segment ∈ base, IsOrdinary segment) (hne : segments ≠ []) :
    behind (start ++ slashed base) segments = start ++ slashed (base ++ segments) := by
  unfold behind
  by_cases hnil : base = []
  · subst hnil
    cases hstart <;> simp [slashed]
  · rw [if_neg (getLast?_slashed hnil hbase start), slashed_append hnil hne, List.append_assoc]

/-- Ordinary segments behind a canonical path are kept. -/
theorem IsCanonical.normalize_behind {path : List Char} (h : IsCanonical path)
    {segments : List (List Char)} (hne : segments ≠ [])
    (hsegments : ∀ segment ∈ segments, IsOrdinary segment) :
    normalize (path ++ '/' :: slashed segments) = behind path segments := by
  have hcanonical : IsCanonical (behind path segments) := by
    obtain ⟨start, base, hstart, hbase, rfl⟩ := h
    refine ⟨start, base ++ segments, hstart, ?_, behind_start hstart hbase hne⟩
    intro segment hsegment
    rcases List.mem_append.mp hsegment with hmem | hmem
    · exact hbase segment hmem
    · exact hsegments segment hmem
  rw [← hcanonical.normalize_eq]
  unfold behind
  by_cases hlast : path.getLast? = some '/'
  · rw [if_pos hlast]
    obtain ⟨front, rfl⟩ := List.getLast?_eq_some_iff.mp hlast
    rw [List.append_assoc, List.append_assoc, List.singleton_append, List.singleton_append]
    exact TypedRoutes.normalize_behind front fun _ _ => rfl
  · rw [if_neg hlast]

/-! ## The sites of a package -/

namespace AllowList

/-- The paths of the installed declarations, segment by segment. -/
theorem libraryPaths_eq : libraryPaths = ["EncryptedRoute.d.ts", "TypedRoute.d.ts"].map fun name =>
    slashed ("node_modules".toList ::
      (["@nestia", "core", "lib", "decorators"].map String.toList ++ [name.toList])) := by
  decide

/-- The installed declarations are found by the segments of a path. -/
theorem any_libraryPaths_iff (path : List Char) :
    libraryPaths.any (occursIn · path) = true ↔ IsLibrarySite (pieces '/' path) := by
  have hclean : ∀ name ∈ ["EncryptedRoute.d.ts", "TypedRoute.d.ts"], '/' ∉ name.toList := by decide
  have hfirst : '/' ∉ "node_modules".toList := by decide
  have hmiddle : ∀ segment ∈ ["@nestia", "core", "lib", "decorators"].map String.toList,
      '/' ∉ segment := by decide
  have hoccurs : ∀ name ∈ ["EncryptedRoute.d.ts", "TypedRoute.d.ts"], _ ↔ _ := fun name hname =>
    slashed_infix_iff hfirst hmiddle (hclean name hname) path
  rw [libraryPaths_eq, List.any_map, List.any_eq_true]
  simp only [Function.comp_apply, occursIn_iff]
  constructor
  · rintro ⟨name, hname, hinfix⟩
    obtain ⟨before, opening, closing, after, hpieces, hopening, hclosing⟩ :=
      (hoccurs name hname).mp hinfix
    refine ⟨before, opening, closing, after, hpieces, hopening, ?_⟩
    simp only [List.mem_cons, List.not_mem_nil, or_false] at hname
    rcases hname with rfl | rfl
    · exact .inr hclosing
    · exact .inl hclosing
  · rintro ⟨before, opening, closing, after, hpieces, hopening, hclosing⟩
    rcases hclosing with hclosing | hclosing
    · exact ⟨_, by simp, (hoccurs "TypedRoute.d.ts" (by simp)).mpr
        ⟨before, opening, closing, after, hpieces, hopening, hclosing⟩⟩
    · exact ⟨_, by simp, (hoccurs "EncryptedRoute.d.ts" (by simp)).mpr
        ⟨before, opening, closing, after, hpieces, hopening, hclosing⟩⟩

/-- The decorator sources stand behind the root of the package. -/
theorem sourcePaths_eq {allowList : AllowList} (h : IsCanonical allowList.root) :
    allowList.sourcePaths = ["EncryptedRoute.ts", "TypedRoute.ts"].map fun name =>
      behind allowList.root (["src", "decorators", name].map String.toList) := by
  have hnormalize : ∀ name ∈ ["EncryptedRoute.ts", "TypedRoute.ts"],
      normalize (allowList.root ++ '/' :: slashed (["src", "decorators", name].map String.toList)) =
        behind allowList.root (["src", "decorators", name].map String.toList) := by
    intro name hname
    apply h.normalize_behind (by simp)
    revert name
    decide
  rw [← List.map_congr_left hnormalize]
  rfl

theorem mem_sourcePaths_iff {allowList : AllowList} (h : IsCanonical allowList.root)
    (path : List Char) :
    path ∈ allowList.sourcePaths ↔ IsSourceSite allowList.root path := by
  rw [sourcePaths_eq h, List.mem_map]
  constructor
  · rintro ⟨name, hname, rfl⟩
    exact ⟨name, by simpa [or_comm] using hname, rfl⟩
  · rintro ⟨name, hname, rfl⟩
    exact ⟨name, by simpa [or_comm] using hname, rfl⟩

/-- A file is allowed exactly when its resolved path is that of an installed declaration file or
that of a decorator source of the package. -/
theorem contains_iff {workingDirectory root : String}
    (h : IsAbsolute root ∨ IsAbsolute workingDirectory) (file : String) :
    (ofRoot workingDirectory root).contains file = true ↔
      IsLibrarySite (pieces '/' ((ofRoot workingDirectory root).resolve file)) ∨
        IsSourceSite (ofRoot workingDirectory root).root
          ((ofRoot workingDirectory root).resolve file) := by
  rw [contains, Bool.or_eq_true, any_libraryPaths_iff, List.contains_iff_mem,
    mem_sourcePaths_iff (isCanonical_ofRoot root h)]

theorem contains_iff_core :
    (IsAbsolute "../core" ∨ IsAbsolute "/app/web") ∧
      ((ofRoot "/app/web" "../core").contains "src//decorators/../decorators/TypedRoute.ts" = true ↔
        IsLibrarySite (pieces '/' ((ofRoot "/app/web" "../core").resolve
          "src//decorators/../decorators/TypedRoute.ts")) ∨
        IsSourceSite (ofRoot "/app/web" "../core").root
          ((ofRoot "/app/web" "../core").resolve "src//decorators/../decorators/TypedRoute.ts")) ∧
      (ofRoot "/app/web" "../core").contains "src//decorators/../decorators/TypedRoute.ts" =
        true := by
  have habsolute : IsAbsolute "../core" ∨ IsAbsolute "/app/web" := .inr (by decide)
  exact ⟨habsolute, contains_iff habsolute _, by decide⟩

end AllowList

end TypedRoutes
